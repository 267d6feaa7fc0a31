import TKNC.Gateway.Json
import TKNC.Lib.JsonSearch

/-!
# FieldLookup — the field reader of the gateway on JSON documents

`SimpleJsonParser` searches the text of a document for the quoted key.  Where the first occurrence
is the key of the member that JSON has under it, the value behind it is read, with the exceptions
that are named here; elsewhere the reader takes a nested field or the contents of a string for it.
-/

namespace TKNC.Gateway

open Lib.JsonText Lib.MachineInt Lib.Numeral Lib.TextSearch Option
open List hiding contains

/-! ## Finding the value -/

def fromField (d : Document) (key : Bytes) (f : Field) : Bytes :=
  quoted key ++ (f.behind.1 ++ colon :: (f.between.1 ++ (f.value.text ++
    (f.rest ++ 125 :: d.trailing.1))))

/-- The first occurrence of the quoted key is the key of the member that has it. -/
structure FindsField (d : Document) (key : Bytes) (f : Field) : Prop where
  field : d.members.field key = some f
  first : find (quoted key) d.text = some (fromField d key f)

theorem find_colon_of_not_mem {u v : Bytes} (h : colon ∉ u) :
    find [colon] (u ++ colon :: v) = some (colon :: v) := by
  rw [find_append_of_not_mem h]
  exact find_append_self (cons_ne_nil _ _) v

variable {f : Field} {d : Document}

variable {key : Bytes}

theorem valueOf_of_findsField (h : FindsField d key f) (hkey : colon ∉ key) :
    valueOf d.text key =
      some (f.between.1 ++ (f.value.text ++ (f.rest ++ 125 :: d.trailing.1))) := by
  have hbehind : colon ∉ quoted key ++ f.behind.1 := by
    simp only [quoted, cons_append, mem_cons, mem_append]
    rintro (hquote | (hmem | hquote) | hblank)
    · exact absurd hquote (by decide)
    · exact hkey hmem
    · exact absurd hquote (by decide)
    · exact not_mem_blank f.behind (by decide) hblank
  rw [valueOf, h.first, fromField, ← append_assoc]
  dsimp only
  rw [find_colon_of_not_mem hbehind]
  rfl

theorem valueOf_of_colon_mem (h : FindsField d key f) (hkey : colon ∈ key) :
    valueOf d.text key =
      some ((key.dropWhile (· ≠ colon)).tail ++ quote :: (f.behind.1 ++ colon :: (f.between.1 ++
        (f.value.text ++ (f.rest ++ 125 :: d.trailing.1))))) := by
  obtain ⟨front, back, hsplit, hfront⟩ := eq_append_cons_of_mem hkey
  have hdrop : key.dropWhile (· ≠ colon) = colon :: back := by
    rw [hsplit, dropWhile_append_cons (by decide), dropWhile_eq_nil_iff.2]
    · rfl
    · intro b hb
      exact decide_eq_true fun hcolon => hfront (hcolon ▸ hb)
  have htext : fromField d key f = (quote :: front) ++ colon :: (back ++ quote :: (f.behind.1 ++
      colon :: (f.between.1 ++ (f.value.text ++ (f.rest ++ 125 :: d.trailing.1))))) := by
    simp only [fromField, quoted, hsplit, cons_append, append_assoc, nil_append]
  have hbefore : colon ∉ quote :: front := by
    rw [mem_cons, not_or]
    exact ⟨by decide, hfront⟩
  rw [valueOf, h.first, htext, hdrop]
  dsimp only
  rw [find_colon_of_not_mem hbefore]
  rfl

variable {c : UInt8}

theorem dropWhile_blank (blank : Blank) (h : isBlankOrBreak c = false) (rest : Bytes) :
    (blank.1 ++ c :: rest).dropWhile isBlankOrBreak = c :: rest := by
  rw [dropWhile_append_of_pos (p := isBlankOrBreak) blank.2,
    dropWhile_cons, h]
  rfl

/-! ## Strings -/

def readLetter : Letter → Bytes
  | .plain b _ => [b]
  | .escape e =>
      [if e.letter = 110 then 10 else if e.letter = 114 then 13 else if e.letter = 116 then 9
        else e.letter]
  | .unicode digits _ => 117 :: digits

theorem unescape_letter (l : Letter) (v : Bytes) :
    unescape (l.text ++ v) = readLetter l ++ unescape v := by
  cases l with
  | plain b h => exact copies_unescape b v h.2.1 h.2.2
  | escape e => cases e <;> rfl
  | unicode digits h =>
    have hread : unescape (92 :: 117 :: (digits ++ v)) = 117 :: unescape (digits ++ v) := rfl
    refine hread.trans ?_
    rw [copies_unescape.append (not_mem_of_hex h.2 rfl) (not_mem_of_hex h.2 rfl)]
    rfl

/-- A reader that takes the letters one by one. -/
theorem read_letters {text : Bytes → Bytes} {letter : Letter → Bytes}
    (hletter : ∀ l v, text (l.text ++ v) = letter l ++ text v) (s : Letters) (v : Bytes) :
    text (lettersText s ++ v) = s.flatMap letter ++ text v := by
  induction s with
  | nil => rfl
  | cons l s ih =>
    rw [lettersText, flatMap_cons, append_assoc, hletter, ← lettersText, ih, flatMap_cons,
      append_assoc]

theorem stringText_append (s : Letters) (v : Bytes) :
    stringText s ++ v = quote :: (lettersText s ++ quote :: v) := by
  rw [stringText, cons_append, append_assoc]
  rfl

variable {raw key rest : Bytes} {between : Blank}

theorem getString_of_valueOf {s : Letters}
    (h : valueOf raw key = some (between.1 ++ (stringText s ++ rest))) :
    getString raw key = s.flatMap readLetter := by
  rw [getString, h, map_some, stringText_append, dropWhile_blank between (by decide)]
  refine (read_letters unescape_letter s (quote :: rest)).trans ?_
  rw [unescape_quote, append_nil]

/-! ## Escaped strings -/

def letterOf (c : UInt8) : Letter :=
  if hquote : c = quote then .escape .quote
  else if hslash : c = backslash then .escape .backslash
  else if c = 10 then .escape .lineFeed
  else if c = 13 then .escape .carriageReturn
  else if c = 9 then .escape .tab
  else if hcontrol : c.toNat < 32 then
    .unicode (toHex 4 c.toNat) ⟨length_toHex 4 c.toNat, by
      intro d hd
      obtain ⟨n, hn, rfl⟩ := mem_toHex hd
      rw [hexValue_hexByte hn]
      rfl⟩
  else .plain c ⟨Nat.le_of_not_lt hcontrol, hquote, hslash⟩

theorem text_letterOf (c : UInt8) : (letterOf c).text = escapeByte c := by
  rw [letterOf, escapeByte]
  split_ifs <;> rfl

theorem jsonEscape_eq (s : Bytes) : jsonEscape s = lettersText (s.map letterOf) := by
  simp only [jsonEscape, lettersText, flatMap_map, text_letterOf]

/-- A control character without a letter of its own comes back as the text of its escape. -/
theorem readLetter_letterOf (c : UInt8) :
    readLetter (letterOf c) =
      if c.toNat < 32 ∧ c ≠ 9 ∧ c ≠ 10 ∧ c ≠ 13 then 117 :: toHex 4 c.toNat else [c] := by
  by_cases hquote : c = quote
  · subst hquote
    rfl
  by_cases hslash : c = backslash
  · subst hslash
    rfl
  by_cases hlf : c = 10
  · subst hlf
    rfl
  by_cases hcr : c = 13
  · subst hcr
    rfl
  by_cases htab : c = 9
  · subst htab
    rfl
  rw [letterOf, dif_neg hquote, dif_neg hslash, if_neg hlf, if_neg hcr, if_neg htab]
  by_cases hcontrol : c.toNat < 32
  · rw [dif_pos hcontrol, if_pos ⟨hcontrol, htab, hlf, hcr⟩]
    rfl
  · rw [dif_neg hcontrol, if_neg fun h => hcontrol h.1]
    rfl

theorem flatMap_eq_self_iff {f : UInt8 → Bytes} (h : ∀ c, f c = [c] ∨ 1 < (f c).length)
    (s : Bytes) : s.flatMap f = s ↔ ∀ c ∈ s, f c = [c] := by
  have hlength (s : Bytes) : s.length ≤ (s.flatMap f).length := by
    induction s with
    | nil => exact Nat.le_refl 0
    | cons c s ih =>
      rw [flatMap_cons, length_append, length_cons]
      rcases h c with hc | hc
      · rw [hc, length_singleton]
        omega
      · omega
  induction s with
  | nil => exact iff_of_true rfl nofun
  | cons c s ih =>
    rw [forall_mem_cons, flatMap_cons]
    rcases h c with hc | hc
    · rw [hc, singleton_append]
      exact (cons_inj_right c).trans (ih.trans (and_iff_right rfl).symm)
    · refine iff_of_false ?_ ?_
      · intro heq
        have hsum := congrArg length heq
        rw [length_append, length_cons] at hsum
        have hrest := hlength s
        omega
      · rintro ⟨hone, _⟩
        rw [hone, length_singleton] at hc
        omega

/-- When an escaped string comes back.  A colon in the key is taken for the one behind it; then only
what stands between the key and the value, or nothing at all, can come back. -/
def ComesBack (key : Bytes) (f : Field) (s : Bytes) : Prop :=
  if colon ∈ key then
    s = if ((key.dropWhile (· ≠ colon)).tail).all isBlankOrBreak then
      f.behind.1 ++ colon :: f.between.1 else []
  else ∀ c ∈ s, 32 ≤ c.toNat ∨ c = 9 ∨ c = 10 ∨ c = 13

theorem getString_of_colon_mem (h : FindsField d key f) (hquote : quote ∉ key) (hkey : colon ∈ key)
    {text : Bytes} (hvalue : f.value.text = quote :: text) :
    getString d.text key =
      if ((key.dropWhile (· ≠ colon)).tail).all isBlankOrBreak then
        f.behind.1 ++ colon :: f.between.1 else [] := by
  have hmem : ∀ c ∈ (key.dropWhile (· ≠ colon)).tail, c ≠ quote := by
    rintro c hc rfl
    exact hquote ((dropWhile_sublist _).mem (mem_of_mem_tail hc))
  rw [getString, valueOf_of_colon_mem h hkey, map_some]
  rcases dropWhile_cases (by decide : isBlankOrBreak quote = false)
    (key.dropWhile (· ≠ colon)).tail (f.behind.1 ++ colon :: (f.between.1 ++ (f.value.text ++
      (f.rest ++ 125 :: d.trailing.1)))) with ⟨hall, hskip⟩ | ⟨hall, c, hc, u, hskip⟩
  · -- the closing quote of the key opens the string
    have hplain : ∀ b, isWhitespace b = false → b ≠ colon →
        b ∉ f.behind.1 ++ colon :: f.between.1 := by
      intro b hblank hcolon hmem
      rw [mem_append, mem_cons] at hmem
      rcases hmem with hmem | rfl | hmem
      · exact not_mem_blank f.behind hblank hmem
      · exact hcolon rfl
      · exact not_mem_blank f.between hblank hmem
    have hread : unescape (f.behind.1 ++ colon :: (f.between.1 ++ (f.value.text ++
        (f.rest ++ 125 :: d.trailing.1)))) = f.behind.1 ++ colon :: f.between.1 := by
      rw [hvalue, ← cons_append, ← append_assoc, cons_append,
        copies_unescape.append (hplain _ (by decide) (by decide))
          (hplain _ (by decide) (by decide)),
        unescape_quote, append_nil]
    rw [hskip, hall]
    exact hread
  · rw [hskip, hall]
    exact if_neg (hmem c hc)

/-- A string written by `JsonEscape` comes back exactly if the key has no colon and the string no
control character but those with a letter, coincidences with a colon in the key apart. -/
theorem getString_jsonEscape_iff {d : Document} {key s : Bytes} {f : Field}
    (hquote : quote ∉ key) (hvalue : f.value.text = quoted (jsonEscape s))
    (hfound : FindsField d key f) : getString d.text key = s ↔ ComesBack key f s := by
  have hstring : f.value.text = stringText (s.map letterOf) := by
    rw [hvalue, jsonEscape_eq]
    rfl
  by_cases hcolon : colon ∈ key
  · rw [getString_of_colon_mem hfound hquote hcolon hstring, ComesBack, if_pos hcolon]
    exact eq_comm
  · have hread := valueOf_of_findsField hfound hcolon
    rw [hstring] at hread
    rw [getString_of_valueOf hread, ComesBack, if_neg hcolon, flatMap_map,
      flatMap_eq_self_iff]
    · refine forall_congr' fun c => imp_congr_right fun _ => ?_
      rw [readLetter_letterOf]
      split
      · rename_i hcontrol
        refine iff_of_false ?_ ?_
        · intro heq
          have hlength := congrArg length heq
          rw [length_cons, length_toHex] at hlength
          cases hlength
        · rintro (hplain | hletter | hletter | hletter)
          · exact Nat.not_le.2 hcontrol.1 hplain
          · exact hcontrol.2.1 hletter
          · exact hcontrol.2.2.1 hletter
          · exact hcontrol.2.2.2 hletter
      · rename_i hplain
        refine iff_of_true rfl ?_
        by_contra hcontrol
        push Not at hcontrol
        exact hplain ⟨hcontrol.1, hcontrol.2.1, hcontrol.2.2.1, hcontrol.2.2.2⟩
    · intro c
      rw [readLetter_letterOf]
      split
      · exact Or.inr (by rw [length_cons, length_toHex]; decide)
      · exact Or.inl rfl

def noBlank : Blank := ⟨[], nofun⟩

def stringMember (key s : Bytes) (ms : Members) : Members :=
  .member noBlank (key.map letterOf) noBlank noBlank (.string (s.map letterOf)) noBlank ms

def documentOf (key s : Bytes) : Document where
  leading := noBlank
  blank := noBlank
  members := stringMember key s .noMember
  trailing := noBlank

def fieldOf (s : Bytes) : Field where
  behind := noBlank
  between := noBlank
  value := .string (s.map letterOf)
  rest := []

theorem letterOf_plain (h : 32 ≤ c.toNat ∧ c ≠ quote ∧ c ≠ backslash) :
    letterOf c = .plain c h := by
  have hne {b : UInt8} (hb : b.toNat < 32) : c ≠ b := by
    rintro rfl
    exact Nat.not_le.2 hb h.1
  rw [letterOf, dif_neg h.2.1, dif_neg h.2.2, if_neg (hne (by decide)), if_neg (hne (by decide)),
    if_neg (hne (by decide)), dif_neg (Nat.not_lt.2 h.1)]

theorem findsField_documentOf (hkey : ∀ c ∈ key, 32 ≤ c.toNat ∧ c ≠ quote ∧ c ≠ backslash)
    (s : Bytes) :
    FindsField (documentOf key s) key (fieldOf s) := by
  have hplain : stringValue (key.map letterOf) = key ∧ lettersText (key.map letterOf) = key := by
    induction key with
    | nil => exact ⟨rfl, rfl⟩
    | cons c key ih =>
      rw [forall_mem_cons] at hkey
      rw [map_cons, letterOf_plain hkey.1]
      exact ⟨congrArg (c :: ·) (ih hkey.2).1, congrArg (c :: ·) (ih hkey.2).2⟩
  constructor
  · change (if stringValue (key.map letterOf) = key then _ else _) = _
    rw [if_pos hplain.1]
    rfl
  · have htext : (documentOf key s).text =
        [123] ++ fromField (documentOf key s) key (fieldOf s) := by
      simp [Document.text, documentOf, stringMember, fromField, fieldOf, noBlank, Tree.text,
        Tree.textFrom, stringText, quoted, hplain.2]
    rw [htext, quoted, cons_append, find_append_of_not_mem (by decide)]
    exact find_append_self (cons_ne_nil _ _) _

theorem getString_documentOf_plain :
    getString (documentOf (ascii "key") (ascii "a \"b\"\n")).text (ascii "key") =
      ascii "a \"b\"\n" := by
  refine (getString_jsonEscape_iff (by decide) (by decide)
    (findsField_documentOf (by simp [ascii, quote, backslash]) (ascii "a \"b\"\n"))).2 ?_
  rw [ComesBack, if_neg (by decide)]
  simp [ascii]

/-- The control character one comes back as five letters. -/
theorem getString_documentOf_control :
    (documentOf (ascii "key") [1]).text = ascii "\x7b\"key\":\"\\u0001\"\x7d" ∧
      getString (documentOf (ascii "key") [1]).text (ascii "key") = ascii "u0001" := by
  decide +kernel

/-! ## Values behind a colon -/

/-- A reader of strings: the blanks that it skips, and what it makes of the text behind the quote,
letter by letter. -/
structure StringReader where
  blank : UInt8 → Bool
  text : Bytes → Bytes
  letter : Letter → Bytes
  blank_value : ∀ c, isBlankOrBreak c = false → blank c = false
  text_quote : ∀ v, text (quote :: v) = []
  text_letter : ∀ l v, text (l.text ++ v) = letter l ++ text v

def StringReader.readAt (r : StringReader) (v : Bytes) : Bytes :=
  match v.dropWhile r.blank with
  | c :: rest => if c = quote then r.text rest else []
  | [] => []

def valueReader : StringReader where
  blank := isBlankOrBreak
  text := unescape
  letter := readLetter
  blank_value := fun _ h => h
  text_quote := unescape_quote
  text_letter := unescape_letter

def boolAt (v : Bytes) : Option Bool :=
  if (v.dropWhile isBlank).take 4 = ascii "true" then some true
  else if (v.dropWhile isBlank).take 5 = ascii "false" then some false
  else none

def intAt (v : Bytes) : Option Int :=
  match v.dropWhile isBlankOrBreak with
  | c :: rest =>
      let ds := (if c = 45 then rest else c :: rest).takeWhile isDigit
      let value := ds.foldl (fun acc d => i64 (i64 (acc * 10) + (d.toNat - 48 : Nat))) 0
      if ds = [] then none else some (if c = 45 then i64 (-value) else value)
  | [] => none

theorem getString_eq (raw key : Bytes) :
    getString raw key = (valueOf raw key).elim [] valueReader.readAt := by
  rw [getString]
  cases valueOf raw key with
  | none => rfl
  | some v =>
    rw [map_some, elim_some, StringReader.readAt, valueReader]
    cases v.dropWhile isBlankOrBreak <;> rfl

theorem getBool_eq (raw key : Bytes) (default : Bool) :
    getBool raw key default = ((valueOf raw key).bind boolAt).getD default := by
  rw [getBool]
  cases valueOf raw key with
  | none => rfl
  | some v =>
    rw [map_some, bind_some, boolAt]
    dsimp only
    split_ifs <;> rfl

theorem getInt_eq (raw key : Bytes) (default : Int) :
    getInt raw key default = ((valueOf raw key).bind intAt).getD default := by
  rw [getInt]
  cases valueOf raw key with
  | none => rfl
  | some v =>
    rw [map_some, bind_some, intAt]
    cases v.dropWhile isBlankOrBreak with
    | nil => rfl
    | cons c rest =>
      simp only [decide_eq_true_eq]
      split_ifs <;> rfl

theorem exists_head (v : Value) : ∃ c u, v.text = c :: u ∧ isBlankOrBreak c = false ∧
    ((c = quote ∧ ∃ s, v = .string s) ∨ ((c = 116 ∨ c = 102) ∧ ∃ b, v = .bool b) ∨
      ((c = 45 ∨ isDigit c = true) ∧ ∃ n, v = .number n) ∨ (c = 110 ∨ c = 91 ∨ c = 123)) := by
  cases v with
  | string s => exact ⟨_, _, rfl, by decide, Or.inl ⟨rfl, s, rfl⟩⟩
  | bool b =>
    cases b <;> exact ⟨_, _, rfl, by decide, Or.inr (Or.inl ⟨by decide, _, rfl⟩)⟩
  | null => exact ⟨_, _, rfl, by decide, Or.inr (Or.inr (Or.inr (by decide)))⟩
  | array blank es => exact ⟨_, _, rfl, by decide, Or.inr (Or.inr (Or.inr (by decide)))⟩
  | object blank ms => exact ⟨_, _, rfl, by decide, Or.inr (Or.inr (Or.inr (by decide)))⟩
  | number n =>
    obtain ⟨c, u, htext, hc⟩ : ∃ c u, n.text = c :: u ∧ (c = 45 ∨ isDigit c = true) := by
      rw [Number.text]
      cases n.negative with
      | true => exact ⟨_, _, rfl, Or.inl rfl⟩
      | false =>
        obtain ⟨d, ds, hds⟩ := exists_cons_of_ne_nil n.digits.2.1
        exact ⟨d, ds ++ n.tail, by rw [hds]; rfl,
          Or.inr (n.digits.2.2 d (hds ▸ mem_cons_self))⟩
    refine ⟨c, u, htext, ?_, Or.inr (Or.inr (Or.inl ⟨hc, n, rfl⟩))⟩
    rw [Bool.eq_false_iff]
    intro hblank
    simp only [isBlankOrBreak, isBlank, Bool.or_eq_true, decide_eq_true_eq] at hblank
    rcases hblank with ((rfl | rfl) | rfl) | rfl <;> exact absurd hc (by decide)

variable {v : Value}

theorem skip_value (v : Value) (between : Blank) (rest : Bytes) :
    (between.1 ++ (v.text ++ rest)).dropWhile isBlankOrBreak = v.text ++ rest := by
  obtain ⟨c, u, htext, hblank, _⟩ := exists_head v
  rw [htext, cons_append, dropWhile_blank between hblank]

theorem boolAt_of_head {v u : Bytes} (h : v.dropWhile isBlank = c :: u) (ht : c ≠ 116)
    (hf : c ≠ 102) : boolAt v = none := by
  have hword (w : Bytes) (n : Nat) (hw : ∀ d ∈ w.head?, d ≠ c) (hn : 0 < n) :
      (c :: u).take n ≠ w := by
    obtain ⟨n, rfl⟩ := Nat.exists_eq_succ_of_ne_zero hn.ne'
    rintro rfl
    exact hw c rfl rfl
  rw [boolAt, h, if_neg (hword _ _ (by simpa [ascii] using ht.symm) (by decide)),
    if_neg (hword _ _ (by simpa [ascii] using hf.symm) (by decide))]

theorem intAt_of_ne (h : ∀ n, v ≠ .number n) (between : Blank) (rest : Bytes) :
    intAt (between.1 ++ (v.text ++ rest)) = none := by
  obtain ⟨c, u, htext, _, hkind⟩ := exists_head v
  have hne : c ≠ 45 ∧ isDigit c = false := by
    rcases hkind with ⟨rfl, _⟩ | ⟨rfl | rfl, _⟩ | ⟨_, n, rfl⟩ | rfl | rfl | rfl
    case inr.inr.inl => exact absurd rfl (h n)
    all_goals decide
  rw [intAt, skip_value, htext, cons_append]
  dsimp only
  rw [if_neg hne.1, takeWhile_cons, hne.2, if_neg Bool.false_ne_true, if_pos rfl]

theorem foldl_i64 (ds : Bytes) (a : Nat) :
    ds.foldl (fun acc d => i64 (i64 (acc * 10) + (d.toNat - 48 : Nat))) (i64 a) =
      i64 (ds.foldl (fun acc b => 10 * acc + (b.toNat - 48)) a : Nat) := by
  induction ds generalizing a with
  | nil => rw [foldl_nil, foldl_nil]
  | cons d ds ih =>
    have hstep (x : Nat) : i64 (i64 (i64 a * 10) + x) = i64 (10 * a + x : Nat) := by
      rw [i64_eq, i64_eq, i64_eq, i64_eq]
      omega
    rw [foldl_cons, foldl_cons, hstep, ih]

def wholePart (n : Number) : Int :=
  if n.negative then -(digitsValue n.digits.1 : Int) else digitsValue n.digits.1

/-- The digits in front of a fraction or an exponent, modulo the register. -/
theorem intAt_number (n : Number) (between : Blank) {rest : Bytes} (hrest : Ends rest) :
    intAt (between.1 ++ (Tree.text (.number n) ++ rest)) = some (i64 (wholePart n)) := by
  have htail : Ends (n.tail ++ rest) := by
    rw [Number.tail, append_assoc]
    cases n.fraction with
    | some ds =>
      rintro c ⟨⟩
      rfl
    | none =>
      cases n.exponent with
      | none => exact hrest
      | some e =>
        rintro c ⟨⟩
        cases e.capital <;> rfl
  have htake : (n.digits.1 ++ (n.tail ++ rest)).takeWhile isDigit = n.digits.1 := by
    rw [takeWhile_append_of_pos n.digits.2.2]
    cases hcut : n.tail ++ rest with
    | nil => exact append_nil _
    | cons c u =>
      rw [takeWhile_cons, htail c (by rw [hcut]; rfl)]
      exact append_nil _
  have hvalue : n.digits.1.foldl (fun acc d => i64 (i64 (acc * 10) + (d.toNat - 48 : Nat))) 0 =
      i64 (digitsValue n.digits.1) :=
    foldl_i64 n.digits.1 0
  have htext : Tree.text (.number n) ++ rest =
      (if n.negative then [45] else []) ++ (n.digits.1 ++ (n.tail ++ rest)) := by
    simp only [Tree.text, Tree.textFrom, Number.text, append_assoc]
  rw [intAt, skip_value, htext, wholePart]
  cases n.negative with
  | true =>
    have hneg (x : Int) : i64 (-i64 x) = i64 (-x) := by
      rw [i64_eq, i64_eq, i64_eq]
      omega
    simp only [if_true, singleton_append, htake, n.digits.2.1, if_false, hvalue, hneg]
  | false =>
    obtain ⟨d, ds, hdigits⟩ := exists_cons_of_ne_nil n.digits.2.1
    have hminus : d ≠ 45 := by
      rintro rfl
      cases n.digits.2.2 45 (hdigits ▸ mem_cons_self)
    have hsplit : n.digits.1 ++ (n.tail ++ rest) = d :: (ds ++ (n.tail ++ rest)) := by
      rw [hdigits, cons_append]
    simp only [Bool.false_eq_true, if_false, nil_append]
    rw [hsplit] at htake ⊢
    simp only [hminus, if_false, htake, n.digits.2.1, hvalue]

/-! ## Places -/

/-- What a reader of strings finds at a place: a string, unless a blank that it does not skip stands
in front of it. -/
def StringReader.readPlace (r : StringReader) : Place → Bytes
  | .value f =>
      match f.value with
      | .string s => if f.between.1.all r.blank then s.flatMap r.letter else []
      | _ => []
  | .text s rest => if (lettersText s).all r.blank then r.text rest else []

def boolOf : Place → Option Bool
  | .value f =>
      match f.value with
      | .bool b => if f.between.1.all isBlank then some b else none
      | _ => none
  | .text s rest => boolAt (Place.text s rest).behind

def intOf : Place → Option Int
  | .value f =>
      match f.value with
      | .number n => some (i64 (wholePart n))
      | _ => none
  | .text s rest => intAt (Place.text s rest).behind

theorem StringReader.readAt_cons (r : StringReader) (c : UInt8) (v : Bytes) :
    r.readAt (c :: v) =
      if r.blank c then r.readAt v else if c = quote then r.text v else [] := by
  rw [readAt, dropWhile_cons]
  split_ifs <;> simp_all [readAt]

theorem StringReader.readAt_letters (r : StringReader) (s : Letters) (rest : Bytes) :
    r.readAt (lettersText s ++ quote :: rest) =
      if (lettersText s).all r.blank then r.text rest else [] := by
  have hquote : r.blank quote = false := r.blank_value quote (by decide)
  have hslash : r.blank backslash = false := r.blank_value backslash (by decide)
  induction s with
  | nil => exact (r.readAt_cons quote rest).trans (by rw [hquote]; rfl)
  | cons l s ih =>
    rw [lettersText, flatMap_cons, append_assoc, ← lettersText, all_append]
    cases l with
    | plain b h =>
      rw [Letter.text, singleton_append, r.readAt_cons, ih, if_neg h.2.1]
      cases hb : r.blank b <;> simp [hb]
    | escape e =>
      rw [Letter.text, cons_append, r.readAt_cons, all_cons, hslash]
      rfl
    | unicode digits h =>
      rw [Letter.text, cons_append, r.readAt_cons, all_cons, hslash]
      rfl

theorem StringReader.readAt_place (r : StringReader) (place : Place) :
    r.readAt place.behind = r.readPlace place := by
  rcases place with ⟨behind, between, v, rest⟩ | ⟨s, rest⟩
  · obtain ⟨c, u, htext, hblank, hkind⟩ := exists_head v
    rw [Place.behind, readPlace, readAt, htext, cons_append]
    rcases dropWhile_cases (r.blank_value c hblank) between.1 (u ++ rest) with
      ⟨hall, hskip⟩ | ⟨hall, b, hb, w, hskip⟩
    · rw [hskip, hall]
      dsimp only
      by_cases hc : c = quote
      · subst hc
        obtain ⟨s, rfl⟩ : ∃ s, v = .string s := by
          rcases hkind with ⟨_, hv⟩ | ⟨hc, _⟩ | ⟨hc, _⟩ | hc
          · exact hv
          all_goals exact absurd hc (by decide)
        obtain rfl : lettersText s ++ [quote] = u := (cons.inj htext).2
        rw [if_pos rfl, append_assoc, read_letters r.text_letter, cons_append, r.text_quote,
          append_nil]
        rfl
      · rw [if_neg hc]
        split
        · exact absurd (cons.inj htext).1.symm hc
        · rfl
    · -- a blank that is not skipped
      rw [hskip, hall]
      dsimp only
      rw [if_neg fun hquote => not_mem_blank between (by decide) (hquote ▸ hb)]
      split <;> rfl
  · exact r.readAt_letters s rest

theorem boolAt_place (place : Place) : boolAt place.behind = boolOf place := by
  rcases place with ⟨behind, between, v, rest⟩ | ⟨s, rest⟩
  · obtain ⟨c, u, htext, hblank, hkind⟩ := exists_head v
    have hc : isBlank c = false := by
      simp only [isBlankOrBreak, Bool.or_eq_false_iff] at hblank
      exact hblank.1.1
    rw [Place.behind, boolOf]
    dsimp only
    rcases dropWhile_cases hc between.1 (u ++ rest) with
      ⟨hall, hskip⟩ | ⟨hall, b, hb, w, hskip⟩
    · rw [← cons_append, ← htext] at hskip
      split
      · rename_i b
        rw [hall, if_pos rfl, boolAt, hskip]
        cases b <;> rfl
      · rename_i hne
        rw [htext] at hskip ⊢
        have hword : ¬(c = 116 ∨ c = 102) := by
          intro hword
          rcases hkind with ⟨rfl, _⟩ | ⟨_, b, rfl⟩ | ⟨hc, _⟩ | hc
          · exact absurd hword (by decide)
          · exact hne b rfl
          all_goals rcases hword with rfl | rfl <;> exact absurd hc (by decide)
        exact boolAt_of_head hskip (mt Or.inl hword) (mt Or.inr hword)
    · -- a break between the colon and the value
      rw [htext, cons_append, boolAt_of_head hskip, hall]
      · split <;> rfl
      all_goals
        rintro rfl
        cases between.2 _ hb
  · rfl

theorem intAt_place {place : Place} (h : ∀ f, place = .value f → Ends f.rest) :
    intAt place.behind = intOf place := by
  rcases place with ⟨behind, between, v, rest⟩ | ⟨s, rest⟩
  · rw [Place.behind, intOf]
    dsimp only
    split
    · exact intAt_number _ between (h _ rfl)
    · rename_i hne
      exact intAt_of_ne hne between rest
  · rfl

/-! ## Lookup -/

/-- The four readers agree with the document: they return the value of the member, where it has the
type that they read, and the default where there is no such member. -/
structure LooksUp (d : Document) (key : Bytes) : Prop where
  hasKey : hasKey d.text key = (d.members.field key).isSome
  getString : ∀ f s, d.members.field key = some f → f.value = .string s →
    (∀ l ∈ s, l.isUnicode = false) → getString d.text key = stringValue s
  getBool : ∀ f b, d.members.field key = some f → f.value = .bool b →
    ∀ default, getBool d.text key default = b
  getInt : ∀ f n i, d.members.field key = some f → f.value = .number n → n.integer = some i →
    Fits 64 i → ∀ default, getInt d.text key default = i
  absent : d.members.field key = none →
    Gateway.getString d.text key = [] ∧ (∀ b, Gateway.getBool d.text key b = b) ∧
      ∀ i, Gateway.getInt d.text key i = i

/-- The text behind the first byte `c` at or behind the first occurrence of the quoted key. -/
def Lands (c : UInt8) (text key behind : Bytes) : Prop :=
  ∃ u v w, text = u ++ (quoted key ++ v) ∧ NoStart (quoted key) u (quoted key ++ v) ∧
    quoted key ++ v = w ++ c :: behind ∧ c ∉ w

theorem find_key_eq_some_iff {text key behind : Bytes} :
    (find (quoted key) text).bind (find [c]) = some (c :: behind) ↔ Lands c text key behind := by
  have hbyte (s : Bytes) : find [c] s = some (c :: behind) ↔
      ∃ w, s = w ++ c :: behind ∧ c ∉ w := by
    rw [find_eq_some_iff]
    constructor
    · rintro ⟨w, v, rfl, _, hstart⟩
      exact ⟨w, rfl, (noStart_singleton _).1 hstart⟩
    · rintro ⟨w, rfl, hw⟩
      exact ⟨w, behind, rfl, rfl, (noStart_singleton _).2 hw⟩
  rw [bind_eq_some_iff]
  constructor
  · rintro ⟨r, hfind, hr⟩
    obtain ⟨u, v, htext, rfl, hstart⟩ := find_eq_some_iff.1 hfind
    obtain ⟨w, hw, hnot⟩ := (hbyte _).1 hr
    exact ⟨u, v, w, htext, hstart, hw, hnot⟩
  · rintro ⟨u, v, w, htext, hstart, hw, hnot⟩
    exact ⟨quoted key ++ v, find_eq_some_iff.2 ⟨u, v, htext, rfl, hstart⟩,
      (hbyte _).2 ⟨w, hw, hnot⟩⟩

theorem valueOf_eq (text key : Bytes) :
    valueOf text key = ((find (quoted key) text).bind (find [colon])).map (·.drop 1) := by
  rw [valueOf]
  cases find (quoted key) text <;> rfl

theorem valueOf_eq_some_iff {text key behind : Bytes} :
    valueOf text key = some behind ↔ Lands colon text key behind := by
  rw [valueOf_eq, map_eq_some_iff, ← find_key_eq_some_iff]
  constructor
  · rintro ⟨s, hs, rfl⟩
    obtain ⟨r, _, hr⟩ := bind_eq_some_iff.1 hs
    obtain ⟨_, v, _, rfl, _⟩ := find_eq_some_iff.1 hr
    exact hs
  · intro h
    exact ⟨_, h, rfl⟩

/-- The readers land at a place of the document, or find no colon. -/
def LandsAt (d : Document) (key : Bytes) : Option Place → Prop
  | some place => place ∈ d.places ∧ Lands colon d.text key place.behind
  | none => ∀ behind, ¬Lands colon d.text key behind

theorem exists_landsAt (d : Document) (key : Bytes) : ∃ place, LandsAt d key place := by
  cases hvalue : valueOf d.text key with
  | none =>
    refine ⟨none, fun behind hlands => ?_⟩
    rw [← valueOf_eq_some_iff, hvalue] at hlands
    cases hlands
  | some behind =>
    have hlands := valueOf_eq_some_iff.1 hvalue
    have hsuffix : colon :: behind <:+ d.text := by
      obtain ⟨u, v, w, htext, _, hw, _⟩ := hlands
      rw [htext, hw, ← append_assoc]
      exact suffix_append _ _
    obtain ⟨place, hmem, rfl⟩ := mem_places_of_suffix hsuffix
    exact ⟨some place, hmem, hlands⟩

theorem valueOf_of_landsAt {d : Document} {place : Option Place} (h : LandsAt d key place)
    : valueOf d.text key = place.map Place.behind := by
  cases place with
  | none =>
    rw [map_none, eq_none_iff_forall_ne_some]
    exact fun behind hvalue => h behind (valueOf_eq_some_iff.1 hvalue)
  | some place => exact valueOf_eq_some_iff.2 h.2

theorem readers_of_landsAt {d : Document} {place : Option Place} (h : LandsAt d key place) :
    getString d.text key = place.elim [] valueReader.readPlace ∧
      (∀ b, getBool d.text key b = (place.bind boolOf).getD b) ∧
      ∀ i, getInt d.text key i = (place.bind intOf).getD i := by
  rw [getString_eq]
  simp only [getBool_eq, getInt_eq, valueOf_of_landsAt h]
  cases place with
  | none => exact ⟨rfl, fun _ => rfl, fun _ => rfl⟩
  | some place =>
    have hends (f : Field) (hf : place = .value f) : Ends f.rest :=
      Document.ends_of_mem_places (hf ▸ h.1)
    simp only [map_some, elim_some, bind_some, StringReader.readAt_place, boolAt_place,
      intAt_place hends, implies_true, and_self]

/-- The quoted key stands in the text: a string is spelled like it, or ends so behind an escaped
quote.  A key with a quote, a backslash, a comma or a colon may also reach from one string to
another. -/
def Shown (d : Document) (key : Bytes) : Prop :=
  if PlainWord key then ∃ s ∈ d.members.strings, Spells key s else quoted key <:+: d.text

theorem hasKey_iff_shown (d : Document) (key : Bytes) : hasKey d.text key = true ↔ Shown d key := by
  rw [hasKey, contains_iff_infix, Shown]
  split
  · rename_i hplain
    exact infix_text_iff hplain d
  · rfl

/-- What stands at the place is what the value of the member says, if it is one that is read. -/
def Agrees (v : Value) (place : Option Place) : Prop :=
  match v with
  | .string s =>
      (∀ l ∈ s, l.isUnicode = false) → place.elim [] valueReader.readPlace = stringValue s
  | .bool b => place.bind boolOf = some b
  | .number n => ∀ i, n.integer = some i → Fits 64 i → place.bind intOf = some i
  | _ => True

theorem forall_getD_eq_iff {α : Type*} [Nontrivial α] {o : Option α} {a : α} :
    (∀ default, o.getD default = a) ↔ o = some a := by
  cases o with
  | some b => simp
  | none =>
    obtain ⟨b, hb⟩ := exists_ne a
    simpa using ⟨b, hb⟩

/-- Which keys are looked up right.  Without such a member the quoted key must not stand in the
text.  With one it must, and where the readers land there is a value that reads the same. -/
def LooksUpWhen (d : Document) (key : Bytes) : Prop :=
  match d.members.field key with
  | none => ¬Shown d key
  | some f => Shown d key ∧ ∃ place, LandsAt d key place ∧ Agrees f.value place

def nestedDocument : Document where
  leading := noBlank
  blank := noBlank
  members := .member noBlank ((ascii "user").map letterOf) noBlank noBlank
    (.object noBlank (stringMember (ascii "model") (ascii "x") .noMember)) noBlank
    (stringMember (ascii "model") (ascii "y") .noMember)
  trailing := noBlank

end TKNC.Gateway
