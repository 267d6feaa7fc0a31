import Mathlib.Data.List.Induction
import Mathlib.Data.Nat.Digits.Defs
import TKNC.Lib.JsonText

/-!
# JsonShape — documents with given members, and how short they can be written

`MembersAre` says that an object has exactly the given members, in order, whatever blanks and
escapes its text uses.  No text of such an object is shorter than the one without blanks and with
the shortest escapes.  A program that builds a document by concatenation and escapes too little
writes a text that is too short, so it cannot be a text of the document it meant
(`membersSize_le`).
-/

namespace TKNC.Lib.JsonShape

open JsonText Numeral List Nat

/-! ## Strings -/

/-- The byte cannot stand for itself in a string. -/
def needsEscape (b : UInt8) : Bool :=
  decide (b.toNat < 32) || decide (b = 34) || decide (b = 92)

def byteWeight (b : UInt8) : Nat :=
  if needsEscape b then 2 else 1

/-- The least number of bytes between the quotes of a string with this value. -/
def weight (s : Bytes) : Nat :=
  (s.map byteWeight).sum

theorem weight_cons (b : UInt8) (s : Bytes) : weight (b :: s) = byteWeight b + weight s := by
  rw [weight, map_cons, sum_cons, weight]

theorem weight_append (u v : Bytes) : weight (u ++ v) = weight u + weight v := by
  rw [weight, map_append, sum_append_nat, weight, weight]

theorem byteWeight_le_two (b : UInt8) : byteWeight b ≤ 2 := by
  rw [byteWeight]
  split <;> omega

theorem length_le_weight (s : Bytes) : s.length ≤ weight s := by
  induction s with
  | nil => exact le_refl 0
  | cons b s ih =>
    have hone : 1 ≤ byteWeight b := by
      rw [byteWeight]
      split <;> omega
    rw [weight_cons, length_cons]
    omega

theorem weight_le_two_mul (s : Bytes) : weight s ≤ 2 * s.length := by
  induction s with
  | nil => exact le_refl 0
  | cons b s ih =>
    have htwo := byteWeight_le_two b
    rw [weight_cons, length_cons]
    omega

theorem length_utf8_le (n : Nat) : (utf8 n).length ≤ if n < 65536 then 3 else 4 := by
  unfold utf8
  split_ifs <;> simp only [length_cons, length_nil] <;> omega

theorem weight_utf8_le {n : Nat} (h : n < 65536) : weight (utf8 n) ≤ 6 := by
  have hlength := length_utf8_le n
  have htwo := weight_le_two_mul (utf8 n)
  rw [if_pos h] at hlength
  omega

theorem weight_utf8_le_eight (n : Nat) : weight (utf8 n) ≤ 8 := by
  have hlength := length_utf8_le n
  have htwo := weight_le_two_mul (utf8 n)
  split at hlength <;> omega

variable {digits : Bytes}

theorem ofHex_lt {n : Nat} (h : ofHex digits = some n) :
    n < 16 ^ digits.length := by
  induction digits using reverseRecOn generalizing n with
  | nil =>
    cases h
    exact one_pos
  | append_singleton digits d ih =>
    rw [ofHex, foldl_append, ← ofHex] at h
    obtain ⟨value, hvalue, hd⟩ := Option.bind_eq_some_iff.1 h
    obtain ⟨digit, hdigit, rfl⟩ := Option.map_eq_some_iff.1 hd
    have hsmall : digit < 16 := by
      rw [hexValue] at hdigit
      split at hdigit
      · cases hdigit; omega
      · split at hdigit
        · cases hdigit; omega
        · split at hdigit
          · cases hdigit; omega
          · cases hdigit
    have hbefore := ih hvalue
    rw [length_append, length_singleton, pow_succ]
    omega

theorem unit_lt (h : digits.length = 4) : (ofHex digits).getD 0 < 65536 := by
  cases hvalue : ofHex digits with
  | none => decide
  | some n =>
    have hlt := ofHex_lt hvalue
    rw [h] at hlt
    exact hlt

theorem byteWeight_le_length_text {l : Letter} (h : l.isUnicode = false) :
    byteWeight l.byte ≤ l.text.length := by
  cases l with
  | plain b hb =>
    have hplain : needsEscape b = false := by
      simp [needsEscape, hb.2.1, hb.2.2]
      omega
    rw [Letter.byte, byteWeight, hplain]
    exact le_refl 1
  | escape e => exact byteWeight_le_two e.value
  | unicode digits hdigits => cases h

theorem valueFrom_cons {l : Letter} (h : l.isUnicode = false) (pending : Option Nat)
    (s : Letters) :
    valueFrom pending (l :: s) = pending.elim [] utf8 ++ l.byte :: valueFrom none s := by
  cases l with
  | plain b hb => cases pending <;> rfl
  | escape e => cases pending <;> rfl
  | unicode digits hdigits => cases h

/-- A code unit is six bytes of text.  It stands for at most six itself, or is pending; with the
unit in front of it, for at most eight. -/
theorem weight_valueFrom_unicode_le
    (hdigits : digits.length = 4 ∧ ∀ d ∈ digits, (hexValue d).isSome) {s : Letters} {n : Nat}
    (hnone : weight (valueFrom none s) ≤ n)
    (hsome : weight (valueFrom (some ((ofHex digits).getD 0)) s) ≤ n + 6) (pending : Option Nat)
    (hpending : ∀ high, pending = some high → high < 65536) :
    weight (valueFrom pending (.unicode digits hdigits :: s)) ≤
      6 + n + pending.elim 0 fun _ => 6 := by
  have hweight := weight_utf8_le (unit_lt hdigits.1)
  cases pending with
  | none =>
    rw [valueFrom, Option.elim_none]
    split
    · omega
    · rw [weight_append]
      omega
  | some high =>
    have hhigh := weight_utf8_le (hpending high rfl)
    rw [valueFrom, Option.elim_some]
    split
    · have hpair := weight_utf8_le_eight
        (65536 + (high - 55296) * 1024 + ((ofHex digits).getD 0 - 56320))
      rw [weight_append]
      omega
    · split
      · rw [weight_append]
        omega
      · rw [weight_append, weight_append]
        omega

theorem weight_valueFrom_le (s : Letters) : ∀ pending : Option Nat,
    (∀ high, pending = some high → high < 65536) →
      weight (valueFrom pending s) ≤ (lettersText s).length + pending.elim 0 fun _ => 6 := by
  induction s with
  | nil =>
    intro pending hpending
    cases pending with
    | none => exact le_refl 0
    | some high => exact le_trans (weight_utf8_le (hpending high rfl)) (le_add_left 6 _)
  | cons l s ih =>
    intro pending hpending
    have hnone : weight (valueFrom none s) ≤ (lettersText s).length :=
      ih none (by intro high h; cases h)
    rw [lettersText, flatMap_cons, length_append, ← lettersText]
    cases hunicode : l.isUnicode with
    | false =>
      have hbyte := byteWeight_le_length_text hunicode
      have hfront : weight (pending.elim [] utf8) ≤ pending.elim 0 fun _ => 6 := by
        cases pending with
        | none => exact le_refl 0
        | some high => exact weight_utf8_le (hpending high rfl)
      rw [valueFrom_cons hunicode, weight_append, weight_cons]
      omega
    | true =>
      cases l with
      | plain b hb => cases hunicode
      | escape e => cases hunicode
      | unicode digits hdigits =>
        have hsome := ih (some ((ofHex digits).getD 0))
          (by intro high h; cases h; exact unit_lt hdigits.1)
        have htext : (Letter.text (.unicode digits hdigits)).length = 6 := by
          rw [Letter.text, length_cons, length_cons, hdigits.1]
        rw [htext]
        exact weight_valueFrom_unicode_le hdigits hnone hsome pending hpending

theorem weight_stringValue_le (s : Letters) : weight (stringValue s) ≤ (lettersText s).length := by
  have h := weight_valueFrom_le s none (by intro high h; cases h)
  exact h

/-! ## Numbers -/

theorem digitsValue_lt (digits : Bytes) (h : ∀ d ∈ digits, isDigit d = true) :
    digitsValue digits < 10 ^ digits.length := by
  induction digits using reverseRecOn with
  | nil => exact one_pos
  | append_singleton digits d ih =>
    have hbefore := ih fun d hd => h d (mem_append_left _ hd)
    have hdigit := h d (mem_append_right _ mem_cons_self)
    rw [isDigit, Bool.and_eq_true, decide_eq_true_iff, decide_eq_true_iff] at hdigit
    rw [digitsValue, foldl_append, ← digitsValue, foldl_cons, foldl_nil,
      length_append, length_singleton, pow_succ]
    omega

theorem length_decimal_le (digits : Digits) : (decimal (digitsValue digits.1)).length ≤
    digits.1.length := by
  rw [decimal, length_map]
  exact toDigits_length _ _ _ (length_pos_iff.2 digits.2.1)
    (digitsValue_lt digits.1 digits.2.2)

theorem length_toString64_le {n : Number} {k : Int} (h : n.integer = some k) :
    (toString64 k).length ≤ n.text.length := by
  have hdigits := length_decimal_le n.digits
  obtain ⟨-, hvalue⟩ := Number.of_integer h
  rw [Number.text, length_append, length_append, toString64]
  cases hsign : n.negative with
  | true =>
    rw [hsign, if_pos rfl] at hvalue
    have habs : k.natAbs = digitsValue n.digits.1 := by omega
    rw [habs, if_pos rfl, length_singleton]
    split
    · rw [length_cons]
      omega
    · omega
  | false =>
    rw [hsign, if_neg Bool.false_ne_true] at hvalue
    have habs : k.natAbs = digitsValue n.digits.1 := by omega
    rw [habs, if_neg (by omega)]
    omega

theorem decimal_canonical (n : Nat) : (decimal n).head? = some 48 → decimal n = [48] := by
  intro hhead
  cases hdigits : decimal n with
  | nil => exact absurd hdigits (decimal_ne_nil n)
  | cons d rest =>
    rw [hdigits, head?_cons, Option.some.injEq] at hhead
    subst hhead
    by_cases hrest : rest = []
    · rw [hrest]
    · -- the digits behind the zero would do
      have hall : ∀ d ∈ rest, isDigit d = true := by
        intro d hd
        have hmem : d ∈ decimal n := by
          rw [hdigits]
          exact mem_cons_of_mem _ hd
        exact mem_decimal hmem
      have hvalue : digitsValue rest = n := by
        have hn := digitsValue_decimal n
        rw [hdigits] at hn
        exact hn
      have hshort : (decimal (digitsValue rest)).length ≤ rest.length :=
        length_decimal_le ⟨rest, hrest, hall⟩
      rw [hvalue, hdigits, length_cons] at hshort
      omega

def intNumber (k : Int) : Number where
  negative := decide (k < 0)
  digits := ⟨decimal k.natAbs, decimal_ne_nil _, fun _ => mem_decimal⟩
  canonical := decimal_canonical k.natAbs
  fraction := none
  exponent := none

theorem intNumber_text (k : Int) : (intNumber k).text = toString64 k := by
  rw [Number.text, toString64]
  by_cases hk : k < 0
  · simp [intNumber, Number.tail, hk]
  · simp [intNumber, Number.tail, hk]

theorem intNumber_integer (k : Int) : (intNumber k).integer = some k := by
  rw [Number.integer, if_pos ⟨rfl, rfl⟩]
  have hdigits : digitsValue (intNumber k).digits.1 = k.natAbs := digitsValue_decimal _
  rw [hdigits]
  by_cases hk : k < 0
  · rw [if_pos (show (intNumber k).negative = true from decide_eq_true hk)]
    congr 1
    omega
  · rw [if_neg (show ¬ (intNumber k).negative = true by simpa [intNumber] using hk)]
    congr 1
    omega

/-! ## Escapers -/

/-- A program's own escapes; it writes one only where a string needs one. -/
structure Escaper where
  escape : UInt8 → Option Escape
  value_eq : ∀ b e, escape b = some e → e.value = b
  needed : ∀ b, (escape b).isSome = true → needsEscape b = true

namespace Escaper

variable (E : Escaper)

def byteText (b : UInt8) : Bytes :=
  match E.escape b with
  | some e => [92, e.letter]
  | none => [b]

def text (s : Bytes) : Bytes :=
  s.flatMap E.byteText

/-- Every byte that needs an escape gets one. -/
def Covers (s : Bytes) : Prop :=
  ∀ b ∈ s, needsEscape b = true → (E.escape b).isSome = true

instance (s : Bytes) : Decidable (E.Covers s) :=
  List.decidableBAll _ s

theorem length_byteText_le (b : UInt8) : (E.byteText b).length ≤ byteWeight b := by
  rw [byteText, byteWeight]
  cases hescape : E.escape b with
  | some e =>
    rw [if_pos (E.needed b (by rw [hescape]; rfl))]
    exact le_refl 2
  | none =>
    rw [length_singleton]
    split <;> omega

theorem isSome_of_byteWeight_le {b : UInt8} (hweight : byteWeight b ≤ (E.byteText b).length)
    (hneeds : needsEscape b = true) : (E.escape b).isSome = true := by
  rw [byteWeight, if_pos hneeds, byteText] at hweight
  cases hescape : E.escape b with
  | some e => rfl
  | none =>
    rw [hescape] at hweight
    exact absurd hweight (by simp)

theorem length_text_le (s : Bytes) : (E.text s).length ≤ weight s := by
  induction s with
  | nil => exact le_refl 0
  | cons b s ih =>
    have hbyte := E.length_byteText_le b
    rw [text, flatMap_cons, length_append, weight_cons]
    rw [text] at ih
    omega

theorem covers_of_weight_le {s : Bytes} (h : weight s ≤ (E.text s).length) : E.Covers s := by
  induction s with
  | nil => exact forall_mem_nil _
  | cons b s ih =>
    -- no byte is too long, so none is too short either
    have hbyte := E.length_byteText_le b
    have hrest := E.length_text_le s
    rw [text, flatMap_cons, length_append, weight_cons, ← text] at h
    refine forall_mem_cons.2 ⟨?_, ih (by omega)⟩
    exact E.isSome_of_byteWeight_le (by omega)

theorem exists_letter {b : UInt8} (h : needsEscape b = true → (E.escape b).isSome = true) :
    ∃ l : Letter, l.text = E.byteText b ∧ l.isUnicode = false ∧ l.byte = b := by
  cases hescape : E.escape b with
  | some e =>
    refine ⟨.escape e, ?_, rfl, E.value_eq b e hescape⟩
    rw [byteText, hescape, Letter.text]
  | none =>
    have hplain : needsEscape b = false := by
      cases hneeds : needsEscape b with
      | true =>
        rw [hescape] at h
        exact (h hneeds).symm
      | false => rfl
    have hclass : 32 ≤ b.toNat ∧ b ≠ 34 ∧ b ≠ 92 := by
      simpa [needsEscape, and_assoc] using hplain
    refine ⟨.plain b hclass, ?_, rfl, rfl⟩
    rw [byteText, hescape, Letter.text]

theorem exists_letters {s : Bytes} (h : E.Covers s) :
    ∃ letters : Letters, lettersText letters = E.text s ∧ stringValue letters = s := by
  have hletters : ∃ letters : Letters, lettersText letters = E.text s ∧
      (∀ l ∈ letters, l.isUnicode = false) ∧ letters.map Letter.byte = s := by
    induction s with
    | nil => exact ⟨[], rfl, forall_mem_nil _, rfl⟩
    | cons b s ih =>
      rw [Covers, forall_mem_cons] at h
      obtain ⟨l, htext, hunicode, hbyte⟩ := E.exists_letter h.1
      obtain ⟨letters, htexts, hunicodes, hbytes⟩ := ih h.2
      refine ⟨l :: letters, ?_, forall_mem_cons.2 ⟨hunicode, hunicodes⟩, ?_⟩
      · rw [lettersText, flatMap_cons, htext, ← lettersText, htexts, text, text,
          flatMap_cons]
      · rw [map_cons, hbyte, hbytes]
  obtain ⟨letters, htext, hunicode, hbytes⟩ := hletters
  refine ⟨letters, htext, ?_⟩
  rw [stringValue_eq_map hunicode, hbytes]

def ofList (escapes : List Escape) (h : .slash ∉ escapes) : Escaper where
  escape b := escapes.find? (fun e => e.value = b)
  value_eq := by
    intro b e he
    have hvalue := List.find?_some he
    exact of_decide_eq_true hvalue
  needed := by
    intro b hb
    obtain ⟨e, he⟩ := Option.isSome_iff_exists.1 hb
    have hmem := List.mem_of_find?_eq_some he
    have hvalue := List.find?_some he
    rw [← of_decide_eq_true hvalue]
    cases e with
    | slash => exact absurd hmem h
    | _ => decide

theorem covers_ofList_iff {escapes : List Escape} (h : .slash ∉ escapes) (s : Bytes) :
    (ofList escapes h).Covers s ↔
      ∀ b ∈ s, b.toNat < 32 ∨ b = 34 ∨ b = 92 → ∃ e ∈ escapes, e.value = b := by
  refine forall₂_congr fun b _ => ?_
  simp [ofList, needsEscape, or_assoc]

end Escaper

def verbatim : Escaper :=
  .ofList [] (by decide)

theorem verbatim_text (s : Bytes) : verbatim.text s = s := by
  induction s with
  | nil => rfl
  | cons b s ih => exact congrArg (b :: ·) ih

abbrev Key : Type :=
  { bytes : Bytes // verbatim.Covers bytes }

/-! ## Members -/

def noBlank : Blank :=
  ⟨[], List.forall_mem_nil _⟩

/-- What a member has to be, with a bound that no text of such a value is below. -/
structure Expected where
  key : Key
  Holds : Value → Prop
  size : Nat
  size_le : ∀ v : Value, Holds v → size ≤ v.text.length

def MembersAre : List Expected → Members → Prop
  | [], .noMember => True
  | f :: fields, .member _ key _ _ v _ ms =>
      stringValue key = f.key.1 ∧ f.Holds v ∧ MembersAre fields ms
  | _, _ => False

/-- The least length of such members, with so many bytes in front of the first. -/
def membersSize : Nat → List Expected → Nat
  | _, [] => 0
  | n, f :: fields => n + (3 + f.key.1.length + f.size) + membersSize 1 fields

theorem membersSize_le : ∀ {fields : List Expected} {ms : Members}, MembersAre fields ms →
    ∀ sep : Bytes, membersSize sep.length fields ≤ (ms.textFrom sep).length := by
  intro fields
  induction fields with
  | nil =>
    intro ms h sep
    exact zero_le _
  | cons f fields ih =>
    intro ms h sep
    cases ms with
    | noMember => exact h.elim
    | member before key behind between v after ms =>
      -- blanks and escapes only add to the key, the value and the three signs between them
      obtain ⟨hkey, hvalue, hrest⟩ := h
      have hlater : membersSize 1 fields ≤ (ms.textFrom [44]).length := ih hrest [44]
      have hsize := f.size_le v hvalue
      have hlength := length_le_weight f.key.1
      have hweight := weight_stringValue_le key
      rw [hkey] at hweight
      rw [Tree.text] at hsize
      simp only [membersSize, Tree.textFrom, stringText, length_append, length_cons,
        length_nil] at hlater ⊢
      omega

/-! ## What a program writes

An attempt at a member is the text that a program writes for the value.  It is never too long, and
it is right as soon as it is not too short.
-/

structure Attempt where
  expected : Expected
  text : Bytes
  length_le : text.length ≤ expected.size
  holds : expected.size ≤ text.length → ∃ v : Value, expected.Holds v ∧ v.text = text

def Attempt.Exact (a : Attempt) : Prop :=
  a.expected.size ≤ a.text.length

def joined : Bytes → List Attempt → Bytes
  | _, [] => []
  | sep, a :: as =>
      sep ++ (34 :: (a.expected.key.1 ++ 34 :: 58 :: (a.text ++ joined [44] as)))

open Attempt

theorem length_joined_le (as : List Attempt) (sep : Bytes) :
    (joined sep as).length ≤ membersSize sep.length (as.map expected) := by
  induction as generalizing sep with
  | nil => exact le_refl 0
  | cons a as ih =>
    have hlater : (joined [44] as).length ≤ membersSize 1 (as.map expected) := ih [44]
    have hlength := a.length_le
    simp only [joined, map_cons, membersSize, length_append, length_cons]
    omega

theorem exact_of_membersSize_le {as : List Attempt} (sep : Bytes)
    (h : membersSize sep.length (as.map expected) ≤ (joined sep as).length) :
    ∀ a ∈ as, a.Exact := by
  induction as generalizing sep with
  | nil => exact forall_mem_nil _
  | cons a as ih =>
    -- the later attempts cannot make up for a short one
    have hlater : (joined [44] as).length ≤ membersSize 1 (as.map expected) :=
      length_joined_le as [44]
    have hlength := a.length_le
    simp only [joined, map_cons, membersSize, length_append, length_cons] at h
    refine forall_mem_cons.2 ⟨?_, ih [44] ?_⟩
    · rw [Attempt.Exact]
      omega
    · rw [length_singleton]
      omega

theorem exists_members {as : List Attempt} (h : ∀ a ∈ as, a.Exact) :
    ∃ ms : Members, MembersAre (as.map expected) ms ∧
      ∀ sep, ms.textFrom sep = joined sep as := by
  induction as with
  | nil => exact ⟨.noMember, trivial, fun _ => rfl⟩
  | cons a as ih =>
    rw [forall_mem_cons] at h
    obtain ⟨v, hvalue, htext⟩ := a.holds h.1
    obtain ⟨key, hkeyText, hkey⟩ := verbatim.exists_letters a.expected.key.2
    obtain ⟨ms, hmembers, hjoined⟩ := ih h.2
    refine ⟨.member noBlank key noBlank noBlank v noBlank ms, ⟨hkey, hvalue, hmembers⟩, ?_⟩
    intro sep
    rw [verbatim_text] at hkeyText
    rw [Tree.text] at htext
    simp [Tree.textFrom, joined, stringText, noBlank, hkeyText, htext, hjoined]

def objectText (as : List Attempt) : Bytes :=
  123 :: (joined [] as ++ [125])

/-- The concatenation is a document with the members that were meant exactly when every attempt is
as long as it has to be. -/
theorem exists_document_iff (as : List Attempt) :
    (∃ d : Document, d.text = objectText as ∧ MembersAre (as.map expected) d.members) ↔
      ∀ a ∈ as, a.Exact := by
  constructor
  · rintro ⟨d, htext, hmembers⟩
    have hsize := membersSize_le hmembers []
    have hlength := congrArg length htext
    simp only [Document.text, Tree.text, Tree.textFrom, objectText, length_append,
      length_cons, length_nil] at hlength
    exact exact_of_membersSize_le [] (le_trans hsize (by omega))
  · intro h
    obtain ⟨ms, hmembers, hjoined⟩ := exists_members h
    refine ⟨⟨noBlank, noBlank, ms, noBlank⟩, ?_, hmembers⟩
    simp [Document.text, Tree.text, Tree.textFrom, objectText, noBlank, hjoined]

/-! ## Kinds of members -/

namespace Expected

def string (key : Key) (value : Bytes) : Expected where
  key := key
  Holds v := ∃ s, v = .string s ∧ stringValue s = value
  size := 2 + weight value
  size_le := by
    rintro v ⟨s, rfl, rfl⟩
    have hweight := weight_stringValue_le s
    simp only [Tree.text, Tree.textFrom, stringText, List.length_cons, List.length_append,
      List.length_nil]
    omega

def bool (key : Key) (value : Bool) : Expected where
  key := key
  Holds v := v = .bool value
  size := (Tree.bool value).text.length
  size_le := by
    rintro v rfl
    exact Nat.le_refl _

def int (key : Key) (value : Int) : Expected where
  key := key
  Holds v := ∃ n : Number, v = .number n ∧ n.integer = some value
  size := (toString64 value).length
  size_le := by
    rintro v ⟨n, rfl, hn⟩
    exact length_toString64_le hn

def singleObject (key : Key) (fields : List Expected) : Expected where
  key := key
  Holds v := ∃ blank before inner after ms,
    v = .array blank (.element before (.object inner ms) after .noElement) ∧ MembersAre fields ms
  size := 4 + membersSize 0 fields
  size_le := by
    rintro v ⟨blank, before, inner, after, ms, rfl, hms⟩
    have hmembers : membersSize 0 fields ≤ (ms.textFrom []).length := membersSize_le hms []
    simp only [Tree.text, Tree.textFrom, List.length_cons, List.length_append, List.length_nil]
    omega

end Expected

namespace Attempt

def string (key : Key) (E : Escaper) (value : Bytes) : Attempt where
  expected := .string key value
  text := 34 :: (E.text value ++ [34])
  length_le := by
    have hlength := E.length_text_le value
    simp only [Expected.string, List.length_cons, List.length_append, List.length_nil]
    omega
  holds := by
    intro h
    simp only [Expected.string, List.length_cons, List.length_append, List.length_nil] at h
    have hcovers : E.Covers value := E.covers_of_weight_le (by omega)
    obtain ⟨letters, htext, hvalue⟩ := E.exists_letters hcovers
    refine ⟨.string letters, ⟨letters, rfl, hvalue⟩, ?_⟩
    rw [Tree.text, Tree.textFrom, stringText, htext]

def bool (key : Key) (value : Bool) : Attempt where
  expected := .bool key value
  text := (Tree.bool value).text
  length_le := Nat.le_refl _
  holds _ := ⟨.bool value, rfl, rfl⟩

def int (key : Key) (value : Int) : Attempt where
  expected := .int key value
  text := toString64 value
  length_le := Nat.le_refl _
  holds _ := ⟨.number (intNumber value), ⟨_, rfl, intNumber_integer value⟩, intNumber_text value⟩

def singleObject (key : Key) (as : List Attempt) : Attempt where
  expected := .singleObject key (as.map Attempt.expected)
  text := 91 :: (objectText as ++ [93])
  length_le := by
    have hlength : (joined [] as).length ≤ membersSize 0 (as.map Attempt.expected) :=
      length_joined_le as []
    simp only [Expected.singleObject, objectText, List.length_cons, List.length_append,
      List.length_nil]
    omega
  holds := by
    intro h
    simp only [Expected.singleObject, objectText, List.length_cons, List.length_append,
      List.length_nil] at h
    have hexact : ∀ a ∈ as, a.Exact := by
      apply exact_of_membersSize_le []
      rw [List.length_nil]
      omega
    obtain ⟨ms, hmembers, hjoined⟩ := exists_members hexact
    refine ⟨.array noBlank (.element noBlank (.object noBlank ms) noBlank .noElement),
      ⟨_, _, _, _, ms, rfl, hmembers⟩, ?_⟩
    simp [Tree.text, Tree.textFrom, objectText, noBlank, hjoined]

theorem exact_string_iff (key : Key) (E : Escaper) (value : Bytes) :
    (string key E value).Exact ↔ E.Covers value := by
  constructor
  · intro h
    simp only [Exact, string, Expected.string, length_cons, length_append,
      length_nil] at h
    exact E.covers_of_weight_le (by omega)
  · intro h
    obtain ⟨letters, htext, hvalue⟩ := E.exists_letters h
    have hweight := weight_stringValue_le letters
    rw [hvalue, htext] at hweight
    simp only [Exact, string, Expected.string, length_cons, length_append,
      length_nil]
    omega

theorem exact_bool (key : Key) (value : Bool) : (bool key value).Exact :=
  le_refl _

theorem exact_int (key : Key) (value : Int) : (int key value).Exact :=
  le_refl _

theorem exact_singleObject_iff (key : Key) (as : List Attempt) :
    (singleObject key as).Exact ↔ ∀ a ∈ as, a.Exact := by
  constructor
  · intro h
    simp only [Exact, singleObject, Expected.singleObject, objectText, length_cons,
      length_append, length_nil] at h
    apply exact_of_membersSize_le []
    rw [length_nil]
    omega
  · intro h
    obtain ⟨ms, hmembers, hjoined⟩ := exists_members h
    have hsize : membersSize 0 (as.map expected) ≤ (ms.textFrom []).length :=
      membersSize_le hmembers []
    rw [hjoined] at hsize
    simp only [Exact, singleObject, Expected.singleObject, objectText, length_cons,
      length_append, length_nil]
    omega

end Attempt

end TKNC.Lib.JsonShape
