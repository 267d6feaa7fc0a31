import TKNC.Lib.JsonText
import TKNC.Lib.TextSearch

/-!
# JsonSearch — what a search in the text of a JSON document meets

A program that searches the text of a document for a byte or for a quoted word, without parsing it,
ends up somewhere in the document.  This module says where.

* `places` — every colon of the text belongs to a member or stands in a string (`colon_suffix_tree`);
* `strings` — a quoted word without quotes, backslashes, commas and colons stands in the text
  exactly if a string is spelled like it, or ends so behind an escaped quote (`infix_text_iff`).
-/

namespace TKNC.Lib.JsonText

open Numeral TextSearch List

/-! ## Pieces of a text -/

theorem not_mem_blank (blank : Blank) {b : UInt8} (h : isWhitespace b = false) : b ∉ blank.1 := by
  intro hmem
  exact absurd (h.symm.trans (blank.2 b hmem)) Bool.false_ne_true

theorem not_mem_of_hex {digits : Bytes} (h : ∀ d ∈ digits, (hexValue d).isSome) {b : UInt8}
    (hb : hexValue b = none) : b ∉ digits := by
  intro hmem
  have hsome := h b hmem
  rw [hb] at hsome
  cases hsome

theorem Number.not_mem_text (n : Number) {b : UInt8}
    (h : ¬(isDigit b = true ∨ b = 43 ∨ b = 45 ∨ b = 46 ∨ b = 69 ∨ b = 101)) : b ∉ n.text :=
  fun hmem => h (n.mem_text hmem)

theorem not_mem_bool (b : Bool) {c : UInt8} (h : c ∉ ascii "truefalse") :
    c ∉ Tree.text (.bool b) := by
  intro hmem
  cases b with
  | true => exact h (mem_append_left (ascii "false") hmem)
  | false => exact h (mem_append_right (ascii "true") hmem)

theorem Letter.quote_not_mem {l : Letter} (h : l ≠ .escape .quote) : 34 ∉ l.text := by
  cases l with
  | plain b hb => exact fun hmem => hb.2.1 (mem_singleton.1 hmem).symm
  | escape e => cases e <;> first | exact absurd rfl h | decide
  | unicode digits hdigits =>
    rw [Letter.text, mem_cons, mem_cons, not_or, not_or]
    exact ⟨by decide, by decide, not_mem_of_hex hdigits.2 rfl⟩

/-! ## Colons -/

/-- What stands behind a colon: the value of a member, or, if the colon is in a string, the letters
that follow it there and the text behind the string. -/
inductive Place where
  | value (f : Field)
  | text (s : Letters) (rest : Bytes)

def Place.behind : Place → Bytes
  | .value f => f.between.1 ++ (f.value.text ++ f.rest)
  | .text s rest => lettersText s ++ 34 :: rest

def stringPlaces : Letters → Bytes → List Place
  | [], _ => []
  | l :: s, rest => if l.text = [58] then .text s rest :: stringPlaces s rest else stringPlaces s rest

/-- The places behind the colons of a part, in the order of the text, with `rest` behind the part. -/
def Tree.places : {p : Part} → Tree p → Bytes → List Place
  | _, .string s, rest => stringPlaces s rest
  | _, .array _ es, rest => es.places (93 :: rest)
  | _, .object _ ms, rest => ms.places (125 :: rest)
  | _, .element _ v after es, rest =>
      v.places (after.1 ++ (es.textFrom [44] ++ rest)) ++ es.places rest
  | _, .member _ key behind between v after ms, rest =>
      stringPlaces key (behind.1 ++ 58 :: (between.1 ++ (v.text ++
          (after.1 ++ (ms.textFrom [44] ++ rest))))) ++
        .value ⟨behind, between, v, after.1 ++ (ms.textFrom [44] ++ rest)⟩ ::
          (v.places (after.1 ++ (ms.textFrom [44] ++ rest)) ++ ms.places rest)
  | _, _, _ => []

def Document.places (d : Document) : List Place :=
  d.members.places (125 :: d.trailing.1)

theorem colon_suffix_string (s : Letters) (rest v : Bytes) :
    58 :: v <:+ stringText s ++ rest ↔
      v ∈ (stringPlaces s rest).map Place.behind ∨ 58 :: v <:+ rest := by
  rw [stringText, cons_append, append_assoc, suffix_cons_of_ne (by decide)]
  induction s with
  | nil =>
    rw [lettersText, flatMap_nil, nil_append, singleton_append, suffix_cons_of_ne (by decide)]
    exact (or_iff_right not_mem_nil).symm
  | cons l s ih =>
    rw [lettersText, flatMap_cons, append_assoc, stringPlaces]
    split
    · rename_i hcolon
      rw [hcolon, singleton_append, suffix_cons_iff, cons.injEq, and_iff_right rfl, ← lettersText,
        ih, map_cons, mem_cons, or_assoc]
      rfl
    · -- no other letter has a colon in its text
      rename_i hcolon
      rw [suffix_skip, ← lettersText, ih]
      cases l with
      | plain b hb => exact fun hmem => hcolon (congrArg (fun b => [b]) (mem_singleton.1 hmem).symm)
      | escape e => cases e <;> decide
      | unicode digits hdigits =>
        rw [Letter.text, mem_cons, mem_cons, not_or, not_or]
        exact ⟨by decide, by decide, not_mem_of_hex hdigits.2 rfl⟩

variable {p : Part}

/-- The colons of a part are its places. -/
theorem colon_suffix_tree (t : Tree p) {sep : Bytes} (hsep : 58 ∉ sep) (rest v : Bytes) :
    58 :: v <:+ t.textFrom sep ++ rest ↔
      v ∈ (t.places rest).map Place.behind ∨ 58 :: v <:+ rest := by
  have hblank (blank : Blank) : 58 ∉ blank.1 := not_mem_blank blank (by decide)
  have hnil : 58 ∉ ([] : Bytes) := not_mem_nil
  have hcomma : 58 ∉ ([44] : Bytes) := by decide
  have hnone {u : Bytes} (hu : 58 ∉ u) (rest : Bytes) :
      58 :: v <:+ u ++ rest ↔ v ∈ [] ∨ 58 :: v <:+ rest := by
    rw [suffix_skip hu, or_iff_right not_mem_nil]
  -- one case per constructor; pieces without a colon are passed over
  induction t generalizing sep rest with
  | null => exact hnone (u := ascii "null") (by decide) rest
  | bool b => exact hnone (not_mem_bool b (by decide)) rest
  | number n => exact hnone (n.not_mem_text (by decide)) rest
  | string s => exact colon_suffix_string s rest v
  | array blank es ih =>
    rw [Tree.textFrom, cons_append, append_assoc, append_assoc, suffix_cons_of_ne (by decide),
      suffix_skip (hblank blank)]
    exact (ih hnil _).trans (or_congr_right (suffix_cons_of_ne (by decide) v rest))
  | object blank ms ih =>
    rw [Tree.textFrom, cons_append, append_assoc, append_assoc, suffix_cons_of_ne (by decide),
      suffix_skip (hblank blank)]
    exact (ih hnil _).trans (or_congr_right (suffix_cons_of_ne (by decide) v rest))
  | noElement => exact hnone hnil rest
  | element before v after es ihv ihes =>
    simp only [Tree.textFrom, append_assoc]
    rw [suffix_skip hsep, suffix_skip (hblank before), Tree.places, map_append, mem_append, or_assoc]
    refine (ihv hnil _).trans (or_congr_right ?_)
    rw [suffix_skip (hblank after)]
    exact ihes hcomma rest
  | noMember => exact hnone hnil rest
  | member before key behind between v after ms ihv ihms =>
    simp only [Tree.textFrom, append_assoc, cons_append]
    rw [suffix_skip hsep, suffix_skip (hblank before), colon_suffix_string,
      suffix_skip (hblank behind), suffix_cons_iff, cons.injEq, and_iff_right rfl,
      suffix_skip (hblank between), Tree.places, map_append, map_cons, map_append, mem_append,
      mem_cons, mem_append, or_assoc, or_assoc, or_assoc]
    refine or_congr_right (or_congr_right ((ihv hnil _).trans (or_congr_right ?_)))
    rw [suffix_skip (hblank after)]
    exact ihms hcomma rest

theorem mem_places_of_suffix {d : Document} {v : Bytes} (h : 58 :: v <:+ d.text) :
    ∃ place ∈ d.places, place.behind = v := by
  have hblank (blank : Blank) : 58 ∉ blank.1 := not_mem_blank blank (by decide)
  have hend : ¬58 :: v <:+ 125 :: d.trailing.1 := by
    intro hsuffix
    rcases mem_cons.1 (hsuffix.subset mem_cons_self) with hbrace | hmem
    · exact absurd hbrace (by decide)
    · exact hblank d.trailing hmem
  simp only [Document.text, Tree.text, Tree.textFrom, cons_append, append_assoc, nil_append] at h
  rw [suffix_skip (hblank d.leading), suffix_cons_of_ne (by decide), suffix_skip (hblank d.blank),
    colon_suffix_tree d.members (by simp), or_iff_left hend] at h
  exact mem_map.1 h

/-! ## Ends of values -/

/-- No digit follows, so that a number in front of the text ends there. -/
def Ends (rest : Bytes) : Prop :=
  ∀ c ∈ rest.head?, isDigit c = false

variable {rest : Bytes}

theorem ends_append {blank : Blank} (h : Ends rest) : Ends (blank.1 ++ rest) := by
  rcases blank with ⟨_ | ⟨b, bytes⟩, hblank⟩
  · exact h
  · intro c hc
    cases Option.mem_some.1 hc
    have hwhite := hblank b mem_cons_self
    simp only [isWhitespace, Bool.or_eq_true, decide_eq_true_eq] at hwhite
    rcases hwhite with ((rfl | rfl) | rfl) | rfl <;> rfl

theorem ends_textFrom (t : Tree p) (hp : p ≠ .value) (h : Ends rest) :
    Ends (t.textFrom [44] ++ rest) := by
  cases t with
  | noElement => exact h
  | noMember => exact h
  | element => rintro c ⟨⟩; rfl
  | member => rintro c ⟨⟩; rfl
  | _ => exact absurd rfl hp

theorem value_not_mem_stringPlaces (f : Field) (s : Letters) (rest : Bytes) :
    .value f ∉ stringPlaces s rest := by
  induction s with
  | nil => simp [stringPlaces]
  | cons l s ih =>
    rw [stringPlaces]
    split <;> simp [ih]

theorem ends_of_mem_places (t : Tree p) (hrest : Ends rest) {f : Field}
    (h : .value f ∈ t.places rest) : Ends f.rest := by
  induction t generalizing rest with
  | string s => exact absurd h (value_not_mem_stringPlaces f s rest)
  | array blank es ih => exact ih (by rintro c ⟨⟩; rfl) h
  | object blank ms ih => exact ih (by rintro c ⟨⟩; rfl) h
  | element before v after es ihv ihes =>
    rcases mem_append.1 h with h | h
    · exact ihv (ends_append (ends_textFrom es (by rintro ⟨⟩) hrest)) h
    · exact ihes hrest h
  | member before key behind between v after ms ihv ihms =>
    have hends : Ends (after.1 ++ (ms.textFrom [44] ++ rest)) :=
      ends_append (ends_textFrom ms (by rintro ⟨⟩) hrest)
    rcases mem_append.1 h with h | h
    · exact absurd h (value_not_mem_stringPlaces f key _)
    rcases mem_cons.1 h with h | h
    · cases h
      exact hends
    rcases mem_append.1 h with h | h
    · exact ihv hends h
    · exact ihms hrest h
  | _ => cases h

theorem Document.ends_of_mem_places {d : Document} {f : Field} (h : .value f ∈ d.places) :
    Ends f.rest :=
  JsonText.ends_of_mem_places d.members (by rintro c ⟨⟩; rfl) h

/-! ## Quoted words -/

def Tree.strings : {p : Part} → Tree p → List Letters
  | _, .string s => [s]
  | _, .array _ es => es.strings
  | _, .object _ ms => ms.strings
  | _, .element _ v _ es => v.strings ++ es.strings
  | _, .member _ key _ _ v _ ms => key :: (v.strings ++ ms.strings)
  | _, _ => []

/-- The string is spelled like the word, or ends so behind an escaped quote. -/
def Spells (word : Bytes) (s : Letters) : Prop :=
  lettersText s = word ∨ ∃ v, .escape .quote :: v <:+ s ∧ lettersText v = word

/-- A word that no text between two strings can be, and that is the same with and without escapes. -/
def PlainWord (word : Bytes) : Prop :=
  ∀ b ∈ word, b ≠ 34 ∧ b ≠ 92 ∧ b ≠ 44 ∧ b ≠ 58

instance (word : Bytes) : Decidable (PlainWord word) :=
  List.decidableBAll _ word

/-- Up to the next quote of the text there is a comma or a colon. -/
def Separated (rest : Bytes) : Prop :=
  ∀ word, PlainWord word → ¬word ++ [34] <+: rest

theorem separated_of_separator {c : UInt8} (hc : c = 44 ∨ c = 58) (rest : Bytes) :
    Separated (c :: rest) := by
  intro word hword hprefix
  cases word with
  | nil =>
    rw [nil_append, cons_prefix_cons] at hprefix
    rcases hc with rfl | rfl <;> exact absurd hprefix.1 (by decide)
  | cons b word =>
    rw [cons_append, cons_prefix_cons] at hprefix
    have hb := hword b mem_cons_self
    rcases hc with rfl | rfl
    · exact hb.2.2.1 hprefix.1
    · exact hb.2.2.2 hprefix.1

theorem Separated.append {u rest : Bytes} (hu : 34 ∉ u) (h : Separated rest) :
    Separated (u ++ rest) := by
  induction u with
  | nil => exact h
  | cons b u ih =>
    rw [mem_cons, not_or] at hu
    intro word hword hprefix
    cases word with
    | nil =>
      rw [nil_append, cons_append, cons_prefix_cons] at hprefix
      exact hu.1 hprefix.1
    | cons c word =>
      rw [cons_append, cons_append, cons_prefix_cons] at hprefix
      exact ih hu.2 word (fun b hb => hword b (mem_cons_of_mem _ hb)) hprefix.2

theorem separated_textFrom (t : Tree p) (hp : p ≠ .value) (h : Separated rest)
    : Separated (t.textFrom [44] ++ rest) := by
  cases t with
  | noElement => exact h
  | noMember => exact h
  | element => exact separated_of_separator (Or.inl rfl) _
  | member => exact separated_of_separator (Or.inl rfl) _
  | _ => exact absurd rfl hp

variable {word : Bytes}

theorem prefix_letters_iff (hword : PlainWord word) (s : Letters) (rest : Bytes) :
    word ++ [34] <+: lettersText s ++ 34 :: rest ↔ lettersText s = word := by
  induction s generalizing word with
  | nil =>
    cases word with
    | nil => simp [lettersText]
    | cons b word =>
      refine iff_of_false ?_ (by simp [lettersText])
      simp only [lettersText, flatMap_nil, nil_append, cons_append, cons_prefix_cons]
      exact fun h => (hword b mem_cons_self).1 h.1
  | cons l s ih =>
    -- an escape begins with a backslash, which the word does not have
    have hescape (u : Bytes) (hl : l.text = 92 :: u) :
        word ++ [34] <+: lettersText (l :: s) ++ 34 :: rest ↔ lettersText (l :: s) = word := by
      rw [lettersText, flatMap_cons, hl, cons_append, cons_append]
      cases word with
      | nil => simp
      | cons b word =>
        have hb := (hword b mem_cons_self).2.1
        refine iff_of_false ?_ fun h => hb (cons.inj h).1.symm
        rw [cons_append, cons_prefix_cons]
        exact fun h => hb h.1
    cases l with
    | escape e => exact hescape [e.letter] rfl
    | unicode digits hdigits => exact hescape (117 :: digits) rfl
    | plain b hb =>
      have htext : lettersText (.plain b hb :: s) = b :: lettersText s := rfl
      rw [htext, cons_append]
      cases word with
      | nil => simpa using fun h => hb.2.1 h.symm
      | cons c word =>
        rw [cons_append, cons_prefix_cons, ih fun b hb => hword b (mem_cons_of_mem _ hb),
          cons.injEq, eq_comm]

theorem noStart_string (hword : PlainWord word) (s : Letters) (hrest : Separated rest) :
    NoStart (34 :: (word ++ [34])) (stringText s) rest ↔ ¬Spells word s := by
  have hletters (s : Letters) : NoStart (34 :: (word ++ [34])) (lettersText s) (34 :: rest) ↔
      ¬∃ v, .escape .quote :: v <:+ s ∧ lettersText v = word := by
    induction s with
    | nil => simp [lettersText, NoStart]
    | cons l s ih =>
      have hfirst : NoStart (34 :: (word ++ [34])) l.text (lettersText s ++ 34 :: rest) ↔
          ¬(l = .escape .quote ∧ lettersText s = word) := by
        by_cases hquote : l = .escape .quote
        · -- the quote of the escape may begin the word
          subst hquote
          rw [and_iff_right rfl, ← prefix_letters_iff hword s rest]
          simp [Letter.text, Escape.letter, NoStart, cons_prefix_cons]
        · exact iff_of_true (.of_not_mem (Letter.quote_not_mem hquote) _ _) fun h => hquote h.1
      rw [lettersText, flatMap_cons, noStart_append, ← lettersText, ih, hfirst, ← not_or]
      simp only [suffix_cons_iff, cons.injEq, or_and_right, exists_or, and_assoc, exists_and_left,
        exists_eq_left, eq_comm (a := l)]
  have hclose : ¬34 :: (word ++ [34]) <+: 34 :: rest := by
    rw [cons_prefix_cons]
    exact fun h => hrest word hword h.2
  rw [stringText, NoStart, noStart_append, append_assoc, singleton_append, cons_prefix_cons,
    prefix_letters_iff hword, hletters, Spells, not_or]
  simp [NoStart, hclose]

theorem noStart_tree (hword : PlainWord word) (t : Tree p) {sep : Bytes} (hsep : 34 ∉ sep)
    (hrest : Separated rest) :
    NoStart (34 :: (word ++ [34])) (t.textFrom sep) rest ↔ ∀ s ∈ t.strings, ¬Spells word s := by
  have hblank (blank : Blank) : 34 ∉ blank.1 := not_mem_blank blank (by decide)
  have hscalar {u v : Bytes} (hu : 34 ∉ u) :
      NoStart (34 :: (word ++ [34])) u v ↔ ∀ s ∈ [], ¬Spells word s :=
    iff_of_true (.of_not_mem hu _ _) (forall_mem_nil _)
  induction t generalizing sep rest with
  | null => exact hscalar (u := ascii "null") (by decide)
  | bool b => exact hscalar (not_mem_bool b (by decide))
  | number n => exact hscalar (n.not_mem_text (by decide))
  | string s =>
    rw [Tree.strings, forall_mem_singleton]
    exact noStart_string hword s hrest
  | array blank es ih =>
    have hend : Separated (93 :: rest) := hrest.append (u := [93]) (by decide)
    rw [Tree.textFrom, noStart_cons (by decide), noStart_skip (hblank blank),
      noStart_drop (by decide), singleton_append]
    exact ih (by simp) hend
  | object blank ms ih =>
    have hend : Separated (125 :: rest) := hrest.append (u := [125]) (by decide)
    rw [Tree.textFrom, noStart_cons (by decide), noStart_skip (hblank blank),
      noStart_drop (by decide), singleton_append]
    exact ih (by simp) hend
  | noElement => exact iff_of_true trivial (forall_mem_nil _)
  | element before v after es ihv ihes =>
    have hvalue : NoStart (34 :: (word ++ [34])) (v.textFrom [])
        (after.1 ++ (es.textFrom [44] ++ rest)) ↔ ∀ s ∈ v.strings, ¬Spells word s :=
      ihv (by simp) ((separated_textFrom es (by rintro ⟨⟩) hrest).append (hblank after))
    rw [Tree.textFrom, noStart_skip hsep, noStart_skip (hblank before), noStart_append,
      append_assoc, noStart_skip (hblank after), hvalue, Tree.strings, forall_mem_append]
    exact and_congr_right fun _ => ihes (by decide) hrest
  | noMember => exact iff_of_true trivial (forall_mem_nil _)
  | member before key behind between v after ms ihv ihms =>
    have hvalue : NoStart (34 :: (word ++ [34])) (v.textFrom [])
        (after.1 ++ (ms.textFrom [44] ++ rest)) ↔ ∀ s ∈ v.strings, ¬Spells word s :=
      ihv (by simp) ((separated_textFrom ms (by rintro ⟨⟩) hrest).append (hblank after))
    have hkey (u : Bytes) : Separated (behind.1 ++ 58 :: u) :=
      (separated_of_separator (Or.inr rfl) u).append (hblank behind)
    rw [Tree.textFrom, noStart_skip hsep, noStart_skip (hblank before), noStart_append,
      append_assoc, cons_append, noStart_string hword key (hkey _), noStart_skip (hblank behind),
      noStart_cons (by decide), noStart_skip (hblank between), noStart_append, append_assoc,
      noStart_skip (hblank after), hvalue, Tree.strings, forall_mem_cons, forall_mem_append]
    exact and_congr_right fun _ => and_congr_right fun _ => ihms (by decide) hrest

theorem infix_text_iff (hword : PlainWord word) (d : Document) :
    34 :: (word ++ [34]) <:+: d.text ↔ ∃ s ∈ d.members.strings, Spells word s := by
  have hblank (blank : Blank) : 34 ∉ blank.1 := not_mem_blank blank (by decide)
  have hnil : Separated [] := by
    intro word _ hprefix
    simp at hprefix
  have hend : Separated (125 :: d.trailing.1) := by
    have h := (hnil.append (hblank d.trailing)).append (u := [125]) (by decide)
    rwa [append_nil] at h
  have htext : NoStart (34 :: (word ++ [34])) d.text [] ↔
      ∀ s ∈ d.members.strings, ¬Spells word s := by
    rw [Document.text, noStart_skip (hblank d.leading), noStart_drop (hblank d.trailing),
      append_nil]
    rw [Tree.text, Tree.textFrom, noStart_cons (by decide), noStart_skip (hblank d.blank),
      noStart_drop (by decide), singleton_append]
    exact noStart_tree hword d.members (by simp) hend
  rw [infix_iff_not_noStart, htext]
  push Not
  rfl

end TKNC.Lib.JsonText
