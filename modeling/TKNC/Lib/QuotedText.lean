import TKNC.Lib.Numeral
import TKNC.Lib.TextSearch

/-!
# QuotedText — searching a text of escaped string literals

A writer puts strings between quotes and escapes the quotes within them.  A quoted name that is
searched for in such a text can only end where a literal ends (`prefix_text_iff`), so it is found at
literals with that value and at those whose value ends in a quote and the name (`noStart_text`).  A
reader that takes the bytes from the first one that is no blank and no quote to the next quote gets
the value exactly when it is not empty, no blank is in front and nothing in it is escaped
(`scanned_eq_iff`).
-/

namespace TKNC.Lib

open Numeral TextSearch List Option

structure Quoting where
  escapes : UInt8 → Option Bytes
  quote : escapes 34 = some [92, 34]
  backslash : (escapes 92).isSome = true
  blank : escapes 32 = none
  shape : ∀ b e, escapes b = some e → b ≠ 34 → ∃ rest, e = 92 :: rest ∧ rest ≠ [] ∧ 34 ∉ rest

namespace Quoting

variable (q : Quoting)

def byteText (b : UInt8) : Bytes :=
  (q.escapes b).getD [b]

def text (s : Bytes) : Bytes :=
  s.flatMap q.byteText

/-- Every byte stands for itself. -/
def Plain (s : Bytes) : Prop :=
  ∀ b ∈ s, q.escapes b = none

instance (s : Bytes) : Decidable (q.Plain s) :=
  List.decidableBAll _ s

theorem text_cons (b : UInt8) (s : Bytes) : q.text (b :: s) = q.byteText b ++ q.text s :=
  flatMap_cons

theorem text_append (s t : Bytes) : q.text (s ++ t) = q.text s ++ q.text t :=
  flatMap_append

variable {q}

variable {s : Bytes}

theorem text_of_plain (h : q.Plain s) : q.text s = s := by
  induction s with
  | nil => rfl
  | cons b s ih =>
    rw [Plain, forall_mem_cons] at h
    rw [text_cons, byteText, h.1, ih h.2, getD_none, singleton_append]

theorem plain_ne {b : UInt8} (h : q.escapes b = none) : b ≠ 34 ∧ b ≠ 92 := by
  constructor
  · rintro rfl
    rw [q.quote] at h
    cases h
  · rintro rfl
    have hsome := q.backslash
    rw [h] at hsome
    cases hsome

/-- A byte stands for itself, or there is a backslash in front of what is written for it. -/
theorem byteText_cases (b : UInt8) :
    (q.escapes b = none ∧ q.byteText b = [b]) ∨
      ((q.escapes b).isSome = true ∧ ∃ rest, q.byteText b = 92 :: rest ∧ rest ≠ [] ∧
        (b = 34 ∧ rest = [34] ∨ b ≠ 34 ∧ 34 ∉ rest)) := by
  cases hescape : q.escapes b with
  | none => exact Or.inl ⟨rfl, by rw [byteText, hescape, getD_none]⟩
  | some e =>
    refine Or.inr ⟨rfl, ?_⟩
    rw [byteText, hescape, getD_some]
    by_cases hquote : b = 34
    · subst hquote
      rw [q.quote, some.injEq] at hescape
      exact ⟨[34], hescape.symm, cons_ne_nil _ _, Or.inl ⟨rfl, rfl⟩⟩
    · obtain ⟨rest, he, hne, hmem⟩ := q.shape b e hescape hquote
      exact ⟨rest, he, hne, Or.inr ⟨hquote, hmem⟩⟩

/-! ## Names and literals -/

theorem prefix_text_iff {name : Bytes} (hname : q.Plain name) (t s v : Bytes) :
    name ++ 34 :: t <+: q.text s ++ 34 :: v ↔ s = name ∧ t <+: v := by
  induction s generalizing name with
  | nil =>
    cases name with
    | nil => simp [text, cons_prefix_cons]
    | cons c name =>
      have hc := (plain_ne (hname c mem_cons_self)).1
      simp [text, cons_prefix_cons, hc]
  | cons b s ih =>
    rw [text_cons]
    rcases q.byteText_cases b with ⟨hplain, hbyte⟩ | ⟨hescaped, rest, hbyte, -, -⟩
    · have hb := (plain_ne hplain).1
      cases name with
      | nil => simp [hbyte, cons_prefix_cons, Ne.symm hb]
      | cons c name =>
        rw [Plain, forall_mem_cons] at hname
        rw [hbyte, cons_append, singleton_append, cons_append,
          cons_prefix_cons, ih hname.2, cons.injEq, and_assoc, eq_comm]
    · cases name with
      | nil => simp [hbyte, cons_prefix_cons]
      | cons c name =>
        -- the backslash is no byte of the name
        have hc := plain_ne (hname c mem_cons_self)
        have hbc : b ≠ c := by
          rintro rfl
          rw [hname b mem_cons_self] at hescaped
          cases hescaped
        simp [hbyte, cons_prefix_cons, hc.2, hbc]

/-- A quoted name starts in a literal only at an escaped quote that the name follows to the end. -/
theorem noStart_text {name t x y v : Bytes} (hname : q.Plain name)
    (h : ∀ z, 34 :: z <:+ x → z ++ y = name → ¬ t <+: v) :
    NoStart (34 :: (name ++ 34 :: t)) (q.text x) (q.text y ++ 34 :: v) := by
  induction x with
  | nil => exact trivial
  | cons b x ih =>
    have hrest := ih fun z hz => h z (hz.trans (suffix_cons b x))
    rw [text_cons, noStart_append]
    refine ⟨?_, hrest⟩
    -- only the byte behind a backslash can be a quote
    rcases q.byteText_cases b with ⟨hplain, hbyte⟩ | ⟨-, rest, hbyte, -, hquote | hother⟩
    · rw [hbyte]
      apply NoStart.of_not_mem
      rw [mem_singleton]
      exact Ne.symm (plain_ne hplain).1
    · rw [hbyte, hquote.2]
      refine ⟨by simp [cons_prefix_cons], ?_, trivial⟩
      rw [nil_append, cons_prefix_cons, ← append_assoc, ← text_append,
        prefix_text_iff hname]
      rintro ⟨-, hvalue, hfollows⟩
      exact h x (hquote.1 ▸ suffix_rfl) hvalue hfollows
    · rw [hbyte]
      apply NoStart.of_not_mem
      rw [mem_cons, not_or]
      exact ⟨by decide, hother.2⟩

/-- The value is the name, or ends in a quote and the name. -/
def Hides (name s : Bytes) : Prop :=
  s = name ∨ 34 :: name <:+ s

instance (name s : Bytes) : Decidable (Hides name s) :=
  inferInstanceAs (Decidable (s = name ∨ 34 :: name <:+ s))

theorem noStart_literal {name t s v : Bytes} (hname : q.Plain name)
    (h : Hides name s → ¬ t <+: v) :
    NoStart (34 :: (name ++ 34 :: t)) (34 :: q.text s) (34 :: v) := by
  refine ⟨?_, ?_⟩
  · rw [cons_prefix_cons, prefix_text_iff hname]
    rintro ⟨-, hvalue, hfollows⟩
    exact h (Or.inl hvalue) hfollows
  · have hinner : NoStart (34 :: (name ++ 34 :: t)) (q.text s) (q.text [] ++ 34 :: v) := by
      apply noStart_text hname
      intro z hz hvalue
      rw [append_nil] at hvalue
      exact h (Or.inr (hvalue ▸ hz))
    exact hinner

theorem noStart_string {name t s u v : Bytes} (hname : q.Plain name)
    (h : Hides name s → ¬ t <+: u ++ v) (hu : NoStart (34 :: (name ++ 34 :: t)) (34 :: u) v) :
    NoStart (34 :: (name ++ 34 :: t)) (34 :: (q.text s ++ 34 :: u)) v := by
  have hboth := (noStart_append (34 :: q.text s) (34 :: u) v).2 ⟨noStart_literal hname h, hu⟩
  exact hboth

theorem noStart_cut_literal {name t x y v : Bytes} (hname : q.Plain name)
    (h : ∀ z, z ++ y ≠ name) :
    NoStart (34 :: (name ++ 34 :: t)) (34 :: q.text x) (q.text y ++ 34 :: v) := by
  refine ⟨?_, noStart_text hname fun z _ hvalue _ => h z hvalue⟩
  rw [cons_prefix_cons, ← append_assoc, ← text_append, prefix_text_iff hname]
  rintro ⟨-, hvalue, -⟩
  exact h x hvalue

theorem exists_of_hides {name s : Bytes} (hname : q.Plain name) (h : Hides name s) :
    ∃ w, 34 :: q.text s = w ++ 34 :: name ∧
      ∀ v, NoStart (34 :: (name ++ [34])) w (34 :: (name ++ 34 :: v)) := by
  rcases h with rfl | ⟨x, rfl⟩
  · refine ⟨[], ?_, fun v => trivial⟩
    rw [text_of_plain hname, nil_append]
  · refine ⟨34 :: (q.text x ++ [92]), ?_, ?_⟩
    · rw [text_append, text_cons, byteText, q.quote, getD_some, text_of_plain hname]
      simp
    · intro v
      have hlong : ∀ z, z ++ 34 :: name ≠ name := by
        intro z hz
        have hlength := congrArg length hz
        rw [length_append, length_cons] at hlength
        omega
      have htext : [92] ++ 34 :: (name ++ 34 :: v) = q.text (34 :: name) ++ 34 :: v := by
        rw [text_cons, byteText, q.quote, getD_some, text_of_plain hname]
        simp
      refine (noStart_append (34 :: q.text x) [92] _).2 ⟨?_, NoStart.of_not_mem (by decide) _ _⟩
      rw [htext]
      exact noStart_cut_literal hname hlong

/-! ## Reading a value up to the next quote -/

def isSkipped (c : UInt8) : Bool :=
  c = 32 || c = 34

def readText (s : Bytes) : Bytes :=
  (s.dropWhile isSkipped).takeWhile (· ≠ 34)

theorem quote_mem_dropWhile (u rest : Bytes) :
    34 ∈ (u ++ 44 :: 34 :: rest).dropWhile isSkipped := by
  rw [dropWhile_append_cons (by decide)]
  exact mem_append_right _ (mem_cons_of_mem _ mem_cons_self)

/-- A value without quotes around it is read with the comma that follows it. -/
theorem readText_bare (h : ∀ b ∈ s, isSkipped b = false) (rest : Bytes) :
    readText (s ++ 44 :: 34 :: rest) = s ++ [44] := by
  have hcomma : ∀ b ∈ s ++ [44], isSkipped b = false := by
    rw [forall_mem_append, forall_mem_singleton]
    exact ⟨h, by decide⟩
  have htext : s ++ 44 :: 34 :: rest = (s ++ [44]) ++ 34 :: rest := by
    rw [append_assoc, singleton_append]
  have hall : ∀ b ∈ s ++ [44], decide (b ≠ 34) = true := by
    intro b hb
    have hb := hcomma b hb
    simp only [isSkipped, Bool.or_eq_false_iff, decide_eq_false_iff_not] at hb
    exact decide_eq_true hb.2
  have hskip : ((s ++ [44]) ++ 34 :: rest).dropWhile isSkipped = (s ++ [44]) ++ 34 :: rest := by
    cases hfirst : s ++ [44] with
    | nil => exact absurd hfirst (by simp)
    | cons c u =>
      have hc : isSkipped c = false := hcomma c (hfirst ▸ mem_cons_self)
      rw [cons_append, dropWhile_cons, hc]
      rfl
  rw [htext, readText, hskip, takeWhile_append_of_pos hall, takeWhile_cons,
    if_neg (by simp), append_nil]

variable (q) in
def scanned (s : Bytes) : Bytes :=
  match s.dropWhile (· = 32) with
  | [] => [44]
  | b :: s => (q.text (b :: s)).takeWhile (· ≠ 34)

theorem exists_text_cons {b : UInt8} (hb : b ≠ 32) (s : Bytes) :
    ∃ c rest, q.text (b :: s) = c :: rest ∧ c ≠ 32 ∧ c ≠ 34 := by
  rw [text_cons]
  rcases q.byteText_cases b with ⟨hplain, hbyte⟩ | ⟨-, rest, hbyte, -, -⟩
  · exact ⟨b, q.text s, by rw [hbyte, singleton_append], hb, (plain_ne hplain).1⟩
  · exact ⟨92, rest ++ q.text s, by rw [hbyte, cons_append], by decide, by decide⟩

theorem scanned_blank (s : Bytes) : q.scanned (32 :: s) = q.scanned s := by
  rw [scanned, scanned, dropWhile_cons, if_pos (decide_eq_true rfl)]

theorem scanned_cons {b : UInt8} (hb : b ≠ 32) (s : Bytes) :
    q.scanned (b :: s) = (q.text (b :: s)).takeWhile (· ≠ 34) := by
  rw [scanned, dropWhile_cons, if_neg (by simpa using hb)]

theorem readText_literal (s rest : Bytes) :
    readText (34 :: (q.text s ++ 34 :: 44 :: 34 :: rest)) = q.scanned s := by
  have hquote : isSkipped 34 = true := by decide
  have hblank : isSkipped 32 = true := by decide
  rw [readText, dropWhile_cons, if_pos hquote]
  induction s with
  | nil => rfl
  | cons b s ih =>
    by_cases hb : b = 32
    · subst hb
      rw [text_cons, byteText, q.blank, getD_none, singleton_append,
        cons_append, dropWhile_cons, if_pos hblank, ih, scanned_blank]
    · obtain ⟨c, rest', htext, hspace, hquote⟩ := q.exists_text_cons hb s
      have hskip : ¬ isSkipped c = true := by
        simp [isSkipped, hspace, hquote]
      rw [scanned_cons hb, htext, cons_append, dropWhile_cons, if_neg hskip,
        ← cons_append, takeWhile_append]
      split
      · rename_i hall
        rw [takeWhile_cons, if_neg (by simp), append_nil]
        exact ((List.takeWhile_prefix _).eq_of_length hall).symm
      · rfl

theorem scanned_ne_nil (s : Bytes) : q.scanned s ≠ [] := by
  induction s with
  | nil => exact cons_ne_nil _ _
  | cons b s ih =>
    by_cases hb : b = 32
    · rw [hb, scanned_blank]
      exact ih
    · obtain ⟨c, rest, htext, -, hquote⟩ := q.exists_text_cons hb s
      rw [scanned_cons hb, htext, takeWhile_cons, if_pos (by simpa using hquote)]
      exact cons_ne_nil _ _

/-- A byte that no escape uses is in the text exactly when it is in the value. -/
theorem mem_text_iff {c : UInt8} (hplain : q.escapes c = none)
    (hescapes : ∀ b e, q.escapes b = some e → c ∉ e) (s : Bytes) : c ∈ q.text s ↔ c ∈ s := by
  induction s with
  | nil => exact Iff.rfl
  | cons b s ih =>
    rw [text_cons, mem_append, ih, mem_cons, byteText]
    refine or_congr_left ?_
    cases hescape : q.escapes b with
    | none => rw [getD_none, mem_singleton]
    | some e =>
      refine iff_of_false (hescapes b e hescape) ?_
      rintro rfl
      rw [hplain] at hescape
      cases hescape

theorem not_mem_scanned {c : UInt8} (hplain : q.escapes c = none)
    (hescapes : ∀ b e, q.escapes b = some e → c ∉ e) (hcomma : c ≠ 44) (h : c ∉ s) :
    c ∉ q.scanned s := by
  induction s with
  | nil =>
    intro hmem
    exact hcomma (mem_singleton.1 hmem)
  | cons b s ih =>
    by_cases hb : b = 32
    · rw [hb, scanned_blank]
      exact ih fun hmem => h (mem_cons_of_mem _ hmem)
    · rw [scanned_cons hb]
      intro hmem
      have htext := (List.takeWhile_prefix _).subset hmem
      exact h ((mem_text_iff hplain hescapes _).1 htext)

/-! ## When the value is read -/

theorem quote_mem_of_mem_text (h : 34 ∈ q.text s) : 34 ∈ s := by
  rw [text, mem_flatMap] at h
  obtain ⟨b, hb, hmem⟩ := h
  rcases q.byteText_cases b with ⟨-, hbyte⟩ | ⟨-, rest, hbyte, -, hquote | hother⟩
  · rw [hbyte, mem_singleton] at hmem
    exact hmem ▸ hb
  · exact hquote.1 ▸ hb
  · rw [hbyte, mem_cons] at hmem
    rcases hmem with hslash | hrest
    · cases hslash
    · exact absurd hrest hother.2

theorem plain_of_length_text_le (h : (q.text s).length ≤ s.length) : q.Plain s := by
  have hlength : ∀ s : Bytes, s.length ≤ (q.text s).length := by
    intro s
    induction s with
    | nil => exact Nat.le_refl 0
    | cons b s ih =>
      rw [text_cons, length_append, length_cons]
      rcases q.byteText_cases b with ⟨-, hbyte⟩ | ⟨-, rest, hbyte, -, -⟩
      · rw [hbyte, length_singleton]
        omega
      · rw [hbyte, length_cons]
        omega
  induction s with
  | nil => exact forall_mem_nil _
  | cons b s ih =>
    have hrest := hlength s
    rw [text_cons, length_append, length_cons] at h
    rcases q.byteText_cases b with ⟨hplain, hbyte⟩ | ⟨-, rest, hbyte, hne, -⟩
    · rw [hbyte, length_singleton] at h
      exact forall_mem_cons.2 ⟨hplain, ih (by omega)⟩
    · have hpos := length_pos_iff.2 hne
      rw [hbyte, length_cons] at h
      omega

variable (q) in
/-- The value is not empty, no blank is in front, and nothing in it is escaped. -/
def Readable (s : Bytes) : Prop :=
  s ≠ [] ∧ s.head? ≠ some 32 ∧ q.Plain s

instance (s : Bytes) : Decidable (q.Readable s) :=
  inferInstanceAs (Decidable (s ≠ [] ∧ s.head? ≠ some 32 ∧ q.Plain s))

theorem head?_scanned_ne (s : Bytes) : (q.scanned s).head? ≠ some 32 := by
  induction s with
  | nil =>
    have hcomma : q.scanned [] = [44] := rfl
    rw [hcomma]
    decide
  | cons b s ih =>
    by_cases hb : b = 32
    · rw [hb, scanned_blank]
      exact ih
    · obtain ⟨c, rest, htext, hspace, hquote⟩ := q.exists_text_cons hb s
      rw [scanned_cons hb, htext, takeWhile_cons, if_pos (by simpa using hquote),
        head?_cons]
      simpa using hspace

theorem scanned_eq_iff (s : Bytes) : q.scanned s = s ↔ q.Readable s := by
  constructor
  · intro h
    have hhead := q.head?_scanned_ne s
    rw [h] at hhead
    refine ⟨h ▸ q.scanned_ne_nil s, hhead, ?_⟩
    cases s with
    | nil => exact forall_mem_nil _
    | cons b s =>
      have hb : b ≠ 32 := by simpa using hhead
      rw [scanned_cons hb] at h
      -- the reader stops at no quote, so the value has none and the text is read to its end
      have hquote : 34 ∉ b :: s := by
        rw [← h]
        intro hmem
        have hne := mem_takeWhile_imp hmem
        simp at hne
      have hall : ∀ c ∈ q.text (b :: s), decide (c ≠ 34) = true := by
        intro c hc
        rw [decide_eq_true_iff]
        rintro rfl
        exact hquote (quote_mem_of_mem_text hc)
      rw [takeWhile_eq_self_iff.2 hall] at h
      exact plain_of_length_text_le (Nat.le_of_eq (congrArg length h))
  · rintro ⟨hne, hhead, hplain⟩
    cases s with
    | nil => exact absurd rfl hne
    | cons b s =>
      have hb : b ≠ 32 := by simpa using hhead
      rw [scanned_cons hb, text_of_plain hplain, takeWhile_eq_self_iff]
      intro c hc
      rw [decide_eq_true_iff]
      exact (plain_ne (hplain c hc)).1

end Quoting

end TKNC.Lib
