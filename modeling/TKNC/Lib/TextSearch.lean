import Mathlib.Data.List.Infix
import Mathlib.Data.List.Induction
import Mathlib.Data.List.TakeWhile

/-!
# TextSearch — the first and the last occurrence of a pattern

`find` is the search of a string library, with the position of a match represented by the text from
there on.  A scanner that only moves forward never needs the text before its position; `rfind`,
which goes back, is given the whole text.
-/

namespace TKNC.Lib.TextSearch

open List

variable {α : Type*}

/-! ## Where occurrences start -/

/-- A pattern that is not complete in `u` but starts there reaches over the cut. -/
theorem exists_over_cut {pat u v : List α} (hwhole : ¬ pat <+: u) (h : pat <+: u ++ v) :
    ∃ w t, pat = u ++ w ∧ w ≠ [] ∧ v = w ++ t := by
  obtain ⟨w, rfl⟩ :=
    (List.prefix_or_prefix_of_prefix h (prefix_append u v)).resolve_left hwhole
  obtain ⟨t, ht⟩ := h
  rw [append_assoc] at ht
  refine ⟨w, t, rfl, ?_, (append_cancel_left ht).symm⟩
  rintro rfl
  rw [append_nil] at hwhole
  exact hwhole prefix_rfl

/-- No occurrence of the pattern starts in the first text when the second follows it. -/
def NoStart (pat : List α) : List α → List α → Prop
  | [], _ => True
  | c :: u, v => ¬ pat <+: c :: (u ++ v) ∧ NoStart pat u v

theorem noStart_append {pat : List α} (u w v : List α) :
    NoStart pat (u ++ w) v ↔ NoStart pat u (w ++ v) ∧ NoStart pat w v := by
  induction u with
  | nil => exact (and_iff_right trivial).symm
  | cons c u ih => rw [cons_append, NoStart, NoStart, ih, append_assoc, and_assoc]

variable {c : α}

theorem NoStart.of_not_mem {u : List α} (h : c ∉ u) (pat v : List α) :
    NoStart (c :: pat) u v := by
  induction u with
  | nil => exact trivial
  | cons d u ih =>
    rw [mem_cons, not_or] at h
    refine ⟨?_, ih h.2⟩
    rw [cons_prefix_cons]
    exact fun hhead => h.1 hhead.1

theorem noStart_skip {u : List α} (h : c ∉ u) (pat w v : List α) :
    NoStart (c :: pat) (u ++ w) v ↔ NoStart (c :: pat) w v := by
  rw [noStart_append, and_iff_right (.of_not_mem h pat _)]

theorem noStart_cons {b c : α} (h : c ≠ b) (pat w v : List α) :
    NoStart (c :: pat) (b :: w) v ↔ NoStart (c :: pat) w v :=
  noStart_skip (u := [b]) (by simpa using h) pat w v

theorem noStart_drop {u : List α} (h : c ∉ u) (pat w v : List α) :
    NoStart (c :: pat) (w ++ u) v ↔ NoStart (c :: pat) w (u ++ v) := by
  rw [noStart_append, and_iff_left (.of_not_mem h pat _)]

theorem noStart_singleton {u : List α} (v : List α) : NoStart [c] u v ↔ c ∉ u := by
  refine ⟨?_, fun h => .of_not_mem h [] v⟩
  intro h hmem
  induction u with
  | nil => cases hmem
  | cons d u ih =>
    rcases mem_cons.1 hmem with rfl | hmem
    · exact h.1 (prefix_append [c] (u ++ v))
    · exact ih h.2 hmem

theorem infix_iff_not_noStart {pat s : List α} :
    c :: pat <:+: s ↔ ¬NoStart (c :: pat) s [] := by
  induction s with
  | nil => simp [NoStart]
  | cons d s ih =>
    rw [infix_cons_iff, ih, NoStart, append_nil]
    tauto

theorem suffix_skip {u : List α} (h : c ∉ u) (v w : List α) :
    c :: v <:+ u ++ w ↔ c :: v <:+ w := by
  induction u with
  | nil => rfl
  | cons b u ih =>
    rw [mem_cons, not_or] at h
    rw [cons_append, suffix_cons_iff, ih h.2, cons.injEq]
    exact or_iff_right fun heq => h.1 heq.1

theorem suffix_cons_of_ne {b c : α} (h : c ≠ b) (v w : List α) :
    c :: v <:+ b :: w ↔ c :: v <:+ w :=
  suffix_skip (u := [b]) (by simpa using h) v w

variable {pat u : List α}

/-- An occurrence that starts in a text without the pattern would reach the symbol behind it. -/
theorem NoStart.of_next (hc : c ∉ pat.tail) (h : ¬pat <:+: u) (v : List α)
    : NoStart pat u (c :: v) := by
  induction u with
  | nil => exact trivial
  | cons d u ih =>
    rw [infix_cons_iff, not_or] at h
    refine ⟨fun hhead => ?_, ih h.2⟩
    obtain ⟨w, t, rfl, hne, hw⟩ := exists_over_cut h.1 hhead
    obtain ⟨b, w, rfl⟩ := exists_cons_of_ne_nil hne
    obtain rfl : c = b := (cons.inj hw).1
    exact hc (mem_append_right u mem_cons_self)

/-- A pattern of two different symbols that stands behind `u ++ w` and is not in it does not start
in `u`. -/
theorem NoStart.of_pair {x y : α} (hxy : x ≠ y) {u w v : List α} (h : ¬ [x, y] <:+: u ++ w)
    (hpat : [x, y] <+: w ++ v) : NoStart [x, y] u (w ++ v) := by
  induction u with
  | nil => trivial
  | cons c u ih =>
    rw [cons_append, infix_cons_iff, not_or] at h
    refine ⟨?_, ih h.2⟩
    intro hhead
    rw [← append_assoc, ← cons_append] at hhead
    -- such an occurrence would reach over the end of `u ++ w`
    obtain ⟨beyond, t, hbeyond, hne, hv⟩ := exists_over_cut h.1 hhead
    have hnil : u ++ w = [] := by
      have hlength := congrArg length hbeyond
      have hpos := length_pos_iff.2 hne
      simp only [length_cons, length_append, length_nil] at hlength
      exact length_eq_zero_iff.1 (by rw [length_append]; omega)
    rw [(append_eq_nil_iff.1 hnil).2, nil_append, hv] at hpat
    rw [hnil, cons_append, nil_append, cons.injEq] at hbeyond
    rw [← hbeyond.2, cons_append, cons_prefix_cons] at hpat
    exact hxy hpat.1

/-! ## Searching -/

variable [BEq α]

def find (pat : List α) : List α → Option (List α)
  | [] => if pat.isEmpty then some [] else none
  | c :: rest => if pat.isPrefixOf (c :: rest) then some (c :: rest) else find pat rest

def contains (pat s : List α) : Bool :=
  (find pat s).isSome

def passes (pat : List α) : List α → Bool
  | [] => true
  | c :: rest =>
      !pat.isPrefixOf (c :: rest) && !(c :: rest).isPrefixOf pat && passes pat rest

variable [LawfulBEq α]

theorem isPrefixOf_append {pat u v : List α} (h : pat.isPrefixOf (u ++ v) = true) :
    pat.isPrefixOf u = true ∨ u.isPrefixOf pat = true := by
  simp only [List.isPrefixOf_iff_prefix] at h ⊢
  exact prefix_or_prefix_of_prefix h (prefix_append u v)

theorem NoStart.of_passes (h : passes pat u = true) (v : List α) :
    NoStart pat u v := by
  induction u with
  | nil => exact trivial
  | cons c u ih =>
    simp only [passes, Bool.and_eq_true, Bool.not_eq_true'] at h
    rcases h with ⟨⟨hpat, htext⟩, hrest⟩
    refine ⟨?_, ih hrest⟩
    rw [← cons_append, ← isPrefixOf_iff_prefix]
    intro hhead
    rcases isPrefixOf_append hhead with hmatch | hmatch
    · exact absurd (hpat.symm.trans hmatch) Bool.false_ne_true
    · exact absurd (htext.symm.trans hmatch) Bool.false_ne_true

theorem find_append_of_noStart {pat u v : List α} (h : NoStart pat u v) :
    find pat (u ++ v) = find pat v := by
  induction u with
  | nil => rfl
  | cons c u ih =>
    have hhead : ¬ pat.isPrefixOf (c :: (u ++ v)) = true := by
      rw [List.isPrefixOf_iff_prefix]
      exact h.1
    rw [cons_append, find, if_neg hhead]
    exact ih h.2

/-- The search goes through a text that the pattern clashes with everywhere. -/
theorem find_append_of_passes (h : passes pat u = true) (v : List α) :
    find pat (u ++ v) = find pat v :=
  find_append_of_noStart (NoStart.of_passes h v)

theorem find_append_of_not_mem {u : List α} (h : c ∉ u) (pat v : List α) :
    find (c :: pat) (u ++ v) = find (c :: pat) v :=
  find_append_of_noStart (NoStart.of_not_mem h pat v)

/-! ## The first occurrence -/

theorem find_append_self {pat : List α} (h : pat ≠ []) (v : List α) :
    find pat (pat ++ v) = some (pat ++ v) := by
  cases pat with
  | nil => exact absurd rfl h
  | cons c pat =>
    have hhead : (c :: pat).isPrefixOf (c :: (pat ++ v)) = true := by
      rw [List.isPrefixOf_iff_prefix]
      exact prefix_append (c :: pat) v
    rw [cons_append, find, if_pos hhead]

theorem find_eq_some_iff {pat s r : List α} :
    find (c :: pat) s = some r ↔
      ∃ u v, s = u ++ r ∧ r = c :: pat ++ v ∧ NoStart (c :: pat) u r := by
  constructor
  · intro h
    induction s with
    | nil => cases h
    | cons d s ih =>
      rw [find] at h
      split at h
      · rename_i hhead
        cases h
        obtain ⟨v, hv⟩ := List.isPrefixOf_iff_prefix.1 hhead
        exact ⟨[], v, rfl, hv.symm, trivial⟩
      · rename_i hhead
        obtain ⟨u, v, hs, hr, hstart⟩ := ih h
        rw [List.isPrefixOf_iff_prefix, hs] at hhead
        exact ⟨d :: u, v, congrArg (d :: ·) hs, hr, hhead, hstart⟩
  · rintro ⟨u, v, rfl, rfl, hstart⟩
    rw [find_append_of_noStart hstart, find_append_self (cons_ne_nil _ _)]

theorem find_of_passes (hne : pat ≠ []) (h : passes pat u = true) (v : List α) :
    find pat (u ++ (pat ++ v)) = some (pat ++ v) := by
  rw [find_append_of_passes h, find_append_self hne]

variable {pat s : List α}

theorem contains_iff_infix : contains pat s = true ↔ pat <:+: s := by
  induction s with
  | nil => cases pat <;> simp [contains, find]
  | cons c s ih =>
    rw [contains, find, infix_cons_iff, ← ih, ← isPrefixOf_iff_prefix]
    by_cases hhead : pat.isPrefixOf (c :: s) = true
    · simp [hhead]
    · rw [if_neg hhead, contains, or_iff_right hhead]

theorem contains_eq_false_of_not_mem (hc : c ∈ pat) (h : c ∉ s) :
    contains pat s = false := by
  rw [← Bool.not_eq_true, contains_iff_infix]
  exact fun hpat => h (hpat.subset hc)

theorem find_eq_none_of_not_infix (h : ¬pat <:+: s) : find pat s = none := by
  rw [← contains_iff_infix, contains, Bool.not_eq_true, Option.isSome_eq_false_iff] at h
  exact Option.isNone_iff_eq_none.1 h

theorem prefix_of_find {pat s r : List α} (h : find pat s = some r) : pat <+: r ∧ r <:+ s := by
  induction s with
  | nil =>
    rw [find] at h
    split at h
    · rename_i hempty
      cases h
      exact ⟨isEmpty_iff.1 hempty ▸ prefix_rfl, suffix_rfl⟩
    · cases h
  | cons c s ih =>
    rw [find] at h
    split at h
    · rename_i hhead
      cases h
      exact ⟨List.isPrefixOf_iff_prefix.1 hhead, suffix_rfl⟩
    · exact ⟨(ih h).1, (ih h).2.trans (suffix_cons c s)⟩

theorem find_append_of_some {pat u r : List α} (h : find pat u = some r) (v : List α) :
    find pat (u ++ v) = some (r ++ v) := by
  induction u with
  | nil =>
    rw [find] at h
    split at h
    · rename_i hempty
      cases h
      rw [isEmpty_iff.1 hempty]
      cases v with
      | nil => rfl
      | cons c v => rfl
    · cases h
  | cons c u ih =>
    have hlength := ((prefix_of_find h).1.length_le).trans (prefix_of_find h).2.length_le
    rw [find] at h
    by_cases hhead : pat.isPrefixOf (c :: u) = true
    · rw [if_pos hhead] at h
      cases h
      have hmore : pat.isPrefixOf (c :: (u ++ v)) = true := by
        rw [List.isPrefixOf_iff_prefix] at hhead ⊢
        exact hhead.trans (prefix_append (c :: u) v)
      rw [cons_append, find, if_pos hmore]
    · rw [if_neg hhead] at h
      have hmore : ¬pat.isPrefixOf (c :: (u ++ v)) = true := by
        rw [List.isPrefixOf_iff_prefix] at hhead ⊢
        intro hmore
        exact hhead
          (prefix_of_prefix_length_le hmore (prefix_append (c :: u) v) hlength)
      rw [cons_append, find, if_neg hmore]
      exact ih h

theorem exists_find_append {pat : List α} (hne : pat ≠ []) (u v : List α) :
    ∃ w, find pat (u ++ (pat ++ v)) = some (w ++ (pat ++ v)) := by
  induction u with
  | nil => exact ⟨[], find_append_self hne v⟩
  | cons c u ih =>
    by_cases hhead : pat.isPrefixOf (c :: (u ++ (pat ++ v))) = true
    · exact ⟨c :: u, by rw [cons_append, find, if_pos hhead]⟩
    · obtain ⟨w, hw⟩ := ih
      exact ⟨w, by rw [cons_append, find, if_neg hhead, hw]⟩

/-- The search goes through a text without the pattern up to a symbol that the pattern has not. -/
theorem find_append_cons_of_not_mem (hc : c ∉ pat) (h : ¬pat <:+: u) (v : List α)
    : find pat (u ++ c :: v) = find pat (c :: v) :=
  find_append_of_noStart (.of_next (mt mem_of_mem_tail hc) h v)

/-! ## The part in front of the first occurrence -/

def beforeFirst (pat s : List α) : List α :=
  match find pat s with
  | none => s
  | some r => s.take (s.length - r.length)

theorem beforeFirst_eq_self (h : ¬ pat <:+: s) : beforeFirst pat s = s := by
  rw [beforeFirst, find_eq_none_of_not_infix h]

theorem beforeFirst_append_of_find {pat s r : List α} (h : find pat s = some r) :
    beforeFirst pat s ++ r = s := by
  obtain ⟨front, rfl⟩ := (prefix_of_find h).2
  have hcut : (front ++ r).length - r.length = front.length := by
    rw [length_append]
    omega
  rw [beforeFirst, h]
  dsimp only
  rw [hcut, take_left]

theorem beforeFirst_append (h : pat <:+: s) (v : List α) :
    beforeFirst pat (s ++ v) = beforeFirst pat s := by
  obtain ⟨r, hr⟩ := Option.isSome_iff_exists.1 ( contains_iff_infix.2 h)
  have hmore := beforeFirst_append_of_find (find_append_of_some hr v)
  rw [← append_assoc] at hmore
  have hsame := append_cancel_right hmore
  exact append_cancel_right (hsame.trans (beforeFirst_append_of_find hr).symm)

/-- For a pattern of two different symbols that occurs first at the end of `u ++ w` or behind it. -/
theorem beforeFirst_eq_iff {x y : α} (hxy : x ≠ y) {u w v : List α} (h : ¬ [x, y] <:+: u ++ w)
    (hpat : [x, y] <:+: u ++ w ++ v) :
    beforeFirst [x, y] (u ++ w ++ v) = u ↔ [x, y] <+: w ++ v := by
  obtain ⟨r, hr⟩ := Option.isSome_iff_exists.1 ( contains_iff_infix.2 hpat)
  have hwhole := beforeFirst_append_of_find hr
  constructor
  · intro hbefore
    rw [hbefore, append_assoc] at hwhole
    rw [← append_cancel_left hwhole]
    exact (prefix_of_find hr).1
  · intro hhead
    have hfind := find_append_of_noStart (NoStart.of_pair hxy h hhead)
    obtain ⟨t, ht⟩ := hhead
    rw [← append_assoc, hr, ← ht, find_append_self (by simp), ht] at hfind
    cases hfind
    rw [append_assoc] at hwhole ⊢
    exact append_cancel_right hwhole

/-- Skipping stops at the latest in front of a symbol that is not skipped. -/
theorem dropWhile_append_cons {β : Type*} {p : β → Bool} {c : β} (hc : p c = false) (u v : List β) :
    (u ++ c :: v).dropWhile p = u.dropWhile p ++ c :: v := by
  induction u with
  | nil =>
    rw [nil_append, dropWhile_cons, hc]
    rfl
  | cons d u ih =>
    rw [cons_append, dropWhile_cons, dropWhile_cons, ih]
    split <;> rfl

/-- Skipping goes through the first text, or stops at a symbol of it. -/
theorem dropWhile_cases {β : Type*} {p : β → Bool} {c : β} (hc : p c = false) (u v : List β) :
    (u.all p = true ∧ (u ++ c :: v).dropWhile p = c :: v) ∨
      (u.all p = false ∧ ∃ b ∈ u, ∃ w, (u ++ c :: v).dropWhile p = b :: w) := by
  rw [dropWhile_append_cons hc]
  cases hdrop : u.dropWhile p with
  | nil => exact Or.inl ⟨all_eq_true.2 (dropWhile_eq_nil_iff.1 hdrop), rfl⟩
  | cons b w =>
    refine Or.inr ⟨?_, b, (dropWhile_sublist p).subset (hdrop ▸ mem_cons_self), _, rfl⟩
    rw [← Bool.not_eq_true, all_eq_true, ← dropWhile_eq_nil_iff, hdrop]
    exact cons_ne_nil b w

/-- The search from a position back to the start; the text before the position is reversed. -/
def rfindFrom (pat : List α) : List α → List α → Option (List α)
  | [], s => if pat.isPrefixOf s then some s else none
  | c :: before, s => if pat.isPrefixOf s then some s else rfindFrom pat before (c :: s)

/-- The text from the last occurrence of the pattern that starts at the position or before. -/
def rfind (pat s : List α) (pos : Nat) : Option (List α) :=
  rfindFrom pat (s.take pos).reverse (s.drop pos)

theorem rfindFrom_append_of_noStart {pat u s : List α} (hs : ¬ pat <+: s) (h : NoStart pat u s)
    (c : α) (before : List α) :
    rfindFrom pat (u.reverse ++ c :: before) s = rfindFrom pat before (c :: (u ++ s)) := by
  -- the search meets the last symbol of `u` first
  induction u using reverseRecOn generalizing s with
  | nil =>
    rw [← isPrefixOf_iff_prefix] at hs
    rw [reverse_nil, nil_append, rfindFrom, if_neg hs, nil_append]
  | append_singleton u d ih =>
    rw [noStart_append] at h
    rw [← isPrefixOf_iff_prefix] at hs
    rw [reverse_append, reverse_singleton, singleton_append, cons_append,
      rfindFrom, if_neg hs, ih (s := d :: s) h.2.1 h.1, append_assoc, singleton_append]

theorem rfind_of_noStart {pat u s : List α} (hpat : pat <+: c :: (u ++ s)) (hs : ¬ pat <+: s)
    (h : NoStart pat u s) (before : List α) :
    rfind pat (before ++ c :: (u ++ s)) (before.length + (u.length + 1)) =
      some (c :: (u ++ s)) := by
  have hlength : before.length + (u.length + 1) = (before ++ c :: u).length := by
    rw [length_append, length_cons]
  have htext : before ++ c :: (u ++ s) = (before ++ c :: u) ++ s := by
    rw [append_assoc, cons_append]
  rw [rfind, hlength, htext, take_left, drop_left, reverse_append,
    reverse_cons, append_assoc, singleton_append, rfindFrom_append_of_noStart hs h]
  have hfound : pat.isPrefixOf (c :: (u ++ s)) = true := isPrefixOf_iff_prefix.2 hpat
  cases hbefore : before.reverse with
  | nil => rw [rfindFrom, if_pos hfound]
  | cons d before => rw [rfindFrom, if_pos hfound]

end TKNC.Lib.TextSearch
