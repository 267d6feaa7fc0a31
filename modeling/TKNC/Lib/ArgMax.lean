import Mathlib.Data.List.MinMax

/-!
# ArgMax — a scan for the best that starts from a floor

A loop keeps the first element whose score exceeds the best score so far, beginning with a score
that no element has.  It finds the maximum of the elements above that floor, and no others
(`scan_eq_argmax`).
-/

namespace TKNC.Lib.ArgMax

open List

variable {α β : Type*} [LinearOrder β] (score : α → β) (floor : β)

def keepBetter (best : Option α × β) (x : α) : Option α × β :=
  if score x > best.2 then (some x, score x) else best

def scan (xs : List α) : Option α × β :=
  xs.foldl (keepBetter score) (none, floor)

def above (xs : List α) : List α :=
  xs.filter fun x => decide (floor < score x)

theorem scan_concat (xs : List α) (x : α) :
    scan score floor (xs ++ [x]) = keepBetter score (scan score floor xs) x := by
  rw [scan, foldl_concat, scan]

theorem above_concat (xs : List α) (x : α) :
    above score floor (xs ++ [x]) =
      above score floor xs ++ if floor < score x then [x] else [] := by
  rw [above, filter_append, filter_singleton, above]
  simp

theorem scan_eq_argmax (xs : List α) :
    scan score floor xs =
      (argmax score (above score floor xs),
        (argmax score (above score floor xs)).elim floor score) := by
  -- The loop goes from the front, so the last element is the one to take off.
  induction xs using reverseRecOn with
  | nil => rfl
  | append_singleton xs x ih =>
    rw [scan_concat, ih, keepBetter, above_concat]
    by_cases hfloor : floor < score x
    · rw [if_pos hfloor, argmax_concat]
      cases argmax score (above score floor xs) with
      | none => simp [hfloor]
      | some best =>
        by_cases hbest : score best < score x
        · simp [hbest]
        · simp [hbest]
    · rw [if_neg hfloor, append_nil]
      refine if_neg ?_
      cases hbest : argmax score (above score floor xs) with
      | none => exact hfloor
      | some best =>
        have habove : floor < score best :=
          of_decide_eq_true (mem_filter.1 (argmax_mem hbest)).2
        exact fun h => hfloor (lt_trans habove h)

variable {score floor} {xs : List α} {x : α}

theorem mem_above : x ∈ above score floor xs ↔ x ∈ xs ∧ floor < score x := by
  simp [above]

theorem mem_of_scan (h : (scan score floor xs).1 = some x) : x ∈ xs := by
  rw [scan_eq_argmax] at h
  exact (mem_above.1 (argmax_mem h)).1

theorem le_of_scan (h : (scan score floor xs).1 = some x) {y : α} (hy : y ∈ xs) :
    score y ≤ score x := by
  rw [scan_eq_argmax] at h
  by_cases hfloor : floor < score y
  · exact le_of_mem_argmax (mem_above.2 ⟨hy, hfloor⟩) h
  · have hx : floor < score x := (mem_above.1 (argmax_mem h)).2
    exact le_trans (not_lt.1 hfloor) (le_of_lt hx)

theorem scan_eq_none_iff : (scan score floor xs).1 = none ↔ ∀ x ∈ xs, score x ≤ floor := by
  rw [scan_eq_argmax, argmax_eq_none, above, filter_eq_nil_iff]
  simp

/-- The scan is a search for a maximum exactly if it has nothing to find or something above the
floor. -/
theorem scan_complete_iff :
    ((∀ x, (scan score floor xs).1 = some x → x ∈ xs ∧ ∀ y ∈ xs, score y ≤ score x) ∧
      ((scan score floor xs).1 = none → xs = [])) ↔ xs = [] ∨ ∃ x ∈ xs, floor < score x := by
  constructor
  · rintro ⟨-, hnone⟩
    by_cases hlow : ∀ x ∈ xs, score x ≤ floor
    · exact Or.inl (hnone (scan_eq_none_iff.2 hlow))
    · push Not at hlow
      exact Or.inr hlow
  · intro h
    refine ⟨fun x hx => ⟨mem_of_scan hx, fun y hy => le_of_scan hx hy⟩, ?_⟩
    intro hnone
    rcases h with hnil | ⟨x, hx, hfloor⟩
    · exact hnil
    · exact absurd (scan_eq_none_iff.1 hnone x hx) (not_le.2 hfloor)

end TKNC.Lib.ArgMax
