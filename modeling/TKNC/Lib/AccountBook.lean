import Mathlib.Algebra.BigOperators.Group.List.Basic
import Mathlib.Tactic.Ring

/-!
# AccountBook — items that are recorded once and settled later

A book keeps every item it ever recorded, split into settled and pending ones.  The split is part of
the type: no operation of the book can lose an item or have it twice.
-/

namespace TKNC.Lib.AccountBook

variable {α : Type*}

/-! ## Totals -/

def total (value : α → Int) (l : List α) : Int :=
  (l.map value).sum

section Total

variable {value : α → Int}

@[simp] theorem total_nil : total value [] = 0 := rfl

@[simp] theorem total_cons (a : α) (l : List α) :
    total value (a :: l) = value a + total value l := by
  simp [total]

@[simp] theorem total_append (l l' : List α) :
    total value (l ++ l') = total value l + total value l' := by
  simp [total]

theorem total_perm {l l' : List α} (h : l.Perm l') : total value l = total value l' :=
  (h.map value).sum_eq

theorem total_nonneg {l : List α} (h : ∀ a ∈ l, 0 ≤ value a) : 0 ≤ total value l := by
  induction l with
  | nil => exact Int.le_refl 0
  | cons a l ih =>
    have hhead := h a List.mem_cons_self
    have hrest := ih (fun b hb => h b (List.mem_cons_of_mem _ hb))
    rw [total_cons]
    omega

/-- Replacing one item changes the total by the difference of the two values. -/
theorem total_set {l : List α} {i : Nat} {a : α} (h : l[i]? = some a) (a' : α) :
    total value (l.set i a') = total value l - value a + value a' := by
  obtain ⟨hi, rfl⟩ := List.getElem?_eq_some_iff.1 h
  simp only [total, List.map_set, List.sum_set', List.length_map, hi, dif_pos, List.getElem_map]
  omega

theorem eq_nil_of_total_eq_zero {l : List α} (hpos : ∀ a ∈ l, 0 < value a)
    (h : total value l = 0) : l = [] := by
  cases l with
  | nil => rfl
  | cons a l =>
    have hhead := hpos a List.mem_cons_self
    have hrest : 0 ≤ total value l :=
      total_nonneg fun b hb => Int.le_of_lt (hpos b (List.mem_cons_of_mem _ hb))
    rw [total_cons] at h
    omega

end Total

structure Book (α : Type*) where
  recorded : List α
  settled : List α
  pending : List α
  perm : recorded.Perm (settled ++ pending)

namespace Book

def empty : Book α :=
  { recorded := []
    settled := []
    pending := []
    perm := List.Perm.refl [] }

def record (b : Book α) (a : α) : Book α :=
  { recorded := b.recorded ++ [a]
    settled := b.settled
    pending := b.pending ++ [a]
    perm := by
      rw [← List.append_assoc]
      exact b.perm.append_right [a] }

def settle (b : Book α) (p : α → Bool) : Book α :=
  { recorded := b.recorded
    settled := b.settled ++ b.pending.filter p
    pending := b.pending.filter (fun a => !p a)
    -- a filter and its complement split the pending items
    perm := by
      rw [List.append_assoc]
      exact b.perm.trans ((List.filter_append_perm p b.pending).symm.append_left b.settled) }

variable (b : Book α)

theorem total_recorded (value : α → Int) :
    total value b.recorded = total value b.settled + total value b.pending := by
  rw [total_perm b.perm, total_append]

theorem mem_recorded_of_settled {a : α} (h : a ∈ b.settled) : a ∈ b.recorded :=
  b.perm.mem_iff.2 (List.mem_append_left _ h)

theorem mem_recorded_of_pending {a : α} (h : a ∈ b.pending) : a ∈ b.recorded :=
  b.perm.mem_iff.2 (List.mem_append_right _ h)

end Book

end TKNC.Lib.AccountBook
