import Mathlib.Data.List.Basic

/-!
# FixedWindow — limits that count in windows of fixed length

A window starts at a hit and lasts for `length`; the first hit behind it starts the next window.  A
hit is accepted while the count of its window is within the limit.  Windows begin wherever the hits
fall, so an interval of the same length can overlap two of them, but not three
(`within_accepted_le`).
-/

namespace TKNC.Lib.FixedWindow

open List

structure Window where
  count : Int
  start : Int

namespace Window

/-- The window that a hit falls into: a new one behind the end of the old. -/
def renew (length now : Int) (w : Window) : Window :=
  if now - w.start > length then ⟨0, now⟩ else w

def hit (length now : Int) (w : Window) : Window :=
  { renew length now w with count := (renew length now w).count + 1 }

theorem hit_of_le {length now : Int} {w : Window} (h : now ≤ w.start + length) :
    hit length now w = ⟨w.count + 1, w.start⟩ := by
  rw [hit, renew, if_neg (by omega)]

theorem hit_of_lt {length now : Int} {w : Window} (h : w.start + length < now) :
    hit length now w = ⟨1, now⟩ := by
  rw [hit, renew, if_pos (by omega)]
  rfl

end Window

open Window

variable {length limit : Int}

def accepted (length limit : Int) : Window → List Int → List Int
  | _, [] => []
  | w, now :: times =>
      (if (hit length now w).count > limit then [] else [now]) ++
        accepted length limit (hit length now w) times

def within (first last : Int) (times : List Int) : Nat :=
  times.countP fun x => decide (first ≤ x) && decide (x ≤ last)

theorem within_append (first last : Int) (u v : List Int) :
    within first last (u ++ v) = within first last u + within first last v :=
  countP_append

variable {times : List Int}

theorem within_eq_zero {first last : Int} (h : ∀ x ∈ times, last < x) :
    within first last times = 0 := by
  rw [within, countP_eq_zero]
  intro x hx
  have hlast := h x hx
  simp
  omega

theorem within_singleton_le (first last now : Int) : within first last [now] ≤ 1 :=
  countP_le_length

theorem within_singleton_of_lt {first now : Int} (h : now < first) (last : Int) :
    within first last [now] = 0 := by
  rw [within, countP_singleton, decide_eq_false (by omega)]
  rfl

theorem within_accepted_cons (first last now : Int) (w : Window) (times : List Int) :
    within first last (accepted length limit w (now :: times)) =
      (if (hit length now w).count > limit then 0 else within first last [now]) +
        within first last (accepted length limit (hit length now w) times) := by
  rw [accepted, within_append]
  split <;> rfl

variable {w : Window}

theorem mem_of_mem_accepted {x : Int} (h : x ∈ accepted length limit w times) : x ∈ times := by
  induction times generalizing w with
  | nil => cases h
  | cons now times ih =>
    rcases mem_append.1 h with hnow | hrest
    · split at hnow
      · cases hnow
      · rw [mem_singleton.1 hnow]
        exact mem_cons_self
    · exact mem_cons_of_mem _ (ih hrest)

theorem within_window_le (hsorted : times.Pairwise (· ≤ ·)) (limit first : Int) {last : Int}
    (hlast : last ≤ w.start + length) :
    (within first last (accepted length limit w times) : Int) ≤ max 0 (limit - w.count) := by
  induction times generalizing w with
  | nil => exact Int.le_max_left _ _
  | cons now times ih =>
    rw [pairwise_cons] at hsorted
    by_cases hnow : now ≤ w.start + length
    · have hrest := ih hsorted.2 (w := hit length now w) (by rw [hit_of_le hnow]; exact hlast)
      have hone := within_singleton_le first last now
      rw [within_accepted_cons]
      rw [hit_of_le hnow] at hrest ⊢
      dsimp only at hrest ⊢
      split <;> omega
    · -- a new window begins behind the interval
      have hlate : ∀ x ∈ accepted length limit w (now :: times), last < x := by
        intro x hx
        rcases mem_cons.1 (mem_of_mem_accepted hx) with rfl | hx
        · omega
        · have hle := hsorted.1 x hx
          omega
      rw [within_eq_zero hlate]
      exact Int.le_max_left _ _

/-- An interval that begins before the end of the window ends before the end of the next one. -/
theorem within_two_windows_le (hsorted : times.Pairwise (· ≤ ·)) (hlimit : 1 ≤ limit) {first : Int}
    (hfirst : first ≤ w.start + length) :
    (within first (first + length) (accepted length limit w times) : Int) ≤
      max 0 (limit - w.count) + limit := by
  induction times generalizing w with
  | nil =>
    have hnone : within first (first + length) (accepted length limit w []) = 0 := rfl
    omega
  | cons now times ih =>
    rw [pairwise_cons] at hsorted
    have hone := within_singleton_le first (first + length) now
    rw [within_accepted_cons]
    by_cases hnow : now ≤ w.start + length
    · have hrest := ih hsorted.2 (w := hit length now w) (by rw [hit_of_le hnow]; exact hfirst)
      rw [hit_of_le hnow] at hrest ⊢
      dsimp only at hrest ⊢
      split <;> omega
    · have hhit : hit length now w = ⟨1, now⟩ := hit_of_lt (by omega)
      have hend : first + length ≤ (⟨1, now⟩ : Window).start + length := by
        dsimp only
        omega
      have hrest := within_window_le hsorted.2 limit first hend
      rw [hhit]
      dsimp only at hrest ⊢
      split <;> omega

theorem within_accepted_le (hsorted : times.Pairwise (· ≤ ·)) (hlength : 0 ≤ length)
    (hlimit : 1 ≤ limit) (first : Int) (hcount : 0 ≤ w.count) :
    (within first (first + length) (accepted length limit w times) : Int) ≤ 2 * limit := by
  by_cases hfirst : first ≤ w.start + length
  · have htwo := within_two_windows_le hsorted hlimit hfirst
    omega
  -- the interval begins behind this window: pass over the hits up to the window it begins in
  induction times generalizing w with
  | nil =>
    have hnone : within first (first + length) (accepted length limit w []) = 0 := rfl
    omega
  | cons now times ih =>
    rw [pairwise_cons] at hsorted
    have hone := within_singleton_le first (first + length) now
    rw [within_accepted_cons]
    by_cases hnow : now ≤ w.start + length
    · have hrest := ih hsorted.2 (w := hit length now w)
        (by rw [hit_of_le hnow]; dsimp only; omega) (by rw [hit_of_le hnow]; exact hfirst)
      have hbefore := within_singleton_of_lt (by omega : now < first) (first + length)
      split <;> omega
    · have hhit : hit length now w = ⟨1, now⟩ := hit_of_lt (by omega)
      rw [hhit]
      dsimp only
      by_cases hnext : first ≤ now + length
      · have hrest := within_two_windows_le (w := ⟨1, now⟩) hsorted.2 hlimit hnext
        dsimp only at hrest
        split <;> omega
      · have hrest := ih hsorted.2 (w := ⟨1, now⟩) Int.one_nonneg hnext
        have hbefore := within_singleton_of_lt (by omega : now < first) (first + length)
        split <;> omega

end TKNC.Lib.FixedWindow
