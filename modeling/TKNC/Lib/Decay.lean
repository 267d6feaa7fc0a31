import Mathlib.Order.Monotone.Basic
import Mathlib.Tactic.Linarith
import Mathlib.Tactic.Ring

/-!
# Decay — repeated subtraction of a truncated fraction

`decay d r = r - r / d` takes a stock `r` down by the whole part of its `d`-th share.  Iterated, it
is the integer version of a geometric decay.  Rounding makes a closed form awkward, so the module
bounds the iterates from below by halving: within `d / 2` rounds at most half of the stock goes.
-/

namespace TKNC.Lib.Decay

def decay (d r : Nat) : Nat :=
  r - r / d

theorem decay_le (d r : Nat) : decay d r ≤ r :=
  Nat.sub_le r (r / d)

theorem div_add_decay (d r : Nat) : r / d + decay d r = r :=
  Nat.add_sub_cancel' (Nat.div_le_self r d)

theorem iterate_decay_antitone (d r : Nat) : Antitone fun n => (decay d)^[n] r := by
  refine antitone_nat_of_succ_le ?_
  intro n
  rw [Function.iterate_succ_apply']
  exact decay_le d _

theorem iterate_decay_le (d r n : Nat) : (decay d)^[n] r ≤ r := by
  simpa using iterate_decay_antitone d r (Nat.zero_le n)

/-! ## Lower bounds -/

theorem le_iterate_decay_add_mul (d r n : Nat) : r ≤ (decay d)^[n] r + n * (r / d) := by
  induction n with
  | zero =>
    simp
  | succ n ih =>
    -- the share of a smaller stock is no larger than the first share
    have hstep := div_add_decay d ((decay d)^[n] r)
    have hshare : (decay d)^[n] r / d ≤ r / d :=
      Nat.div_le_div_right (iterate_decay_le d r n)
    rw [Function.iterate_succ_apply', Nat.succ_mul]
    omega

/-- Within `d / 2` rounds at most half of the stock is given away. -/
theorem le_two_mul_iterate_decay {d n : Nat} (r : Nat) (hn : 2 * n ≤ d) :
    r ≤ 2 * (decay d)^[n] r := by
  have hbound := le_iterate_decay_add_mul d r n
  -- `n` times the first share is at most half of the stock
  have hgiven : 2 * (n * (r / d)) ≤ r := by
    calc
      2 * (n * (r / d)) = (2 * n) * (r / d) := by ring
      _ ≤ d * (r / d) := Nat.mul_le_mul_right _ hn
      _ ≤ r := Nat.mul_div_le r d
  omega

theorem le_two_pow_mul_iterate_decay {d n : Nat} (r m : Nat) (hn : 2 * n ≤ d) :
    r ≤ 2 ^ m * (decay d)^[m * n] r := by
  induction m with
  | zero =>
    simp
  | succ m ih =>
    -- one more block of `n` rounds halves what the first `m` blocks left
    have hhalf : (decay d)^[m * n] r ≤ 2 * (decay d)^[n] ((decay d)^[m * n] r) :=
      le_two_mul_iterate_decay _ hn
    have hsplit : (decay d)^[(m + 1) * n] r = (decay d)^[n] ((decay d)^[m * n] r) := by
      rw [← Function.iterate_add_apply]
      congr 2
      ring
    rw [hsplit]
    calc
      r ≤ 2 ^ m * (decay d)^[m * n] r := ih
      _ ≤ 2 ^ m * (2 * (decay d)^[n] ((decay d)^[m * n] r)) := Nat.mul_le_mul_left _ hhalf
      _ = 2 ^ (m + 1) * (decay d)^[n] ((decay d)^[m * n] r) := by ring

end TKNC.Lib.Decay
