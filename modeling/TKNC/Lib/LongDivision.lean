import Mathlib.Algebra.Order.Ring.Nat

/-!
# LongDivision — a quotient bit by bit

The divisor has been shifted up until it is as long as the number.  A round subtracts it if it
fits, sets a bit of the quotient then, and shifts the divisor back by one place.
-/

namespace TKNC.Lib.LongDivision

/-- The rounds that are left, with what is left of the number, the shifted divisor and the bits of
the quotient so far. -/
def loop : Nat → Nat → Nat → Nat → Nat
  | 0, _, _, quotient => quotient
  | shift + 1, num, div, quotient =>
      if div ≤ num then loop shift (num - div) (div / 2) (quotient ||| 2 ^ shift)
      else loop shift num (div / 2) quotient

theorem or_two_pow {quotient shift : Nat} (h : 2 ^ (shift + 1) ∣ quotient) :
    quotient ||| 2 ^ shift = quotient + 2 ^ shift := by
  obtain ⟨high, rfl⟩ := h
  exact (Nat.two_pow_add_eq_or_of_lt (Nat.pow_lt_pow_succ (by decide)) high).symm

/-- The rest is less than the divisor one place up, and no bit of the quotient is set that is still
to come. -/
theorem loop_eq {d shift num quotient : Nat} (hnum : num < d * 2 ^ shift)
    (hquotient : 2 ^ shift ∣ quotient) :
    loop shift num (d * 2 ^ shift / 2) quotient = quotient + num / d := by
  induction shift generalizing num quotient with
  | zero =>
    rw [Nat.pow_zero, Nat.mul_one] at hnum
    rw [loop, Nat.div_eq_of_lt hnum, Nat.add_zero]
  | succ shift ih =>
    have hdiv : d * 2 ^ (shift + 1) / 2 = d * 2 ^ shift := by
      rw [Nat.pow_succ, ← Nat.mul_assoc, Nat.mul_div_cancel _ (by decide)]
    have hlow : 2 ^ shift ∣ quotient :=
      Nat.dvd_trans (Nat.pow_dvd_pow 2 (Nat.le_succ shift)) hquotient
    have hnum' : num < d * 2 ^ shift + d * 2 ^ shift := by
      rwa [← Nat.mul_two, Nat.mul_assoc, ← Nat.pow_succ]
    rw [hdiv, loop]
    split
    · next hfits =>
        have hpos : 0 < d := Nat.pos_of_ne_zero fun hzero => by
          rw [hzero, Nat.zero_mul] at hnum
          exact Nat.not_lt_zero _ hnum
        have hrest : (num - d * 2 ^ shift) / d + 2 ^ shift = num / d := by
          rw [← Nat.add_mul_div_left _ _ hpos, Nat.sub_add_cancel hfits]
        rw [or_two_pow hquotient, ih (by omega) (Nat.dvd_add hlow (Nat.dvd_refl _)), ← hrest]
        omega
    · next hsmall => exact ih (Nat.lt_of_not_le hsmall) hlow

end TKNC.Lib.LongDivision
