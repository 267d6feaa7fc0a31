import TKNC.Arith.ArithUint256
import TKNC.Lib.LongDivision

/-!
# Division — `base_uint::operator/=`

The source divides bit by bit: it shifts the divisor up until it is as long as the number, and sets
a bit of the quotient in each round in which the divisor can be subtracted.  The loop is modelled
with the position of the bit in the array of words; sums, shifts and comparisons are those of
256-bit vectors.  It is the exact quotient for every divisor but zero (`divide_eq`).
-/

namespace TKNC.Arith

open Lib Lib.CompactFloat BitVec

inductive UintError where
  | divisionByZero
  deriving DecidableEq

/-- The assignment `pn[shift / 32] |= (1U << (shift & 31))`. -/
def setBit (pn : ArithUint256) (shift : Nat) : ArithUint256 :=
  pn ||| (1#32 <<< (shift % 32)).setWidth 256 <<< (32 * (shift / 32))

def divideLoop : Nat → ArithUint256 → ArithUint256 → ArithUint256 → ArithUint256
  | 0, _, _, pn => pn
  | shift + 1, num, div, pn =>
      if num ≥ div then divideLoop shift (num - div) (div >>> 1) (setBit pn shift)
      else divideLoop shift num (div >>> 1) pn

def divide (num div : ArithUint256) : Except UintError ArithUint256 :=
  let numBits := bitsLoop num 8
  let divBits := bitsLoop div 8
  if divBits = 0 then .error .divisionByZero
  else if divBits > numBits then .ok 0#256
  else
    let shift := numBits - divBits
    .ok (divideLoop (shift + 1) num (div <<< shift) 0#256)

theorem toNat_setBit {pn : ArithUint256} {shift : Nat} (h : shift < 256) :
    (setBit pn shift).toNat = pn.toNat ||| 2 ^ shift := by
  have hword : 2 ^ (shift % 32) < 2 ^ 32 :=
    Nat.pow_lt_pow_right (by decide) (Nat.mod_lt shift (by decide))
  have hbit : ((1#32 <<< (shift % 32)).setWidth 256).toNat = 2 ^ (shift % 32) := by
    rw [toNat_setWidth, toNat_shiftLeft, toNat_ofNat, Nat.shiftLeft_eq,
      Nat.one_mod_two_pow_eq_one.2 (by decide), Nat.one_mul, Nat.mod_eq_of_lt hword,
      Nat.mod_eq_of_lt (lt_trans hword (by decide))]
  have hshift : 2 ^ (shift % 32) * 2 ^ (32 * (shift / 32)) = 2 ^ shift := by
    rw [← Nat.pow_add, Nat.mod_add_div]
  rw [setBit, toNat_or, toNat_shiftLeft, hbit, Nat.shiftLeft_eq, hshift,
    Nat.mod_eq_of_lt (Nat.pow_lt_pow_right (by decide) h)]

theorem toNat_divideLoop {rounds : Nat} (hrounds : rounds ≤ 256) (num div pn : ArithUint256) :
    (divideLoop rounds num div pn).toNat =
      LongDivision.loop rounds num.toNat div.toNat pn.toNat := by
  induction rounds generalizing num div pn with
  | zero => rfl
  | succ shift ih =>
    have hhalf : (div >>> 1).toNat = div.toNat / 2 := by
      rw [toNat_ushiftRight, Nat.shiftRight_eq_div_pow, Nat.pow_one]
    rw [divideLoop, LongDivision.loop]
    by_cases hfits : div ≤ num
    · rw [if_pos hfits, if_pos (le_def.1 hfits), ih (by omega), hhalf,
        toNat_setBit (by omega), toNat_sub_of_le hfits]
    · rw [if_neg hfits, if_neg (mt le_def.2 hfits), ih (by omega), hhalf]

theorem divide_eq {num div : ArithUint256} (hne : div ≠ 0#256) :
    divide num div = .ok (num / div) := by
  have hpos : div.toNat ≠ 0 := fun hzero => hne (eq_of_toNat_eq hzero)
  obtain ⟨b, hb⟩ : ∃ b, bits div.toNat = b + 1 := ⟨div.toNat.log2, if_neg hpos⟩
  have hlow : 2 ^ b ≤ div.toNat := two_pow_le_of_bits hb
  have hhigh : div.toNat < 2 ^ (b + 1) := hb ▸ lt_two_pow_bits div.toNat
  have hnum : num.toNat < 2 ^ bits num.toNat := lt_two_pow_bits num.toNat
  have hlong : bits num.toNat ≤ 256 := bits_le num.isLt
  have hbits : ∀ x : ArithUint256, bitsLoop x 8 = bits x.toNat := fun x => bitsLoop_eq x.isLt
  rw [divide, hbits, hbits, hb]
  dsimp only
  rw [if_neg (Nat.succ_ne_zero b)]
  split
  · next hlonger =>
      have hpow : 2 ^ bits num.toNat ≤ 2 ^ b := Nat.pow_le_pow_right (by decide) (by omega)
      refine congrArg Except.ok (eq_of_toNat_eq ?_)
      rw [toNat_udiv, Nat.div_eq_of_lt (by omega)]
      rfl
  · next hshorter =>
      obtain ⟨shift, hshift⟩ : ∃ shift, bits num.toNat = b + 1 + shift :=
        ⟨bits num.toNat - (b + 1), by omega⟩
      have hfits : div.toNat * 2 ^ shift < 2 ^ 256 := by
        have hle : 2 ^ bits num.toNat ≤ 2 ^ 256 := Nat.pow_le_pow_right (by decide) hlong
        refine lt_of_lt_of_le ?_ hle
        rw [hshift, Nat.pow_add]
        exact Nat.mul_lt_mul_of_pos_right hhigh (Nat.two_pow_pos shift)
      have hstart : num.toNat < div.toNat * 2 ^ (shift + 1) := by
        refine lt_of_lt_of_le hnum ?_
        rw [hshift, show b + 1 + shift = b + (shift + 1) by omega, Nat.pow_add]
        exact Nat.mul_le_mul_right _ hlow
      have hdiv : div.toNat * 2 ^ (shift + 1) / 2 = div.toNat * 2 ^ shift := by
        rw [Nat.pow_succ, ← Nat.mul_assoc, Nat.mul_div_cancel _ (by decide)]
      have hloop := LongDivision.loop_eq hstart (Nat.dvd_zero (2 ^ (shift + 1)))
      rw [hdiv, Nat.zero_add] at hloop
      refine congrArg Except.ok (eq_of_toNat_eq ?_)
      rw [hshift, Nat.add_sub_cancel_left, toNat_divideLoop (by omega), toNat_shiftLeft,
        Nat.shiftLeft_eq, Nat.mod_eq_of_lt hfits, toNat_udiv]
      exact hloop

end TKNC.Arith
