import Mathlib.Data.Nat.Bitwise
import Mathlib.Tactic.NormNum
import TKNC.Lib.CompactFloat

/-!
# ArithUint256 — 256-bit targets and their compact encoding

`arith_uint256` computes modulo `2 ^ 256`; its values are 256-bit vectors here.  The compact format
packs a size in bytes (top eight bits), a sign (bit 23) and a 23-bit mantissa into a `uint32_t`.

`getCompact` returns `none` where an assertion of the source would fail.  The main result is that
decoding an encoded target gives its leading bytes, `CompactFloat.trunc`.
-/

namespace TKNC.Arith

open Lib.CompactFloat BitVec

abbrev ArithUint256 : Type := BitVec 256

structure Decoded where
  value : ArithUint256
  fNegative : Bool
  fOverflow : Bool
  deriving DecidableEq, Repr

def setCompact (nCompact : BitVec 32) : Decoded :=
  let nSize := (nCompact >>> 24).toNat
  let nWord := nCompact &&& 0x007fffff#32
  -- For short sizes the source shifts `nWord` itself, which the flags below then see.
  let nWord := if nSize ≤ 3 then nWord >>> (8 * (3 - nSize)) else nWord
  { value :=
      if nSize ≤ 3 then nWord.setWidth 256 else nWord.setWidth 256 <<< (8 * (nSize - 3))
    fNegative := nWord != 0#32 && (nCompact &&& 0x00800000#32) != 0#32
    fOverflow :=
      nWord != 0#32 &&
        (decide (nSize > 34) || (decide (nWord > 0xff#32) && decide (nSize > 33)) ||
          (decide (nWord > 0xffff#32) && decide (nSize > 32))) }

def bitsOf (x : ArithUint256) : Nat :=
  bits x.toNat

def getLow64 (x : ArithUint256) : BitVec 64 :=
  x.setWidth 64

def sizeOf (x : ArithUint256) : Nat :=
  (bitsOf x + 7) / 8

def leadingBytes (x : ArithUint256) : BitVec 32 :=
  if sizeOf x ≤ 3 then
    (getLow64 x <<< (8 * (3 - sizeOf x))).setWidth 32
  else
    (getLow64 (x >>> (8 * (sizeOf x - 3)))).setWidth 32

def getCompact (x : ArithUint256) (fNegative : Bool) : Option (BitVec 32) :=
  let nSize := sizeOf x
  let nCompact := leadingBytes x
  -- The 0x00800000 bit denotes the sign: if it is set, drop one more byte.
  let full := (nCompact &&& 0x00800000#32) != 0#32
  let nCompact := if full then nCompact >>> 8 else nCompact
  let nSize := if full then nSize + 1 else nSize
  if nCompact &&& ~~~0x007fffff#32 = 0#32 ∧ nSize < 256 then
    let nCompact := nCompact ||| BitVec.ofNat 32 (nSize <<< 24)
    some (if fNegative && (nCompact &&& 0x007fffff#32) != 0#32 then nCompact ||| 0x00800000#32 else nCompact)
  else
    none

example : getCompact 0x12345600#256 false = some 0x04123456#32 := by decide

example : (setCompact 0x05009234#32).value = 0x92340000#256 := by decide

/-! ## The highest bit -/

def limb (x : ArithUint256) (pos : Nat) : BitVec 32 :=
  (x >>> (32 * pos)).setWidth 32

def limbBits (word : BitVec 32) : Nat → Nat
  | 0 => 1
  | nbits + 1 =>
      if word &&& (1#32 <<< (nbits + 1)) ≠ 0#32 then nbits + 2 else limbBits word nbits

/-- The outer loop of `bits()`, over the words below `pos`. -/
def bitsLoop (x : ArithUint256) : Nat → Nat
  | 0 => 0
  | pos + 1 =>
      if limb x pos ≠ 0#32 then 32 * pos + limbBits (limb x pos) 31 else bitsLoop x pos

example : bitsLoop 0x12345600#256 8 = 29 := by decide

theorem limbBits_eq {word : BitVec 32} {nbits : Nat} (hne : word ≠ 0#32) (hbits : nbits < 32)
    (hlt : word.toNat < 2 ^ (nbits + 1)) : limbBits word nbits = bits word.toNat := by
  induction nbits with
  | zero =>
    have hone : word.toNat = 1 := by
      have hpos : word.toNat ≠ 0 := fun h => hne (eq_of_toNat_eq h)
      omega
    rw [limbBits, hone]
    decide
  | succ nbits ih =>
    have htest : word &&& (1#32 <<< (nbits + 1)) ≠ 0#32 ↔
        word.toNat.testBit (nbits + 1) = true := by
      rw [ne_eq, ← toNat_inj, toNat_and, toNat_shiftLeft, Nat.shiftLeft_eq,
        toNat_ofNat, Nat.one_mod_two_pow_eq_one.2 (by decide), Nat.one_mul,
        Nat.mod_eq_of_lt (Nat.pow_lt_pow_right (by decide) hbits), Nat.and_two_pow]
      cases word.toNat.testBit (nbits + 1) <;> simp
    have hbit : word.toNat.testBit (nbits + 1) = true ↔ 2 ^ (nbits + 1) ≤ word.toNat := by
      constructor
      · exact Nat.ge_two_pow_of_testBit
      · intro hle
        rw [Nat.testBit_eq_decide_div_mod_eq, decide_eq_true_iff]
        have hquot : word.toNat / 2 ^ (nbits + 1) = 1 := by
          apply Nat.div_eq_of_lt_le
          · simpa using hle
          · rwa [← Nat.pow_succ']
        rw [hquot]
    rw [limbBits]
    split
    · next hset => exact (bits_eq_succ (hbit.1 (htest.1 hset)) hlt).symm
    · next hclear =>
        apply ih (by omega)
        exact Nat.lt_of_not_le fun hle => hclear (htest.2 (hbit.2 hle))

theorem bitsLoop_eq {x : ArithUint256} {pos : Nat} (hlt : x.toNat < 2 ^ (32 * pos)) :
    bitsLoop x pos = bitsOf x := by
  induction pos with
  | zero =>
    have hzero : x.toNat = 0 := by simpa using hlt
    rw [bitsLoop, bitsOf, hzero]
    decide
  | succ pos ih =>
    have hquot : x.toNat / 2 ^ (32 * pos) < 2 ^ 32 := by
      rw [Nat.div_lt_iff_lt_mul (Nat.two_pow_pos _), ← Nat.pow_add]
      rwa [Nat.mul_succ, Nat.add_comm] at hlt
    have hlimb : (limb x pos).toNat = x.toNat / 2 ^ (32 * pos) := by
      rw [limb, toNat_setWidth, toNat_ushiftRight, Nat.shiftRight_eq_div_pow,
        Nat.mod_eq_of_lt hquot]
    rw [bitsLoop]
    split
    · next hne =>
        have hquotNe : x.toNat / 2 ^ (32 * pos) ≠ 0 := by
          rw [← hlimb]
          exact fun h => hne (eq_of_toNat_eq h)
        rw [limbBits_eq hne (by decide) (limb x pos).isLt, hlimb, bitsOf, bits_div hquotNe]
    · next hzero =>
        apply ih
        rw [← Nat.div_eq_zero_iff_lt (Nat.two_pow_pos _), ← hlimb, not_not.1 hzero]
        rfl

theorem toNat_ushiftRight_24 (c : BitVec 32) : (c >>> 24).toNat = c.toNat / 2 ^ 24 := by
  rw [toNat_ushiftRight, Nat.shiftRight_eq_div_pow]

theorem toNat_and_mantissa (c : BitVec 32) : (c &&& 0x007fffff#32).toNat = c.toNat % 2 ^ 23 := by
  rw [toNat_and]
  exact Nat.and_two_pow_sub_one_eq_mod c.toNat 23

variable {c : BitVec 32}

theorem and_sign_ne_zero_iff (h : c.toNat < 2 ^ 24) :
    ((c &&& 0x00800000#32) != 0#32) = true ↔ 2 ^ 23 ≤ c.toNat := by
  have hbit : (c &&& 0x00800000#32).toNat = (c.toNat.testBit 23).toNat * 2 ^ 23 := by
    rw [toNat_and]
    exact Nat.and_two_pow c.toNat 23
  have htest : c.toNat.testBit 23 = true ↔ 2 ^ 23 ≤ c.toNat := by
    rw [Nat.testBit_eq_decide_div_mod_eq, decide_eq_true_iff]
    omega
  rw [bne_iff_ne, ne_eq, ← toNat_inj, hbit, ← htest]
  cases c.toNat.testBit 23 <;> simp

/-- Decoding in numbers: shift the mantissa by the size, modulo `2 ^ 256`. -/
theorem setCompact_value_toNat (c : BitVec 32) :
    (setCompact c).value.toNat = decode (c.toNat / 2 ^ 24) (c.toNat % 2 ^ 23) % 2 ^ 256 := by
  have hword : c.toNat % 2 ^ 23 < 2 ^ 256 :=
    lt_trans (Nat.mod_lt _ (by norm_num)) (by norm_num)
  simp only [setCompact, toNat_ushiftRight_24, decode]
  split
  · rw [toNat_setWidth, toNat_ushiftRight, toNat_and_mantissa,
      Nat.shiftRight_eq_div_pow, pow_256]
  · rw [toNat_shiftLeft, toNat_setWidth, toNat_and_mantissa,
      Nat.mod_eq_of_lt hword, Nat.shiftLeft_eq, pow_256]

/-! ## Decoding an encoded target -/

theorem sizeOf_eq (x : ArithUint256) : sizeOf x = byteLength x.toNat := rfl

theorem leadingBytes_toNat (x : ArithUint256) : (leadingBytes x).toNat = leading x.toNat := by
  have hlead := leading_lt x.toNat
  have hlen := lt_pow_byteLength x.toNat
  unfold leadingBytes leading at *
  rw [sizeOf_eq]
  split
  · next h =>
      rw [if_pos h] at hlead
      -- at most three bytes: the low word holds the whole number
      have hx : x.toNat < 2 ^ 64 := by
        have hpow : 256 ^ byteLength x.toNat ≤ 256 ^ 3 := Nat.pow_le_pow_right (by norm_num) h
        norm_num at hpow ⊢
        omega
      have hprod : x.toNat * 2 ^ (8 * (3 - byteLength x.toNat)) < 2 ^ 24 := by
        rw [← pow_256]
        exact hlead
      rw [toNat_setWidth, toNat_shiftLeft, getLow64, toNat_setWidth,
        Nat.mod_eq_of_lt hx, Nat.shiftLeft_eq, pow_256,
        Nat.mod_eq_of_lt (lt_trans hprod (by norm_num)), Nat.mod_eq_of_lt (lt_trans hprod (by norm_num))]
  · next h =>
      rw [if_neg h] at hlead
      -- more than three bytes: after the shift three are left
      have hquot : x.toNat / 2 ^ (8 * (byteLength x.toNat - 3)) < 2 ^ 24 := by
        rw [← pow_256]
        exact hlead
      rw [getLow64, toNat_setWidth, toNat_setWidth, toNat_ushiftRight,
        Nat.shiftRight_eq_div_pow, pow_256, Nat.mod_eq_of_lt (lt_trans hquot (by norm_num)),
        Nat.mod_eq_of_lt (lt_trans hquot (by norm_num))]

theorem byteLength_le (x : ArithUint256) : byteLength x.toNat ≤ 32 := by
  by_contra hlong
  have hpow : 256 ^ 32 ≤ 256 ^ (byteLength x.toNat - 1) :=
    Nat.pow_le_pow_right (by norm_num) (by omega)
  have hlow : 256 ^ (byteLength x.toNat - 1) ≤ x.toNat := pow_le_of_byteLength (by omega)
  have hlt := x.isLt
  norm_num at hpow hlt
  omega

theorem encodedSize_le (x : ArithUint256) : encodedSize x.toNat ≤ 33 := by
  have hlen := byteLength_le x
  unfold encodedSize
  split <;> omega

theorem and_not_mantissa (h : c.toNat < 2 ^ 23) : c &&& ~~~0x007fffff#32 = 0#32 := by
  have hkeep : c &&& 0x007fffff#32 = c := by
    rw [← BitVec.toNat_inj, toNat_and_mantissa, Nat.mod_eq_of_lt h]
  rw [← hkeep, BitVec.and_assoc]
  have hnone : 0x007fffff#32 &&& ~~~0x007fffff#32 = 0#32 := by decide
  rw [hnone, BitVec.and_zero]

/-- No assertion of `GetCompact` fails, and the word holds the size over the mantissa. -/
theorem getCompact_eq (x : ArithUint256) :
    ∃ c, getCompact x false = some c ∧
      c.toNat = encodedSize x.toNat * 2 ^ 24 + encodedWord x.toNat := by
  have hword := encodedWord_lt x.toNat
  have hsize := encodedSize_le x
  have hlead := leadingBytes_toNat x
  have hlt := leading_lt x.toNat
  have hsign := and_sign_ne_zero_iff (c := leadingBytes x) (by omega)
  -- the mantissa and the size after the sign bit has been cleared
  have hc₁ : (if (leadingBytes x &&& 0x00800000#32) != 0#32 then leadingBytes x >>> 8
      else leadingBytes x).toNat = encodedWord x.toNat := by
    unfold encodedWord
    split
    · next hfull =>
        have hge := hsign.1 hfull
        rw [if_neg (by omega), BitVec.toNat_ushiftRight, hlead, Nat.shiftRight_eq_div_pow]
    · next hfull =>
        have hnge : ¬ 2 ^ 23 ≤ (leadingBytes x).toNat := fun hge => hfull (hsign.2 hge)
        rw [if_pos (by omega), hlead]
  have hsize₁ : (if (leadingBytes x &&& 0x00800000#32) != 0#32 then sizeOf x + 1 else sizeOf x) =
      encodedSize x.toNat := by
    unfold encodedSize
    rw [sizeOf_eq]
    split
    · next hfull =>
        have hge := hsign.1 hfull
        rw [if_neg (by omega)]
    · next hfull =>
        have hnge : ¬ 2 ^ 23 ≤ (leadingBytes x).toNat := fun hge => hfull (hsign.2 hge)
        rw [if_pos (by omega)]
  have hassert := and_not_mantissa (hc₁ ▸ hword)
  refine ⟨(if (leadingBytes x &&& 0x00800000#32) != 0#32 then leadingBytes x >>> 8
    else leadingBytes x) ||| BitVec.ofNat 32 (encodedSize x.toNat <<< 24), ?_, ?_⟩
  · simp only [getCompact, hsize₁]
    rw [if_pos ⟨hassert, by omega⟩]
    simp only [Bool.false_and, Bool.false_eq_true, if_false]
  · -- the size lies above the mantissa, so the bitwise or is a sum
    have hshift : encodedSize x.toNat <<< 24 < 2 ^ 32 := by
      rw [Nat.shiftLeft_eq]
      omega
    rw [BitVec.toNat_or, hc₁, BitVec.toNat_ofNat, Nat.mod_eq_of_lt hshift, Nat.or_comm,
      ← Nat.shiftLeft_add_eq_or_of_lt (lt_trans hword (by norm_num)), Nat.shiftLeft_eq]

theorem setCompact_getCompact {x : ArithUint256} (h : getCompact x false = some c) :
    (setCompact c).value.toNat = trunc x.toNat := by
  rcases getCompact_eq x with ⟨c', hc', hval⟩
  rw [hc', Option.some.injEq] at h
  subst h
  have hword := encodedWord_lt x.toNat
  have hsizeField : c'.toNat / 2 ^ 24 = encodedSize x.toNat := by omega
  have hwordField : c'.toNat % 2 ^ 23 = encodedWord x.toNat := by omega
  have hlt : trunc x.toNat < 2 ^ 256 := lt_of_le_of_lt (trunc_le _) x.isLt
  rw [setCompact_value_toNat, hsizeField, hwordField, decode_encoded, Nat.mod_eq_of_lt hlt]

end TKNC.Arith
