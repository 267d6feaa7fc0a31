import Mathlib.Algebra.Order.Ring.Nat

/-!
# AddressBlock — blocks of addresses and the masks that test for them

A block is a network and the number of bits that are free in it.  The test by a mask compares the
bits above them (`and_mask_eq_iff`).  A mask with further bits also asks for these bits
(`and_or_eq_iff`), so that it tests for a part of the block only.
-/

namespace TKNC.Lib

open BitVec

structure AddressBlock (w : Nat) where
  network : BitVec w
  hostBits : Nat

namespace AddressBlock

variable {w : Nat}

def mem (block : AddressBlock w) (x : BitVec w) : Prop :=
  x.toNat / 2 ^ block.hostBits = block.network.toNat / 2 ^ block.hostBits

instance (block : AddressBlock w) (x : BitVec w) : Decidable (block.mem x) :=
  inferInstanceAs (Decidable (_ = _))

def mask (w k : Nat) : BitVec w :=
  BitVec.allOnes w <<< k

theorem getLsbD_and_mask (x : BitVec w) (k i : Nat) :
    (x &&& mask w k).getLsbD i = (x.getLsbD i && decide (k ≤ i)) := by
  rw [getLsbD_and, mask, getLsbD_shiftLeft, getLsbD_allOnes]
  by_cases hi : i < w
  · have hsub : i - k < w := by omega
    by_cases hk : i < k
    · simp [hk]
    · simp [hi, hk, hsub, Nat.le_of_not_lt hk]
  · rw [getLsbD_of_ge x i (by omega), Bool.false_and, Bool.false_and]

theorem mem_iff_getLsbD {block : AddressBlock w} {x : BitVec w} :
    block.mem x ↔ ∀ i, block.hostBits ≤ i → x.getLsbD i = block.network.getLsbD i := by
  unfold mem
  constructor
  · intro h i hi
    have hbit := congrArg (fun n => n.testBit (i - block.hostBits)) h
    simpa only [Nat.testBit_div_two_pow, Nat.sub_add_cancel hi, testBit_toNat] using hbit
  · intro h
    refine Nat.eq_of_testBit_eq fun i => ?_
    rw [Nat.testBit_div_two_pow, Nat.testBit_div_two_pow, testBit_toNat,
      testBit_toNat]
    exact h (i + block.hostBits) (Nat.le_add_left _ _)

/-- The test by a mask, for a network whose free bits are zero. -/
theorem and_mask_eq_iff {block : AddressBlock w} {x : BitVec w}
    (hnetwork : block.network &&& mask w block.hostBits = block.network) :
    x &&& mask w block.hostBits = block.network ↔ block.mem x := by
  rw [mem_iff_getLsbD]
  constructor
  · intro h i hi
    have hbit := congrArg (fun y => y.getLsbD i) h
    simpa only [getLsbD_and_mask, hi, decide_true, Bool.and_true] using hbit
  · intro h
    rw [← hnetwork]
    refine eq_of_getLsbD_eq fun i _ => ?_
    rw [getLsbD_and_mask, getLsbD_and_mask]
    by_cases hi : block.hostBits ≤ i
    · rw [h i hi]
    · simp [hi]

theorem or_and_self_left (m extra : BitVec w) : (m ||| extra) &&& m = m := by
  refine eq_of_getLsbD_eq fun i _ => ?_
  rw [getLsbD_and, getLsbD_or]
  cases m.getLsbD i <;> simp

theorem and_or_eq_iff {m extra n x : BitVec w} (hn : n &&& m = n) (hextra : m &&& extra = 0#w) :
    x &&& (m ||| extra) = n ↔ x &&& m = n ∧ x &&& extra = 0#w := by
  constructor
  · intro h
    constructor
    · calc
        x &&& m = x &&& (m ||| extra) &&& m := by rw [BitVec.and_assoc, or_and_self_left]
        _ = n := by rw [h, hn]
    · calc
        x &&& extra = x &&& (m ||| extra) &&& extra := by
          rw [BitVec.and_assoc, BitVec.or_comm, or_and_self_left]
        _ = n &&& m &&& extra := by rw [h, hn]
        _ = 0#w := by rw [BitVec.and_assoc, hextra, BitVec.and_zero]
  · rintro ⟨hm, he⟩
    rw [BitVec.and_or_distrib_left, hm, he, BitVec.or_zero]

end AddressBlock
end TKNC.Lib
