import TKNC.Arith.Division
import TKNC.Primitives.BlockHeader

/-!
# BlockProof — the work that a target stands for

A block with the target `t` takes `2 ^ 256 / (t + 1)` hashes on average.  `GetBitsProof` computes
this number without `2 ^ 256`, as `~t / (t + 1) + 1`, with the division loop of `base_uint`.  The
chain of headers is summed up with the quotient in place of the loop (`getBitsProof_eq`).
-/

namespace TKNC.Chain

open Arith Nat BitVec

def getBitsProof (bits : BitVec 32) : Except UintError ArithUint256 :=
  let bnTarget := setCompact bits
  if bnTarget.fNegative ∨ bnTarget.fOverflow ∨ bnTarget.value = 0 then .ok 0
  else if bnTarget.value ≥ ~~~0#256 then .ok 1
  else do
    let quotient ← divide (~~~bnTarget.value) (bnTarget.value + 1)
    let result := quotient + 1
    return if result = 0 then 1 else result

/-- The divisor does not wrap around to zero, so the division does not fail. -/
theorem getBitsProof_eq (bits : BitVec 32) :
    getBitsProof bits = .ok (Primitives.getBitsProof bits) := by
  rw [getBitsProof, Primitives.getBitsProof]
  dsimp only
  split
  · rfl
  · split
    · rfl
    · next hsmall =>
        have hne : (setCompact bits).value + 1 ≠ 0#256 := by
          intro hzero
          have hwrap := congrArg BitVec.toNat hzero
          have hle : ¬2 ^ 256 - 1 ≤ (setCompact bits).value.toNat := fun hle =>
            hsmall (BitVec.le_def.2 hle)
          have hlt := (setCompact bits).value.isLt
          rw [BitVec.toNat_add] at hwrap
          change ((setCompact bits).value.toNat + 1) % 2 ^ 256 = 0 at hwrap
          omega
        rw [divide_eq hne]
        rfl

/-! ## The number of hashes -/

/-- The word decodes to a target that is neither negative nor too large nor zero. -/
def IsTarget (bits : BitVec 32) : Prop :=
  (setCompact bits).fNegative = false ∧ (setCompact bits).fOverflow = false ∧
    (setCompact bits).value ≠ 0

instance (bits : BitVec 32) : Decidable (IsTarget bits) :=
  inferInstanceAs (Decidable (_ ∧ _ ∧ _))

theorem not_isTarget_iff (bits : BitVec 32) :
    ¬ IsTarget bits ↔ (setCompact bits).fNegative = true ∨ (setCompact bits).fOverflow = true ∨
      (setCompact bits).value = 0 := by
  rw [IsTarget, not_and_or, not_and_or, Bool.not_eq_false, Bool.not_eq_false, not_ne_iff]

def target (bits : BitVec 32) : Nat :=
  (setCompact bits).value.toNat

def expectedHashes (bits : BitVec 32) : Nat :=
  2 ^ 256 / (target bits + 1)

variable {bits : BitVec 32}

theorem IsTarget.target_pos (h : IsTarget bits) : 0 < target bits :=
  pos_of_ne_zero fun hzero => h.2.2 (eq_of_toNat_eq hzero)

theorem target_lt (bits : BitVec 32) : target bits < 2 ^ 256 :=
  (setCompact bits).value.isLt

/-- One is left over where `2 ^ 256` is divided as `~t + (t + 1)`. -/
theorem complement_div_succ {m t : Nat} (h : t < m) :
    (m - (t + 1)) / (t + 1) + 1 = m / (t + 1) := by
  rw [← Nat.add_div_right _ (Nat.succ_pos t), Nat.sub_add_cancel h]

theorem expectedHashes_pos (bits : BitVec 32) : 0 < expectedHashes bits :=
  div_pos (target_lt bits) (succ_pos _)

theorem expectedHashes_anti {bits bits' : BitVec 32} (h : target bits ≤ target bits') :
    expectedHashes bits' ≤ expectedHashes bits :=
  div_le_div_left (succ_le_succ h) (succ_pos _)

theorem IsTarget.expectedHashes_lt (h : IsTarget bits) :
    expectedHashes bits < 2 ^ 256 :=
  div_lt_self (by decide) (succ_lt_succ h.target_pos)

theorem toNat_getBitsProof (h : IsTarget bits) :
    (Primitives.getBitsProof bits).toNat = expectedHashes bits := by
  have hlt := target_lt bits
  have hwork := h.expectedHashes_lt
  have hpos := expectedHashes_pos bits
  rw [Primitives.getBitsProof]
  dsimp only
  rw [if_neg (mt (not_isTarget_iff bits).2 (not_not_intro h))]
  split
  · next hge =>
      have htop : target bits + 1 = 2 ^ 256 := by
        have hle : 2 ^ 256 - 1 ≤ target bits := le_def.1 hge
        omega
      rw [expectedHashes, htop, Nat.div_self (Nat.two_pow_pos _)]
      rfl
  · next hsmall =>
      have hsucc : target bits + 1 < 2 ^ 256 := by
        have hle : ¬ 2 ^ 256 - 1 ≤ target bits := fun hle => hsmall (le_def.2 hle)
        omega
      have hquotient : (2 ^ 256 - 1 - target bits) / (target bits + 1) + 1 =
          expectedHashes bits := by
        rw [Nat.sub_sub, Nat.add_comm 1]
        exact complement_div_succ hlt
      have hresult : (~~~(setCompact bits).value / ((setCompact bits).value + 1) + 1).toNat =
          expectedHashes bits := by
        rw [toNat_add, toNat_udiv, toNat_not, toNat_add, ← target]
        change ((2 ^ 256 - 1 - target bits) / ((target bits + 1) % 2 ^ 256) + 1) % 2 ^ 256 = _
        rw [Nat.mod_eq_of_lt hsucc, hquotient, Nat.mod_eq_of_lt hwork]
      have hne : ¬ ~~~(setCompact bits).value / ((setCompact bits).value + 1) + 1 = 0 := by
        intro heq
        rw [heq] at hresult
        exact hpos.ne hresult
      rw [if_neg hne, hresult]

theorem getBitsProof_of_not_target (h : ¬ IsTarget bits) :
    getBitsProof bits = .ok 0 := by
  rw [getBitsProof]
  dsimp only
  rw [if_pos ((not_isTarget_iff bits).1 h)]

/-- The division does not fail, and the work is the expected number of hashes. -/
theorem getBitsProof_expectedHashes (bits : BitVec 32) :
    (IsTarget bits →
      ∃ work, getBitsProof bits = .ok work ∧ work.toNat = 2 ^ 256 / (target bits + 1) ∧
        0 < work.toNat ∧
        ∀ bits' work', IsTarget bits' → target bits ≤ target bits' →
          getBitsProof bits' = .ok work' → work'.toNat ≤ work.toNat) ∧
      (¬ IsTarget bits → getBitsProof bits = .ok 0) := by
  refine ⟨fun h => ?_, getBitsProof_of_not_target⟩
  refine ⟨Primitives.getBitsProof bits, getBitsProof_eq bits, toNat_getBitsProof h, ?_, ?_⟩
  · rw [toNat_getBitsProof h]
    exact expectedHashes_pos bits
  · intro bits' work' h' hle hwork'
    rw [getBitsProof_eq, Except.ok.injEq] at hwork'
    rw [← hwork', toNat_getBitsProof h, toNat_getBitsProof h']
    exact expectedHashes_anti hle

/-- The easiest target takes two hashes. -/
theorem getBitsProof_of_easiest :
    IsTarget 0x207fffff#32 ∧ ∃ work, getBitsProof 0x207fffff#32 = .ok work ∧ work.toNat = 2 := by
  have htarget : IsTarget 0x207fffff#32 := by decide
  obtain ⟨work, hproof, hwork, _⟩ := (getBitsProof_expectedHashes 0x207fffff#32).1 htarget
  exact ⟨htarget, work, hproof, hwork⟩

end TKNC.Chain
