import TKNC.Difficulty.Transition

/-!
# Retarget — the retarget rule over unbounded integers

The rule that `CalculateNextDifficultyTarget` implements, stated without registers: the average of
the last twelve block intervals, as a ratio in units of `1 / 1024`, scales the old target.  The code
agrees with it exactly as long as the product of target and ratio fits into 256 bits; a product that
wraps around leaves a quotient below `2 ^ 246`, which the exact one is not.
-/

namespace TKNC.Difficulty

open Arith Chain Consensus

variable {params : Params} {tip : BlockIndex} {t : ArithUint256}

def intervals : Nat → BlockIndex → List Int
  | 0, _ => []
  | _ + 1, .genesis _ _ => []
  | n + 1, b@(.child p _ _) => (b.getBlockTime - p.getBlockTime) :: intervals n p

def averageInterval (tip : BlockIndex) : Int :=
  (intervals 12 tip).sum.tdiv (intervals 12 tip).length

/-- Average over wanted interval, in units of `1 / 1024`, at most twenty percent from one. -/
def retargetRatio (tip : BlockIndex) (params : Params) : Int :=
  max 819 (min 1229 ((averageInterval tip * 1024).tdiv params.nPowTargetSpacing))

def exactTarget (powLimit t r : Nat) : Nat :=
  min powLimit (max 1 (t * r / 1024))

/-- The code returns the exact target; so it falls by at most twenty-one percent and stays below the
limit. -/
def RetargetsExactly (params : Params) (tip : BlockIndex) (t : ArithUint256) : Prop :=
  (calculateNextDifficultyTarget (some tip) params).toNat =
      exactTarget params.powLimit.toNat t.toNat (retargetRatio tip params).toNat ∧
    79 * t.toNat / 100 ≤ (calculateNextDifficultyTarget (some tip) params).toNat ∧
    (calculateNextDifficultyTarget (some tip) params).toNat ≤ params.powLimit.toNat

theorem timespanLoop_eq_intervals (fuel : Nat) (b : BlockIndex) (total : Int) (count : Nat) :
    timespanLoop fuel b total count =
      (total + (intervals fuel b).sum, count + (intervals fuel b).length) := by
  induction b generalizing fuel total count with
  | genesis nTime nBits => cases fuel <;> simp [timespanLoop, intervals]
  | child p nTime nBits ih =>
    cases fuel with
    | zero => simp [timespanLoop, intervals]
    | succ fuel =>
      simp only [timespanLoop, ih, intervals, List.sum_cons, List.length_cons, Prod.mk.injEq]
      constructor <;> omega

theorem ratioOf_eq_retargetRatio (tip : BlockIndex) (params : Params) :
    ratioOf tip params = retargetRatio tip params := by
  have hwindow : timespanLoop diffWindow tip 0 0 =
      ((intervals 12 tip).sum, (intervals 12 tip).length) := by
    rw [diffWindow, timespanLoop_eq_intervals, Int.zero_add, Nat.zero_add]
  simp only [ratioOf, hwindow, retargetRatio, averageInterval, clampRatio, ratioMin, ratioMax,
    ratioScale]
  omega

theorem retargetRatio_bounds (tip : BlockIndex) (params : Params) :
    819 ≤ retargetRatio tip params ∧ retargetRatio tip params ≤ 1229 := by
  unfold retargetRatio
  omega

/-! ## Wrap-around -/

theorem retarget_of_lt {t r : Nat} (hfits : t * r < 2 ^ 256) :
    retarget t r = exactTarget (2 ^ 255 - 1) t r := by
  rw [retarget, exactTarget, Nat.mod_eq_of_lt hfits]
  omega

/-- A product that wrapped around always gives a smaller target than the exact one. -/
theorem retarget_lt_of_le {t r : Nat} (hwraps : 2 ^ 256 ≤ t * r) :
    retarget t r < exactTarget (2 ^ 255 - 1) t r := by
  have hexact : 2 ^ 246 ≤ t * r / 1024 := (Nat.le_div_iff_mul_le (by decide)).2 (by omega)
  have hcode : t * r % 2 ^ 256 / 1024 < 2 ^ 246 :=
    Nat.div_lt_of_lt_mul (Nat.mod_lt _ (by decide))
  rw [retarget, exactTarget]
  omega

theorem le_exactTarget {t r : Nat} (hlow : 819 ≤ r) (hlimit : t ≤ 2 ^ 255 - 1) :
    79 * t / 100 ≤ exactTarget (2 ^ 255 - 1) t r := by
  have hmul : 819 * t ≤ t * r := by
    rw [Nat.mul_comm t r]
    exact Nat.mul_le_mul_right t hlow
  rw [exactTarget]
  generalize t * r = product at *
  omega

theorem retargetsExactly_iff (hnet : Retargeting params) (htip : 0 < tip.nHeight)
    (ht : deriveTarget tip.nBits params.powLimit = some t) :
    RetargetsExactly params tip t ↔ t.toNat * (retargetRatio tip params).toNat < 2 ^ 256 := by
  rcases deriveTarget_eq_some ht with ⟨hvalue, _, hlimit⟩
  rw [hnet.limit] at hlimit
  have hcode := calculateNextDifficultyTarget_toNat hnet htip
  rw [hvalue, ratioOf_eq_retargetRatio] at hcode
  have hlow := (retargetRatio_bounds tip params).1
  simp only [RetargetsExactly, hcode, hnet.limit]
  constructor
  · rintro ⟨hexact, _⟩
    by_contra hwraps
    have hlt := retarget_lt_of_le (Nat.not_lt.1 hwraps)
    omega
  · intro hfits
    rw [retarget_of_lt hfits]
    exact ⟨rfl, le_exactTarget (by omega) hlimit, Nat.min_le_left _ _⟩

theorem retargetsExactly_iff_mainGenesis :
    deriveTarget 0x1e100000#32 mainParams.powLimit = some (0x100000#256 <<< 216) ∧
      (RetargetsExactly mainParams
          (.child (.genesis 1782835200#32 0x1e100000#32) 1782835320#32 0x1e100000#32)
          (0x100000#256 <<< 216) ↔
        (0x100000#256 <<< 216).toNat * (retargetRatio (.child (.genesis 1782835200#32 0x1e100000#32)
          1782835320#32 0x1e100000#32) mainParams).toNat < 2 ^ 256) :=
  ⟨by decide, retargetsExactly_iff retargeting_main (by decide) (by decide)⟩

/-- Two blocks exactly two minutes apart at the regtest target: the ratio is one, so the target
should stay, and the code makes it 512 times harder. -/
theorem not_retargetsExactly_regTest :
    deriveTarget regTestTip.nBits regTestParams.powLimit = some (0x7fffff#256 <<< 232) ∧
      retargetRatio regTestTip regTestParams = 1024 ∧
      calculateNextDifficultyTarget (some regTestTip) regTestParams = 0x3fff#256 <<< 232 ∧
      ¬ RetargetsExactly regTestParams regTestTip (0x7fffff#256 <<< 232) := by
  have hcode : calculateNextDifficultyTarget (some regTestTip) regTestParams =
      0x3fff#256 <<< 232 := by decide
  refine ⟨by decide, by decide, hcode, ?_⟩
  rintro ⟨_, hfloor, _⟩
  rw [hcode] at hfloor
  exact absurd hfloor (by decide)

end TKNC.Difficulty
