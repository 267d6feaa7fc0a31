import TKNC.Difficulty.Rules

/-!
# Transition — does header synchronisation permit the required difficulty?

`permittedDifficultyTransition` allows a target to change by a factor of four; the retarget rule
itself moves it by at most twenty percent.  The two agree as long as the product of the old target
and the ratio fits into 256 bits.  Beyond that the product wraps around, and for every such target
some timestamps make the required difficulty a forbidden one.
-/

namespace TKNC.Difficulty

open Arith Chain Consensus Lib.CompactFloat BitVec Nat

variable {params : Params} {tip : BlockIndex} {t : ArithUint256}

/-! ## Both rules in numbers -/

def retarget (t r : Nat) : Nat :=
  max 1 (t * r % 2 ^ 256 / 1024)

theorem scaled_toNat (t : ArithUint256) {ratio : Int} (hlow : 819 ≤ ratio) (hhigh : ratio ≤ 1229) :
    (t * BitVec.ofInt 256 ratio / BitVec.ofInt 256 ratioScale).toNat =
      t.toNat * ratio.toNat % 2 ^ 256 / 1024 := by
  have hratio : (BitVec.ofInt 256 ratio).toNat = ratio.toNat := by
    rw [BitVec.toNat_ofInt, Int.emod_eq_of_lt (by omega) (by omega)]
  rw [BitVec.toNat_udiv, BitVec.toNat_mul, hratio]
  rfl

theorem calculateNextDifficultyTarget_toNat (hnet : Retargeting params) (htip : 0 < tip.nHeight) :
    (calculateNextDifficultyTarget (some tip) params).toNat =
      retarget (setCompact tip.nBits).value.toNat (ratioOf tip params).toNat := by
  cases tip with
  | genesis nTime nBits => exact absurd htip (lt_irrefl 0)
  | child p nTime nBits =>
    set b : BlockIndex := .child p nTime nBits with hb
    -- there is a parent, so at least one interval is counted
    have hcount : (timespanLoop diffWindow b 0 0).2 ≠ 0 := by
      rw [timespanLoop_eq]
      simp only [diffWindow]
      omega
    rcases ratioOf_bounds b params with ⟨hlow, hhigh⟩
    have hscaled := scaled_toNat (setCompact nBits).value hlow hhigh
    have hnext : calculateNextDifficultyTarget (some b) params =
        let newTarget := (setCompact nBits).value * BitVec.ofInt 256 (ratioOf b params) /
          BitVec.ofInt 256 ratioScale
        let newTarget := if newTarget > params.powLimit then params.powLimit else newTarget
        if newTarget = 0 then 1 else newTarget := by
      simp only [calculateNextDifficultyTarget, hb]
      rw [if_neg (hb ▸ hcount)]
      rfl
    -- A quotient by 1024 never reaches the limit, so only the clamp at one can act.
    have hle : ¬ (setCompact nBits).value * BitVec.ofInt 256 (ratioOf b params) /
        BitVec.ofInt 256 ratioScale > params.powLimit := by
      rw [gt_iff_lt, BitVec.lt_def, hscaled, hnet.limit]
      omega
    rw [hnext]
    simp only [if_neg hle]
    have hbits : b.nBits = nBits := rfl
    split
    · rename_i hzero
      rw [hzero] at hscaled
      simp only [retarget, hbits, ← hscaled]
      rfl
    · rename_i hzero
      have hpos : (setCompact nBits).value.toNat * (ratioOf b params).toNat % 2 ^ 256 / 1024 ≠ 0 := by
        intro h0
        exact hzero (BitVec.eq_of_toNat_eq (hscaled.trans h0))
      rw [hscaled, retarget, hbits]
      omega

/-- The header-sync test as bounds on the new target `n`, given the old target `t`. -/
def InWindow (t n : Nat) : Prop :=
  n ≤ min (t * 4 % 2 ^ 256) (2 ^ 255 - 1) ∧ max 1 (t / 4) ≤ n

theorem permittedDifficultyTransition_iff (hnet : Retargeting params) (height : Int)
    (oldNBits newNBits : BitVec 32) :
    permittedDifficultyTransition params height oldNBits newNBits = true ↔
      InWindow (setCompact oldNBits).value.toNat (setCompact newNBits).value.toNat := by
  set old := (setCompact oldNBits).value with hold
  set new := (setCompact newNBits).value with hnew
  have hmax : (if old * 4 > params.powLimit then params.powLimit else old * 4).toNat =
      min (old.toNat * 4 % 2 ^ 256) (2 ^ 255 - 1) := by
    have hmul : (old * 4).toNat = old.toNat * 4 % 2 ^ 256 := toNat_mul _ _
    split <;> rename_i hlimit <;> rw [gt_iff_lt, lt_def, hmul, hnet.limit] at hlimit
    · rw [hnet.limit]
      omega
    · rw [hmul]
      omega
  have hmin : (if old / 4 = 0 then 1 else old / 4).toNat = max 1 (old.toNat / 4) := by
    have hdiv : (old / 4).toNat = old.toNat / 4 := toNat_udiv
    split <;> rename_i hzero
    · have hquot : old.toNat / 4 = 0 := by rw [← hdiv, hzero]; rfl
      rw [hquot]
      rfl
    · have hquot : old.toNat / 4 ≠ 0 := fun h0 => hzero (eq_of_toNat_eq (hdiv.trans h0))
      omega
  simp only [permittedDifficultyTransition, hnet.noMinDifficulty, ← hold, ← hnew, InWindow]
  rw [← hmax, ← hmin]
  -- the upper bound lies below the limit, so the first test of the source is implied by the third
  have hcap : (if old * 4 > params.powLimit then params.powLimit else old * 4).toNat ≤
      params.powLimit.toNat := by
    rw [hmax, hnet.limit]
    exact min_le_right _ _
  generalize (if old * 4 > params.powLimit then params.powLimit else old * 4) = maxTarget at *
  generalize (if old / 4 = 0 then 1 else old / 4) = minTarget at *
  simp only [gt_iff_lt, lt_def, Bool.false_eq_true, if_false]
  split
  · simp only [Bool.false_eq_true, false_iff]
    omega
  · split
    · simp only [Bool.false_eq_true, false_iff]
      omega
    · split <;> simp only [Bool.false_eq_true, false_iff, true_iff] <;> omega

/-- The required `nBits` always exist, and the test sees the leading bytes of the next target. -/
theorem getNextWorkRequired_permitted_iff (hnet : Retargeting params) (htip : 0 < tip.nHeight)
    (header : CBlockHeader) (height : Int) :
    (∃ new, getNextWorkRequired tip header params = some new ∧
      permittedDifficultyTransition params height tip.nBits new = true) ↔
      InWindow (setCompact tip.nBits).value.toNat
        (trunc (retarget (setCompact tip.nBits).value.toNat (ratioOf tip params).toNat)) := by
  rcases getCompact_eq (calculateNextDifficultyTarget (some tip) params) with ⟨new, hsome, _⟩
  have hdecoded := setCompact_getCompact hsome
  rw [calculateNextDifficultyTarget_toNat hnet htip] at hdecoded
  have hnext : getNextWorkRequired tip header params = some new := by
    simpa [getNextWorkRequired, hnet.retargets, hnet.noMinDifficulty] using hsome
  simp only [hnext, Option.some.injEq, exists_eq_left', permittedDifficultyTransition_iff hnet,
    hdecoded]

theorem inWindow_of_lt {t r : Nat} (hpos : 0 < t) (hlow : 819 ≤ r) (hhigh : r ≤ 1229)
    (hfits : 1229 * t < 2 ^ 256) : InWindow t (trunc (retarget t r)) := by
  have hle := trunc_le (retarget t r)
  have hge := le_trunc_add_div (retarget t r)
  have hmulLow : 819 * t ≤ t * r := by
    rw [mul_comm t r]
    exact mul_le_mul_right t hlow
  have hmulHigh : t * r ≤ 1229 * t := by
    rw [mul_comm t r]
    exact mul_le_mul_right t hhigh
  -- neither the scaled target nor the upper bound wraps around
  have hmod : t * r % 2 ^ 256 = t * r := mod_eq_of_lt (by omega)
  have hmod4 : t * 4 % 2 ^ 256 = t * 4 := mod_eq_of_lt (by omega)
  have hnext : retarget t r = max 1 (t * r / 1024) := by rw [retarget, hmod]
  generalize t * r = product at *
  refine ⟨?_, ?_⟩ <;> omega

/-! ## Wrap-around: some timestamps are refused -/

theorem exists_lt_succ {f : Nat → Nat} {m n : Nat} (hmn : m ≤ n) (hlt : f m < f n) :
    ∃ a, m ≤ a ∧ a < n ∧ f a < f (a + 1) := by
  by_contra hnone
  push Not at hnone
  -- without a step upwards the values only fall
  have hdown : ∀ k, m ≤ k → k ≤ n → f k ≤ f m := by
    intro k hmk
    induction k, hmk using le_induction with
    | base => intro _; exact le_refl _
    | succ k hmk ih =>
      intro hkn
      exact le_trans (hnone k hmk hkn) (ih (le_of_succ_le hkn))
  exact absurd (hdown n hmn (le_refl n)) (not_le.2 hlt)

def steadyRatio (a : Nat) : Nat :=
  max 819 (min 1229 (a * 1024 / 120))

/-- A product that has just wrapped around leaves less than the smallest permitted target. -/
theorem not_inWindow_of_small {t r : Nat} (hbig : 2 ^ 256 ≤ 1229 * t)
    (hsmall : t * r % 2 ^ 256 ≤ 255 * t) : ¬ InWindow t (trunc (retarget t r)) := by
  rintro ⟨_, hmin⟩
  have hle := trunc_le (retarget t r)
  unfold retarget at hle hmin
  generalize t * r = product at *
  omega

theorem exists_steadyRatio_small {t : Nat} (hbig : 2 ^ 256 ≤ 1229 * t) :
    ∃ a, 96 ≤ a ∧ a ≤ 145 ∧ t * steadyRatio a % 2 ^ 256 ≤ 255 * t := by
  have hmono : t * steadyRatio 96 / 2 ^ 256 ≤ t * steadyRatio 145 / 2 ^ 256 :=
    Nat.div_le_div_right (Nat.mul_le_mul_left t (by decide))
  rcases Nat.lt_or_eq_of_le hmono with hjump | hsame
  · -- Somewhere between the extreme ratios the quotient jumps, and jumps are small.
    rcases exists_lt_succ (f := fun a => t * steadyRatio a / 2 ^ 256) (by decide) hjump with
      ⟨a, hlow, hhigh, hlt⟩
    refine ⟨a + 1, by omega, hhigh, ?_⟩
    have hstep : steadyRatio (a + 1) ≤ steadyRatio a + 9 := by
      unfold steadyRatio
      omega
    have hprod : t * steadyRatio (a + 1) ≤ t * steadyRatio a + 9 * t := by
      calc
        t * steadyRatio (a + 1) ≤ t * (steadyRatio a + 9) := Nat.mul_le_mul_left t hstep
        _ = t * steadyRatio a + 9 * t := by ring
    generalize t * steadyRatio (a + 1) = next at *
    generalize t * steadyRatio a = prev at *
    omega
  · -- Otherwise the smallest ratio has already wrapped around, but by little.
    refine ⟨96, by decide, by decide, ?_⟩
    have hmin : steadyRatio 96 = 819 := by decide
    have hmax : steadyRatio 145 = 1229 := by decide
    rw [hmin, hmax] at hsame
    rw [hmin]
    have hquot : 1 ≤ t * 1229 / 2 ^ 256 := (Nat.le_div_iff_mul_le (by decide)).2 (by omega)
    have hlt : 1229 * t < 2 * (2 ^ 256 * (t * 1229 / 2 ^ 256)) := by omega
    omega

def steadyTimes (a : Nat) (i : Nat) : BitVec 32 :=
  BitVec.ofNat 32 (2000 - a * i)

theorem ratioOf_steadyTimes (hnet : Retargeting params) (htip : 0 < tip.nHeight) {a : Nat}
    (hlow : 96 ≤ a) (hhigh : a ≤ 145) :
    (ratioOf (tip.retime (steadyTimes a)) params).toNat = steadyRatio a := by
  have hcount : 0 < min 12 tip.nHeight ∧ min 12 tip.nHeight ≤ 12 := by omega
  generalize hk : min 12 tip.nHeight = k at hcount
  have hak : a * k ≤ 145 * 12 := Nat.mul_le_mul hhigh hcount.2
  -- the window spans `k` equal intervals
  have hspan : (timespanLoop diffWindow (tip.retime (steadyTimes a)) 0 0) = ((a : Int) * k, k) := by
    simp only [timespanLoop_eq, BlockIndex.getBlockTime, BlockIndex.nTime_retime,
      BlockIndex.nTime_back_retime, BlockIndex.nHeight_retime, diffWindow, hk, steadyTimes,
      toNat_ofNat]
    rw [Nat.mod_eq_of_lt (by omega), Nat.mod_eq_of_lt (by omega)]
    push_cast [Nat.cast_sub (show a * k ≤ 2000 by omega)]
    simp
  have havg : ((a : Int) * k).tdiv k = a := Int.mul_tdiv_cancel _ (by omega)
  have hratio : ((a : Int) * 1024).tdiv 120 = ((a * 1024 / 120 : Nat) : Int) := by
    rw [Int.tdiv_eq_ediv_of_nonneg (by omega)]
    push_cast
    rfl
  simp only [ratioOf, hspan, havg, hnet.spacing, ratioScale, hratio, clampRatio, ratioMin, ratioMax,
    steadyRatio]
  omega

/-! ## The two rules agree exactly below the wrap-around -/

/-- Whatever the timestamps of the chain, the required difficulty passes header synchronisation. -/
def TransitionPermitted (params : Params) (tip : BlockIndex) : Prop :=
  ∀ (header : CBlockHeader) (τ : Nat → BitVec 32),
    ∃ new, getNextWorkRequired (tip.retime τ) header params = some new ∧
      permittedDifficultyTransition params (tip.nHeight + 1) tip.nBits new = true

theorem transitionPermitted_iff (hnet : Retargeting params) (htip : 0 < tip.nHeight)
    (ht : deriveTarget tip.nBits params.powLimit = some t) :
    TransitionPermitted params tip ↔ 1229 * t.toNat < 2 ^ 256 := by
  rcases deriveTarget_eq_some ht with ⟨hvalue, hpos, _⟩
  have hiff : ∀ header τ, (∃ new, getNextWorkRequired (tip.retime τ) header params = some new ∧
      permittedDifficultyTransition params (tip.nHeight + 1) tip.nBits new = true) ↔
        InWindow t.toNat (trunc (retarget t.toNat (ratioOf (tip.retime τ) params).toNat)) := by
    intro header τ
    have hheight : 0 < (tip.retime τ).nHeight := by simpa using htip
    simpa [hvalue] using
      getNextWorkRequired_permitted_iff hnet hheight header (tip.nHeight + 1)
  constructor
  · intro hall
    by_contra hbig
    rcases exists_steadyRatio_small (Nat.not_lt.1 hbig) with ⟨a, hlow, hhigh, hsmall⟩
    have hwindow := (hiff ⟨0, 0, 0⟩ (steadyTimes a)).1 (hall _ _)
    rw [ratioOf_steadyTimes hnet htip hlow hhigh] at hwindow
    exact not_inWindow_of_small (Nat.not_lt.1 hbig) hsmall hwindow
  · intro hfits header τ
    rcases ratioOf_bounds (tip.retime τ) params with ⟨hlow, hhigh⟩
    exact (hiff header τ).2 (inWindow_of_lt hpos (by omega) (by omega) hfits)

def regTestTip : BlockIndex :=
  .child (.genesis 1745884801#32 0x207fffff#32) 1745884921#32 0x207fffff#32

theorem transitionPermitted_iff_mainGenesis :
    deriveTarget 0x1e100000#32 mainParams.powLimit = some (0x100000#256 <<< 216) ∧
      (TransitionPermitted mainParams
          (.child (.genesis 1782835200#32 0x1e100000#32) 1782835320#32 0x1e100000#32) ↔
        1229 * (0x100000#256 <<< 216).toNat < 2 ^ 256) :=
  ⟨by decide, transitionPermitted_iff retargeting_main (by decide) (by decide)⟩

/-- With blocks exactly two minutes apart the ratio is one, and still `1024` times the regtest
target does not fit into 256 bits: the next difficulty is the one below, which is refused. -/
theorem not_permitted_regTest :
    deriveTarget regTestTip.nBits regTestParams.powLimit = some (0x7fffff#256 <<< 232) ∧
      getNextWorkRequired regTestTip ⟨1, 1745885041#32, 0⟩ regTestParams = some 0x1f3fff00#32 ∧
      permittedDifficultyTransition regTestParams 2 regTestTip.nBits 0x1f3fff00#32 = false := by
  decide

end TKNC.Difficulty
