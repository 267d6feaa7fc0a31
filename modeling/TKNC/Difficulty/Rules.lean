import TKNC.Arith.ArithUint256
import TKNC.Chain.BlockIndex
import TKNC.Consensus.Params

/-!
# Rules — next target and difficulty checks

`pow/difficulty.cpp` computes the next target from the average spacing of the last twelve blocks;
`pow.cpp` encodes it as the `nBits` that a header must carry, and has a second, weaker test of a
difficulty change (`PermittedDifficultyTransition`) that header synchronisation uses before it knows
the timestamps.

`int64_t` values are integers: every one of them stays far from the type's bounds
(`timespan_bounds`).
-/

namespace TKNC.Difficulty

open Arith Chain Consensus

/-! ## Next target -/

def diffWindow : Nat := 12
def ratioScale : Int := 1024
def ratioMin : Int := 819
def ratioMax : Int := 1229

/-- The sliding-window loop; `fuel` is the number of turns that `count < TKN_DIFF_WINDOW` leaves. -/
def timespanLoop : Nat → BlockIndex → Int → Nat → Int × Nat
  | 0, _, totalTimespan, count => (totalTimespan, count)
  | _ + 1, .genesis _ _, totalTimespan, count => (totalTimespan, count)
  | fuel + 1, p@(.child pprev _ _), totalTimespan, count =>
      timespanLoop fuel pprev (totalTimespan + (p.getBlockTime - pprev.getBlockTime)) (count + 1)

def clampRatio (ratio : Int) : Int :=
  let ratio := if ratio < ratioMin then ratioMin else ratio
  if ratio > ratioMax then ratioMax else ratio

def calculateNextDifficultyTarget (pindexLast : Option BlockIndex) (params : Params) :
    ArithUint256 :=
  match pindexLast with
  | none => params.powLimit
  | some (.genesis _ nBits) => (setCompact nBits).value
  | some tip@(.child _ _ nBits) =>
      let parentTarget := (setCompact nBits).value
      let (totalTimespan, count) := timespanLoop diffWindow tip 0 0
      if count = 0 then
        parentTarget
      else
        let avgTimespan := totalTimespan.tdiv count
        let ratio := clampRatio ((avgTimespan * ratioScale).tdiv params.nPowTargetSpacing)
        -- The product is taken modulo 2 ^ 256; the ratio is converted to an unsigned word.
        let newTarget := parentTarget * BitVec.ofInt 256 ratio / BitVec.ofInt 256 ratioScale
        let newTarget := if newTarget > params.powLimit then params.powLimit else newTarget
        if newTarget = 0 then 1 else newTarget

/-- `none` where `GetCompact` would fail an assertion. -/
def getNextWorkRequired (pindexLast : BlockIndex) (pblock : CBlockHeader) (params : Params) :
    Option (BitVec 32) :=
  if params.fPowNoRetargeting then
    some pindexLast.nBits
  else if params.fPowAllowMinDifficultyBlocks ∧
      pblock.getBlockTime > pindexLast.getBlockTime + params.nPowTargetSpacing * 2 then
    getCompact params.powLimit false
  else
    getCompact (calculateNextDifficultyTarget (some pindexLast) params) false

theorem getNextWorkRequired_eq_some (pindexLast : BlockIndex) (pblock : CBlockHeader)
    (params : Params) : ∃ nBits, getNextWorkRequired pindexLast pblock params = some nBits := by
  unfold getNextWorkRequired
  split
  · exact ⟨_, rfl⟩
  · split
    · rcases getCompact_eq params.powLimit with ⟨nBits, hsome, _⟩
      exact ⟨nBits, hsome⟩
    · rcases getCompact_eq (calculateNextDifficultyTarget (some pindexLast) params) with
        ⟨nBits, hsome, _⟩
      exact ⟨nBits, hsome⟩

def permittedDifficultyTransition (params : Params) (_height : Int)
    (oldNBits newNBits : BitVec 32) : Bool :=
  if params.fPowAllowMinDifficultyBlocks then
    true
  else
    let powLimit := params.powLimit
    let newTarget := (setCompact newNBits).value
    if newTarget > powLimit then
      false
    else
      let oldTarget := (setCompact oldNBits).value
      let maxTarget := oldTarget * 4
      let maxTarget := if maxTarget > powLimit then powLimit else maxTarget
      let minTarget := oldTarget / 4
      let minTarget := if minTarget = 0 then 1 else minTarget
      -- a change by more than a factor of four in either direction is refused
      if newTarget > maxTarget then false
      else if newTarget < minTarget then false
      else true

def deriveTarget (nBits : BitVec 32) (powLimit : BitVec 256) : Option ArithUint256 :=
  let bnTarget := setCompact nBits
  if bnTarget.fNegative ∨ bnTarget.value = 0 ∨ bnTarget.fOverflow ∨ bnTarget.value > powLimit then
    none
  else
    some bnTarget.value

theorem deriveTarget_eq_some {nBits : BitVec 32} {powLimit : BitVec 256} {t : ArithUint256} :
    deriveTarget nBits powLimit = some t →
      (setCompact nBits).value = t ∧ 0 < t.toNat ∧ t.toNat ≤ powLimit.toNat := by
  intro h
  simp only [deriveTarget] at h
  split at h
  · cases h
  · rename_i hpass
    cases h
    push Not at hpass
    rcases hpass with ⟨_, hzero, _, hle⟩
    refine ⟨rfl, ?_, BitVec.le_def.1 (by simpa using hle)⟩
    exact Nat.pos_of_ne_zero (fun h0 => hzero (BitVec.eq_of_toNat_eq h0))

/-- The summed differences telescope: only the two ends of the window matter. -/
theorem timespanLoop_eq (fuel : Nat) (b : BlockIndex) (total : Int) (count : Nat) :
    timespanLoop fuel b total count =
      (total + (b.getBlockTime - (b.back fuel).getBlockTime), count + min fuel b.nHeight) := by
  -- induction on the chain, with the accumulators and the rest of the window free
  induction b generalizing fuel total count with
  | genesis nTime nBits => cases fuel <;> simp [timespanLoop, BlockIndex.back, BlockIndex.nHeight]
  | child p nTime nBits ih =>
    cases fuel with
    | zero => simp [timespanLoop, BlockIndex.back]
    | succ fuel =>
      have hmin : min (fuel + 1) (p.nHeight + 1) = min fuel p.nHeight + 1 := by omega
      simp only [timespanLoop, ih, BlockIndex.back, BlockIndex.nHeight, Prod.mk.injEq, hmin]
      constructor <;> omega

theorem timespan_bounds (fuel : Nat) (b : BlockIndex) :
    -(2 ^ 32) < (timespanLoop fuel b 0 0).1 ∧ (timespanLoop fuel b 0 0).1 < 2 ^ 32 := by
  have htip := b.getBlockTime_nonneg
  have htip' := b.getBlockTime_lt
  have hend := (b.back fuel).getBlockTime_nonneg
  have hend' := (b.back fuel).getBlockTime_lt
  rw [timespanLoop_eq]
  constructor <;> dsimp only <;> omega

def ratioOf (tip : BlockIndex) (params : Params) : Int :=
  let window := timespanLoop diffWindow tip 0 0
  clampRatio ((window.1.tdiv window.2 * ratioScale).tdiv params.nPowTargetSpacing)

theorem clampRatio_bounds (ratio : Int) : 819 ≤ clampRatio ratio ∧ clampRatio ratio ≤ 1229 := by
  simp only [clampRatio, ratioMin, ratioMax]
  omega

theorem ratioOf_bounds (tip : BlockIndex) (params : Params) :
    819 ≤ ratioOf tip params ∧ ratioOf tip params ≤ 1229 :=
  clampRatio_bounds _

end TKNC.Difficulty
