import TKNC.Difficulty.Rules

/-!
# BlockTime — timestamps of produced blocks against the header rules

Two producers stamp new blocks: the template code of `node/miner.cpp` (`UpdateTime`) and the
standalone miner, which overwrites the template's time with its clock.  The validator
(`ContextualCheckBlockHeader`) demands a time after the median time past and, on networks that
enforce BIP94, at most ten minutes before the previous block, at every height.

Clocks are `int64_t` seconds; a header stores them as `uint32_t`, so a stamp is the clock modulo
`2 ^ 32`.
-/

namespace TKNC.Node

open Chain Consensus Difficulty

def getMinimumTime (pindexPrev : BlockIndex) (difficultyAdjustmentInterval : Int) : Int :=
  let minTime := pindexPrev.getMedianTimePast + 1
  let height : Int := pindexPrev.nHeight + 1
  if height.tmod difficultyAdjustmentInterval = 0 then
    max minTime (pindexPrev.getBlockTime - maxTimewarp)
  else
    minTime

def updateTime (pblock : CBlockHeader) (params : Params) (pindexPrev : BlockIndex) (now : Int) :
    Option (CBlockHeader × Int) := do
  let nOldTime := pblock.getBlockTime
  let nNewTime := max (getMinimumTime pindexPrev params.difficultyAdjustmentInterval) now
  let stamped :=
    if nOldTime < nNewTime then { pblock with nTime := BitVec.ofInt 32 nNewTime } else pblock
  -- Updating time can change work required on testnet.
  if params.fPowAllowMinDifficultyBlocks then
    let nBits ← getNextWorkRequired pindexPrev stamped params
    some ({ stamped with nBits := nBits }, nNewTime - nOldTime)
  else
    some (stamped, nNewTime - nOldTime)

/-- Header of `CreateNewBlock`; the clock is read twice, and the version comes from deployment
state that plays no role here. -/
def createNewBlock (nVersion : BitVec 32) (params : Params) (pindexPrev : BlockIndex)
    (now now' : Int) : Option CBlockHeader := do
  let pblock : CBlockHeader := { nVersion := nVersion, nTime := BitVec.ofInt 32 now, nBits := 0 }
  let (pblock, _) ← updateTime pblock params pindexPrev now'
  let nBits ← getNextWorkRequired pindexPrev pblock params
  some { pblock with nBits := nBits }

def minerHeader (blockTemplate : CBlockHeader) (now : Int) : CBlockHeader :=
  { blockTemplate with nTime := BitVec.ofInt 32 now }

/-! ## Validator -/

inductive BlockValidationResult where
  | blockInvalidHeader
  | blockTimeFuture
  deriving DecidableEq, Repr

structure Rejection where
  result : BlockValidationResult
  rejectReason : String
  debugMessage : String
  deriving DecidableEq, Repr

def badDiffbits : Rejection :=
  ⟨.blockInvalidHeader, "bad-diffbits", "incorrect proof of work"⟩

def timeTooOld : Rejection :=
  ⟨.blockInvalidHeader, "time-too-old", "block's timestamp is too early"⟩

def timeTimewarpAttack : Rejection :=
  ⟨.blockInvalidHeader, "time-timewarp-attack",
    "block's timestamp too early - timewarp protection"⟩

def timeTooNew : Rejection :=
  ⟨.blockTimeFuture, "time-too-new", "block timestamp too far in the future"⟩

def badVersion (nVersion : BitVec 32) : Rejection :=
  ⟨.blockInvalidHeader, "bad-version(0x" ++ nVersion.toHex ++ ")",
    "rejected nVersion=0x" ++ nVersion.toHex ++ " block"⟩

def deploymentActiveAfter (pindexPrev : BlockIndex) (height : Int) : Bool :=
  (pindexPrev.nHeight + 1 : Int) ≥ height

def contextualCheckBlockHeader (block : CBlockHeader) (params : Params) (pindexPrev : BlockIndex)
    (now : Int) : Option (Except Rejection Unit) := do
  let required ← getNextWorkRequired pindexPrev block params
  if block.nBits ≠ required then
    some (.error badDiffbits)
  else if block.getBlockTime ≤ pindexPrev.getMedianTimePast then
    some (.error timeTooOld)
  else if params.enforceBIP94 ∧ block.getBlockTime < pindexPrev.getBlockTime - maxTimewarp then
    some (.error timeTimewarpAttack)
  else if block.getBlockTime > now + maxFutureBlockTime then
    some (.error timeTooNew)
  else if (block.nVersion.toInt < 2 ∧ deploymentActiveAfter pindexPrev params.bip34Height) ∨
      (block.nVersion.toInt < 3 ∧ deploymentActiveAfter pindexPrev params.bip66Height) ∨
      (block.nVersion.toInt < 4 ∧ deploymentActiveAfter pindexPrev params.bip65Height) then
    some (.error (badVersion block.nVersion))
  else
    some (.ok ())

/-- The two lower bounds of the validator on a block time. -/
structure LowerBounds (params : Params) (pindexPrev : BlockIndex) (time : Int) : Prop where
  pastMedian : pindexPrev.getMedianTimePast < time
  noTimewarp : params.enforceBIP94 = true → pindexPrev.getBlockTime - maxTimewarp ≤ time

variable {pindexPrev : BlockIndex} {params : Params}

/-- A header outside the bounds is rejected for its time. -/
theorem rejected_of_not_lowerBounds {block : CBlockHeader} (now : Int)
    (hbits : getNextWorkRequired pindexPrev block params = some block.nBits)
    (h : ¬LowerBounds params pindexPrev block.getBlockTime) :
    contextualCheckBlockHeader block params pindexPrev now = some (.error timeTooOld) ∨
      contextualCheckBlockHeader block params pindexPrev now = some (.error timeTimewarpAttack) := by
  simp only [contextualCheckBlockHeader, hbits, Option.bind_eq_bind, Option.bind_some, ne_eq,
    not_true_eq_false, if_false]
  by_cases hmedian : block.getBlockTime ≤ pindexPrev.getMedianTimePast
  · exact Or.inl (if_pos hmedian)
  · rw [if_neg hmedian]
    refine Or.inr (if_pos ?_)
    by_contra hwarp
    refine h ⟨by omega, fun henforce => ?_⟩
    by_contra hearly
    exact hwarp ⟨henforce, by omega⟩

theorem toNat_ofInt_stamp (clock : Int) : ((BitVec.ofInt 32 clock).toNat : Int) = clock % 2 ^ 32 := by
  rw [BitVec.toNat_ofInt]
  omega

theorem updateTime_stamp (pblock : CBlockHeader) (params : Params) (pindexPrev : BlockIndex)
    (now : Int) :
    ∃ block delta, updateTime pblock params pindexPrev now = some (block, delta) ∧
      block.getBlockTime =
        (let nNewTime := max (getMinimumTime pindexPrev params.difficultyAdjustmentInterval) now
         if pblock.getBlockTime < nNewTime then nNewTime % 2 ^ 32 else pblock.getBlockTime) := by
  set nNewTime := max (getMinimumTime pindexPrev params.difficultyAdjustmentInterval) now with hnew
  set stamped : CBlockHeader :=
    if pblock.getBlockTime < nNewTime then { pblock with nTime := BitVec.ofInt 32 nNewTime }
    else pblock with hstamped
  -- the stamp is the new time, cut to 32 bits, or the old one
  have htime : stamped.getBlockTime =
      if pblock.getBlockTime < nNewTime then nNewTime % 2 ^ 32 else pblock.getBlockTime := by
    rw [hstamped]
    split
    · exact toNat_ofInt_stamp nNewTime
    · rfl
  rcases getNextWorkRequired_eq_some pindexPrev stamped params with ⟨nBits, hbits⟩
  by_cases hmin : params.fPowAllowMinDifficultyBlocks = true
  · refine ⟨{ stamped with nBits := nBits }, nNewTime - pblock.getBlockTime, ?_, htime⟩
    simp only [updateTime, ← hnew, ← hstamped, hmin, hbits, if_true]
    rfl
  · refine ⟨stamped, nNewTime - pblock.getBlockTime, ?_, htime⟩
    simp only [updateTime, ← hnew, ← hstamped, hmin]
    rfl

theorem createNewBlock_stamp (nVersion : BitVec 32) (params : Params) (pindexPrev : BlockIndex)
    (now now' : Int) {block : CBlockHeader} {delta : Int}
    (hupdate : updateTime ⟨nVersion, BitVec.ofInt 32 now, 0⟩ params pindexPrev now' =
      some (block, delta)) :
    ∃ header, createNewBlock nVersion params pindexPrev now now' = some header ∧
      header.getBlockTime = block.getBlockTime := by
  rcases getNextWorkRequired_eq_some pindexPrev block params with ⟨nBits, hbits⟩
  refine ⟨{ block with nBits := nBits }, ?_, rfl⟩
  simp only [createNewBlock, hupdate, Option.bind_eq_bind, Option.bind_some, hbits]

/-! ## When the producers respect the bounds -/

/-- What the clock and the previous block must be like for a template stamped `nTime` before. -/
def TemplateClock (params : Params) (pindexPrev : BlockIndex) (nTime : BitVec 32) (now : Int) :
    Prop :=
  -- A clock that fits into the header: the floor of the adjustment heights, or a late enough stamp.
  (now < 2 ^ 32 ∧ pindexPrev.getMedianTimePast + 1 < 2 ^ 32 ∧
    ((pindexPrev.nHeight + 1 : Int).tmod params.difficultyAdjustmentInterval = 0 ∨
      pindexPrev.getBlockTime - maxTimewarp ≤
        max (nTime.toNat : Int) (max now (pindexPrev.getMedianTimePast + 1)))) ∨
  (2 ^ 32 ≤ now ∧ pindexPrev.getMedianTimePast < now % 2 ^ 32 ∧
    pindexPrev.getBlockTime - maxTimewarp ≤ now % 2 ^ 32)

/-- The standalone miner has only its clock. -/
def MinerClock (pindexPrev : BlockIndex) (now : Int) : Prop :=
  pindexPrev.getMedianTimePast < now % 2 ^ 32 ∧
    pindexPrev.getBlockTime - maxTimewarp ≤ now % 2 ^ 32

theorem getMinimumTime_of_floor {interval : Int}
    (h : (pindexPrev.nHeight + 1 : Int).tmod interval = 0) :
    getMinimumTime pindexPrev interval =
      max (pindexPrev.getMedianTimePast + 1) (pindexPrev.getBlockTime - maxTimewarp) :=
  if_pos h

theorem getMinimumTime_of_no_floor {interval : Int}
    (h : (pindexPrev.nHeight + 1 : Int).tmod interval ≠ 0) :
    getMinimumTime pindexPrev interval = pindexPrev.getMedianTimePast + 1 :=
  if_neg h

theorem lowerBounds_iff (henforce : params.enforceBIP94 = true) (pindexPrev : BlockIndex)
    (time : Int) :
    LowerBounds params pindexPrev time ↔
      pindexPrev.getMedianTimePast < time ∧ pindexPrev.getBlockTime - maxTimewarp ≤ time :=
  ⟨fun h => ⟨h.pastMedian, h.noTimewarp henforce⟩, fun h => ⟨h.1, fun _ => h.2⟩⟩

theorem updateTime_lowerBounds_iff (henforce : params.enforceBIP94 = true) (pindexPrev : BlockIndex)
    (pblock : CBlockHeader) (now : Int) :
    ∃ block delta, updateTime pblock params pindexPrev now = some (block, delta) ∧
      (LowerBounds params pindexPrev block.getBlockTime ↔
        TemplateClock params pindexPrev pblock.nTime now) := by
  rcases updateTime_stamp pblock params pindexPrev now with ⟨block, delta, hupdate, hstamp⟩
  refine ⟨block, delta, hupdate, ?_⟩
  rcases pindexPrev.getMedianTimePast_bounds with ⟨hmtp, hmtp'⟩
  have hprev := pindexPrev.getBlockTime_lt
  have hold : pblock.getBlockTime = (pblock.nTime.toNat : Int) := rfl
  have hold' := pblock.nTime.isLt
  rw [lowerBounds_iff henforce, hstamp, hold, TemplateClock]
  simp only [maxTimewarp]
  -- only at adjustment heights does the producer know the timewarp floor
  by_cases hfloor : (pindexPrev.nHeight + 1 : Int).tmod params.difficultyAdjustmentInterval = 0
  · simp only [getMinimumTime_of_floor hfloor, hfloor, maxTimewarp, true_or, and_true]
    omega
  · simp only [getMinimumTime_of_no_floor hfloor, hfloor, false_or]
    omega

/-- Each producer respects both bounds exactly under its condition: `UpdateTime` on any header, a
new template with its two readings of the clock, and the standalone miner. -/
theorem producers_lowerBounds_iff {params : Params} (henforce : params.enforceBIP94 = true)
    (pindexPrev : BlockIndex) (pblock : CBlockHeader) (now now' : Int) :
    ((∃ block delta, updateTime pblock params pindexPrev now = some (block, delta) ∧
        LowerBounds params pindexPrev block.getBlockTime) ↔
      TemplateClock params pindexPrev pblock.nTime now) ∧
    ((∃ header, createNewBlock pblock.nVersion params pindexPrev now now' = some header ∧
        LowerBounds params pindexPrev header.getBlockTime) ↔
      TemplateClock params pindexPrev (BitVec.ofInt 32 now) now') ∧
    (LowerBounds params pindexPrev (minerHeader pblock now).getBlockTime ↔
      MinerClock pindexPrev now) := by
  refine ⟨?_, ?_, ?_⟩
  · rcases updateTime_lowerBounds_iff henforce pindexPrev pblock now with
      ⟨block, delta, hupdate, hiff⟩
    rw [← hiff]
    simp [hupdate]
  · rcases updateTime_lowerBounds_iff henforce pindexPrev
      ⟨pblock.nVersion, BitVec.ofInt 32 now, 0⟩ now' with ⟨block, delta, hupdate, hiff⟩
    rcases createNewBlock_stamp _ _ _ _ _ hupdate with ⟨header, hcreate, htime⟩
    rw [← hiff, ← htime]
    simp [hcreate]
  · have hclock : (minerHeader pblock now).getBlockTime = now % 2 ^ 32 := toNat_ofInt_stamp now
    rw [lowerBounds_iff henforce, hclock, MinerClock]

def aheadTip : BlockIndex :=
  .child (.child (.genesis 1000#32 0x1e100000#32) 1120#32 0x1e100000#32) 4720#32 0x1e100000#32

theorem producers_lowerBounds_iff_main :
    mainParams.enforceBIP94 = true ∧
      (LowerBounds mainParams aheadTip (minerHeader ⟨4, 0, 0⟩ 5000).getBlockTime ↔
        MinerClock aheadTip 5000) :=
  ⟨rfl, (producers_lowerBounds_iff rfl aheadTip ⟨4, 0, 0⟩ 5000 5000).2.2⟩

/-- A minute after the second block the node's own template, and the header of the standalone
miner, are taken for a timewarp attack. -/
theorem aheadTip_rejected :
    createNewBlock 4 mainParams aheadTip 1180 1180 = some ⟨4, 1180#32, 0x1e133400#32⟩ ∧
      minerHeader ⟨4, 1180#32, 0x1e133400#32⟩ 1180 = ⟨4, 1180#32, 0x1e133400#32⟩ ∧
      ¬ LowerBounds mainParams aheadTip (CBlockHeader.getBlockTime ⟨4, 1180#32, 0x1e133400#32⟩) ∧
      contextualCheckBlockHeader ⟨4, 1180#32, 0x1e133400#32⟩ mainParams aheadTip 1180 =
        some (.error timeTimewarpAttack) := by
  refine ⟨by decide, by decide, ?_, by decide⟩
  intro h
  exact absurd (h.noTimewarp rfl) (by decide)

end TKNC.Node
