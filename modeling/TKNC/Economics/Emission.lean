import TKNC.Consensus.Amount
import TKNC.Lib.MachineInt

/-!
# Emission — remaining-supply decay

The emission schedule of `economics/emission.h`.  Every arithmetic operation is checked: a result
`none` of any function below means that some 64-bit (or, for heights and indices, 32-bit) signed
operation overflowed, divided by zero, or that the lookup table was read out of range.

The loop that takes one block reward after another off the remaining supply occurs twice in the
source, in the constructor of the lookup table and in `ComputeRemainingO1`; it is `decayLoop` here.
-/

namespace TKNC.Economics

open Consensus Lib.MachineInt

def tkncTotalSupply : Int := 1000000000

def tkncBlocksPerYear : Int := 262800

def tkncEmissionCompleteYear : Int := 9

def tkncEmissionDivisor : Int := 300000

def tkncTotalEmissionBlocks : Int := tkncBlocksPerYear * tkncEmissionCompleteYear

def emissionLookupInterval : Nat := 1000

/-- At most `n` iterations of the decay loop: the reward is taken off until it rounds to zero. -/
def decayLoop (D : Int) : Nat → Int → Option Int
  | 0, remaining => some remaining
  | n + 1, remaining => do
      let reward ← checkedDiv 64 remaining D
      if reward = 0 then
        some 0
      else
        let remaining ← checkedSub 64 remaining reward
        if remaining ≤ 0 then
          some 0
        else
          decayLoop D n remaining

/-- The checkpoints after the first one, `k` of them, from the supply left at the previous one. -/
def laterCheckpoints (D : Int) : Nat → Int → Option (List Int)
  | 0, _ => some []
  | k + 1, remaining => do
      let remaining ← decayLoop D emissionLookupInterval remaining
      if remaining = 0 then
        -- The source fills the rest of the table with zeros and stops.
        some (List.replicate (k + 1) 0)
      else
        let later ← laterCheckpoints D k remaining
        some (remaining :: later)

def emissionLookupTable : Option (List Int) := do
  let S ← checkedMul 64 tkncTotalSupply coin
  let numCheckpoints ← checkedAdd 32 (tkncTotalEmissionBlocks.tdiv emissionLookupInterval) 2
  let later ← laterCheckpoints tkncEmissionDivisor (numCheckpoints - 1).toNat S
  some (S :: later)

/-! ## Remaining supply, emitted supply and block subsidy -/

def computeRemainingO1 (S D h : Int) : Option Int :=
  if h ≤ 0 then
    some S
  else do
    let h := if h > tkncTotalEmissionBlocks then tkncTotalEmissionBlocks else h
    let checkpoints ← emissionLookupTable
    let idx ← checkedDiv 32 h emissionLookupInterval
    let cpIdx := if idx ≥ checkpoints.length then (checkpoints.length : Int) - 1 else idx
    let remaining ← checkpoints[cpIdx.toNat]?
    if remaining = 0 then
      some 0
    else
      let startH ← checkedMul 32 cpIdx emissionLookupInterval
      -- `for (int i = start_h; i < h; i++)`
      decayLoop D (h - startH).toNat remaining

def getTKNCTotalEmitted (nHeight : Int) : Option Int :=
  if nHeight ≤ 0 then
    some 0
  else do
    let currentYear ← checkedDiv 64 nHeight tkncBlocksPerYear
    if currentYear ≥ tkncEmissionCompleteYear then
      checkedMul 64 tkncTotalSupply coin
    else
      let effectiveHeight :=
        if nHeight > tkncTotalEmissionBlocks then tkncTotalEmissionBlocks else nHeight
      let totalSupplySat ← checkedMul 64 tkncTotalSupply coin
      let remaining ← computeRemainingO1 totalSupplySat tkncEmissionDivisor effectiveHeight
      let emitted ← checkedSub 64 totalSupplySat remaining
      some (if emitted > totalSupplySat then totalSupplySat else emitted)

def getTKNCBlockSubsidy (nHeight : Int) : Option Int :=
  if nHeight ≤ 0 then
    some 0
  else do
    let currentYear ← checkedDiv 64 nHeight tkncBlocksPerYear
    if currentYear ≥ tkncEmissionCompleteYear then
      some 0
    else
      -- The source calls this `total_emitted_before`, but asks for the height itself.
      let totalEmittedBefore ← getTKNCTotalEmitted nHeight
      let totalSupplySat ← checkedMul 64 tkncTotalSupply coin
      let remainingSat ← checkedSub 64 totalSupplySat totalEmittedBefore
      if remainingSat ≤ 0 then
        some 0
      else
        let rewardSat ← checkedDiv 64 remainingSat tkncEmissionDivisor
        -- Minimum reward of one unit while supply remains.
        some (if rewardSat = 0 ∧ remainingSat > 0 then 1 else rewardSat)

def getTKNCRemainingSupply (nHeight : Int) : Option Int := do
  let totalEmitted ← getTKNCTotalEmitted nHeight
  let totalSupply ← checkedMul 64 tkncTotalSupply coin
  let remaining ← checkedSub 64 totalSupply totalEmitted
  some (if remaining > 0 then remaining else 0)

def subsidiesUpTo (h : Nat) : Option (List Int) :=
  (List.range h).mapM fun (i : Nat) => getTKNCBlockSubsidy ((i : Int) + 1)

end TKNC.Economics
