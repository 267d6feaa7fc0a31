import Mathlib.Tactic.Ring

/-!
# Params — consensus parameters of the three networks

The fields of `Consensus::Params` that difficulty, header and timestamp rules read.  The values of
the networks are those of `tknc_chainparams.cpp`.
-/

namespace TKNC.Consensus

structure Params where
  powLimit : BitVec 256
  fPowAllowMinDifficultyBlocks : Bool
  enforceBIP94 : Bool
  fPowNoRetargeting : Bool
  nPowTargetSpacing : Int
  nPowTargetTimespan : Int
  bip34Height : Int
  bip65Height : Int
  bip66Height : Int
  deriving DecidableEq, Repr

def Params.difficultyAdjustmentInterval (params : Params) : Int :=
  params.nPowTargetTimespan.tdiv params.nPowTargetSpacing

/-- Maximum number of seconds a block may be stamped before its predecessor. -/
def maxTimewarp : Int := 600

def maxFutureBlockTime : Int := 2 * 60 * 60

/-! ## Networks -/

def mainParams : Params :=
  { powLimit := 0x7fffffffffffffffffffffffffffffffffffffffffffffffffffffffffffffff#256
    fPowAllowMinDifficultyBlocks := false
    enforceBIP94 := true
    fPowNoRetargeting := false
    nPowTargetSpacing := 120
    nPowTargetTimespan := 120 * 100
    bip34Height := 1
    bip65Height := 1
    bip66Height := 1 }

def testNetParams : Params :=
  { mainParams with enforceBIP94 := false }

def regTestParams : Params :=
  { mainParams with
    enforceBIP94 := false
    bip34Height := 500
    bip65Height := 1351
    bip66Height := 1251 }

/-- Retargeting on, min-difficulty blocks off, two-minute blocks, easiest target `2 ^ 255 - 1`. -/
structure Retargeting (params : Params) : Prop where
  limit : params.powLimit.toNat = 2 ^ 255 - 1
  retargets : params.fPowNoRetargeting = false
  noMinDifficulty : params.fPowAllowMinDifficultyBlocks = false
  spacing : params.nPowTargetSpacing = 120

theorem retargeting_main : Retargeting mainParams :=
  ⟨by decide, rfl, rfl, rfl⟩

end TKNC.Consensus
