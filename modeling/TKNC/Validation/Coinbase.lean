import TKNC.Economics.SupplyLedger
import TKNC.Wallet.Wallet

/-!
# Coinbase — building and checking the block reward

Two programs build a coinbase: the node, from fees and subsidy, and the standalone miner, from the
subsidy alone.  `ConnectBlock` checks the amount and the share of the team wallet with a rounding of
its own.  Arithmetic is checked: `none` stands for a signed overflow.
-/

namespace TKNC.Validation

open Consensus Economics Lib.MachineInt Lib.Numeral Wallet Option

/-- How validation fails: by a verdict with a reject reason and a message, by an exception, or by a
failed assertion or a signed overflow, after which nothing is defined. -/
inductive BlockError where
  | invalid (rejectReason debugMessage : String)
  | exception (what : String)
  | aborted (what : String)
  deriving DecidableEq, Repr

def valueOutOfRange : BlockError :=
  .exception "GetValueOut: value out of range"

def addValues : Int → List CTxOut → Option (Except BlockError Int)
  | nValueOut, [] => some (.ok nValueOut)
  | nValueOut, txOut :: vout =>
      if moneyRange txOut.nValue then do
        let sum ← checkedAdd 64 nValueOut txOut.nValue
        if moneyRange sum then addValues sum vout else some (.error valueOutOfRange)
      else
        some (.error valueOutOfRange)

def getValueOut (vout : List CTxOut) : Option (Except BlockError Int) :=
  addValues 0 vout

/-! ## Checks -/

def tkncTeamSharePercent : Int := 10

def getBlockSubsidy (nHeight : Int) : Option Int :=
  getTKNCBlockSubsidy nHeight

def checkTeamShare (totalCoinbase teamValue : Int) : Option (Except BlockError Unit) :=
  if totalCoinbase > 0 then do
    let product ← checkedMul 64 totalCoinbase tkncTeamSharePercent
    let expectedTeam ← checkedDiv 64 product 100
    let tolerance := 1
    let lowest ← checkedSub 64 expectedTeam tolerance
    let highest ← checkedAdd 64 expectedTeam tolerance
    if teamValue < lowest ∨ teamValue > highest then
      some (.error (.invalid "bad-cb-teamwallet"
        ("team wallet share mismatch (expected ~" ++ toString expectedTeam ++ ", got " ++
          toString teamValue ++ ", tolerance=" ++ toString tolerance ++ ")")))
    else
      some (.ok ())
  else
    some (.ok ())

def checkTeamWallet (teamScript : Script) (vout : List CTxOut) (totalCoinbase : Int) :
    Option (Except BlockError Unit) :=
  match vout with
  | _ :: team :: _ =>
      if team.scriptPubKey ≠ teamScript then
        some (.error (.invalid "bad-cb-teamwallet"
          "coinbase vout[1] does not match team wallet address"))
      else
        checkTeamShare totalCoinbase team.nValue
  | _ =>
      some (.error (.invalid "bad-cb-teamwallet"
        "coinbase must have at least 2 outputs (miner + team wallet)"))

/-- The part of `ConnectBlock` that looks at the coinbase, for a block that passed the checks before
it. -/
def checkCoinbase (teamScript : Script) (nHeight nFees : Int) (vout : List CTxOut) :
    Option (Except BlockError Unit) := do
  let subsidy ← getBlockSubsidy nHeight
  let blockReward ← checkedAdd 64 nFees subsidy
  match ← getValueOut vout with
  | .error error => some (.error error)
  | .ok valueOut =>
      if valueOut > blockReward then
        some (.error (.invalid "bad-cb-amount"
          ("coinbase pays too much (actual=" ++ toString valueOut ++ " vs limit=" ++
            toString blockReward ++ ")")))
      else if nHeight > 0 then
        checkTeamWallet teamScript vout valueOut
      else
        some (.ok ())

def commitmentHeader : Bytes :=
  [0x6a, 0x24, 0xaa, 0x21, 0xa9, 0xed]

def minimumWitnessCommitment : Nat := 38

def isWitnessCommitment (txOut : CTxOut) : Bool :=
  txOut.scriptPubKey.length ≥ minimumWitnessCommitment &&
    txOut.scriptPubKey.take 6 = commitmentHeader

def getWitnessCommitmentIndex (vout : List CTxOut) : Option Nat :=
  vout.zipIdx.foldl (fun commitpos txOut =>
    if isWitnessCommitment txOut.1 then some txOut.2 else commitpos) none

def commitmentOut (hash : Bytes) : CTxOut :=
  { nValue := 0
    scriptPubKey := commitmentHeader ++ hash }

def generateCoinbaseCommitment (vout : List CTxOut) (hash : Bytes) : List CTxOut :=
  match getWitnessCommitmentIndex vout with
  | none => vout ++ [commitmentOut hash]
  | some _ => vout

def createNewBlockCoinbase (coinbaseOutputScript teamScript : Script) (nHeight nFees : Int)
    (hash : Bytes) : Option (List CTxOut) := do
  let subsidy ← getBlockSubsidy nHeight
  let blockReward ← checkedAdd 64 nFees subsidy
  let product ← checkedMul 64 blockReward tkncTeamSharePercent
  let teamReward ← checkedDiv 64 product 100
  let minerReward ← checkedSub 64 blockReward teamReward
  some (generateCoinbaseCommitment
    [⟨minerReward, coinbaseOutputScript⟩, ⟨teamReward, teamScript⟩] hash)

/-- The outputs of the coinbase that the standalone miner makes in `FetchBlockTemplateFromRPC`. -/
def fetchBlockTemplateCoinbase (minerScript teamScript : Script) (realHeight : Int)
    (hash : Bytes) : Option (List CTxOut) := do
  let subsidy ← getTKNCBlockSubsidy realHeight
  let blockReward := if subsidy ≤ 0 then 0 else subsidy
  let product ← checkedMul 64 blockReward 90
  let minerReward ← checkedDiv 64 product 100
  let teamReward ← checkedSub 64 blockReward minerReward
  some [⟨minerReward, minerScript⟩, ⟨teamReward, teamScript⟩, commitmentOut hash]

/-! ## Sums -/

theorem moneyRange_iff {n : Int} : moneyRange n = true ↔ 0 ≤ n ∧ n ≤ maxMoney := by
  simp [moneyRange]

theorem percent_of_range {n : Int} (percent : Int) (hn : 0 ≤ n ∧ n ≤ maxMoney)
    (hpercent : 0 ≤ percent ∧ percent ≤ 90) :
    checkedMul 64 n percent = some (n * percent) ∧
      checkedDiv 64 (n * percent) 100 = some (n * percent / 100) := by
  rw [maxMoney_eq] at hn
  have hnonneg : 0 ≤ n * percent := Int.mul_nonneg hn.1 hpercent.1
  have hle : n * percent ≤ 100000000000000000 * 90 :=
    Int.mul_le_mul hn.2 hpercent.2 hpercent.1 (by decide)
  refine ⟨?_, ?_⟩
  · apply checked_of_fits
    rw [fits64_iff]
    omega
  · rw [checkedDiv, if_neg (by decide), Int.tdiv_eq_ediv_of_nonneg hnonneg]
    apply checked_of_fits
    rw [fits64_iff]
    omega

theorem checkedAdd_of_range {a b : Int} (h : 0 ≤ a + b ∧ a + b ≤ 2 * maxMoney) :
    checkedAdd 64 a b = some (a + b) := by
  apply checked_of_fits
  rw [maxMoney_eq] at h
  rw [fits64_iff]
  omega

theorem checkedSub_of_range {a b : Int} (h : -1 ≤ a - b ∧ a - b ≤ maxMoney) :
    checkedSub 64 a b = some (a - b) := by
  apply checked_of_fits
  rw [maxMoney_eq] at h
  rw [fits64_iff]
  omega

section AddValues

variable {nValueOut : Int} {vout : List CTxOut}

theorem addValues_cons {txOut : CTxOut} (hsum : 0 ≤ nValueOut) (hvalue : 0 ≤ txOut.nValue)
    (hle : nValueOut + txOut.nValue ≤ maxMoney) :
    addValues nValueOut (txOut :: vout) = addValues (nValueOut + txOut.nValue) vout := by
  have hrange : moneyRange txOut.nValue = true := moneyRange_iff.2 ⟨hvalue, by omega⟩
  have hrange' : moneyRange (nValueOut + txOut.nValue) = true := moneyRange_iff.2 ⟨by omega, hle⟩
  have hadd : checkedAdd 64 nValueOut txOut.nValue = some (nValueOut + txOut.nValue) :=
    checkedAdd_of_range (by omega)
  simp only [addValues, hrange, if_true, hadd, bind_eq_bind, bind_some, hrange']

/-- The sum is computed without overflow, and is in the money range if there is one. -/
theorem addValues_range (hsum : 0 ≤ nValueOut ∧ nValueOut ≤ maxMoney) :
    ∃ result, addValues nValueOut vout = some result ∧
      ∀ total, result = .ok total → 0 ≤ total ∧ total ≤ maxMoney := by
  induction vout generalizing nValueOut with
  | nil =>
    refine ⟨.ok nValueOut, rfl, ?_⟩
    intro total htotal
    cases htotal
    exact hsum
  | cons txOut vout ih =>
    by_cases hvalue : moneyRange txOut.nValue = true
    · have hbounds := moneyRange_iff.1 hvalue
      have hadd : checkedAdd 64 nValueOut txOut.nValue = some (nValueOut + txOut.nValue) :=
        checkedAdd_of_range (by omega)
      by_cases hrange : moneyRange (nValueOut + txOut.nValue) = true
      · -- the next iteration starts from a sum in range
        rcases ih (moneyRange_iff.1 hrange) with ⟨result, hresult, hspec⟩
        refine ⟨result, ?_, hspec⟩
        rw [← hresult, addValues_cons hsum.1 hbounds.1 (moneyRange_iff.1 hrange).2]
      · refine ⟨.error valueOutOfRange, ?_, nofun⟩
        simp [addValues, hvalue, hadd, hrange]
    · refine ⟨.error valueOutOfRange, ?_, nofun⟩
      simp [addValues, hvalue]

theorem addValues_zeros (hsum : 0 ≤ nValueOut ∧ nValueOut ≤ maxMoney)
    (hzeros : ∀ txOut ∈ vout, txOut.nValue = 0) : addValues nValueOut vout = some (.ok nValueOut) := by
  induction vout with
  | nil => rfl
  | cons txOut vout ih =>
    have hzero : txOut.nValue = 0 := hzeros txOut (.head vout)
    rw [addValues_cons hsum.1 (by omega) (by omega), hzero, Int.add_zero]
    apply ih
    intro other hother
    exact hzeros other (.tail txOut hother)

end AddValues

theorem getValueOut_range (vout : List CTxOut) :
    ∃ result, getValueOut vout = some result ∧
      ∀ total, result = .ok total → 0 ≤ total ∧ total ≤ maxMoney :=
  addValues_range (by decide)

/-! ## The check in numbers -/

/-- The share is checked without overflow, and passes if it is a tenth, give or take one. -/
theorem checkTeamShare_spec (teamValue : Int) {total : Int} (htotal : 0 ≤ total ∧ total ≤ maxMoney) :
    ∃ result, checkTeamShare total teamValue = some result ∧
      (result = .ok () ↔ (0 < total → |teamValue - total / 10| ≤ 1)) := by
  by_cases hpos : 0 < total
  · rcases percent_of_range tkncTeamSharePercent htotal (by decide) with ⟨hmul, hdiv⟩
    have htenth : total * tkncTeamSharePercent / 100 = total / 10 := by
      unfold tkncTeamSharePercent
      omega
    rw [htenth] at hdiv
    have hlowest : checkedSub 64 (total / 10) 1 = some (total / 10 - 1) :=
      checkedSub_of_range (by omega)
    have hhighest : checkedAdd 64 (total / 10) 1 = some (total / 10 + 1) :=
      checkedAdd_of_range (by omega)
    have habs : |teamValue - total / 10| ≤ 1 ↔
        ¬(teamValue < total / 10 - 1 ∨ teamValue > total / 10 + 1) := by
      rw [abs_le]
      omega
    simp only [checkTeamShare, gt_iff_lt, hpos, if_true, hmul, hdiv, hlowest, hhighest,
      bind_eq_bind, bind_some, true_imp_iff, habs]
    split
    · exact ⟨_, rfl, by simp [*]⟩
    · exact ⟨_, rfl, by simp [*]⟩
  · exact ⟨.ok (), by simp [checkTeamShare, hpos], by simp [hpos]⟩

theorem checkTeamWallet_spec (teamScript : Script) (vout : List CTxOut) {total : Int}
    (htotal : 0 ≤ total ∧ total ≤ maxMoney) :
    ∃ result, checkTeamWallet teamScript vout total = some result ∧
      (result = .ok () ↔ ∃ team, vout[1]? = some team ∧ team.scriptPubKey = teamScript ∧
        (0 < total → |team.nValue - total / 10| ≤ 1)) := by
  match vout with
  | [] => exact ⟨_, rfl, by simp⟩
  | [_] => exact ⟨_, rfl, by simp⟩
  | _ :: team :: _ =>
    rcases checkTeamShare_spec team.nValue htotal with ⟨result, hresult, hspec⟩
    by_cases hscript : team.scriptPubKey = teamScript
    · refine ⟨result, by simp [checkTeamWallet, hscript, hresult], ?_⟩
      simp [hspec, hscript]
    · refine ⟨_, by simp [checkTeamWallet, hscript]; rfl, ?_⟩
      simp [hscript]

theorem checkCoinbase_spec (teamScript : Script) (vout : List CTxOut) {nHeight nFees subsidy : Int}
    (hheight : 1 ≤ nHeight) (hsubsidy : getBlockSubsidy nHeight = some subsidy)
    (hreward : 0 ≤ nFees + subsidy ∧ nFees + subsidy ≤ maxMoney) :
    ∃ result, checkCoinbase teamScript nHeight nFees vout = some result ∧
      (result = .ok () ↔ ∃ total team, getValueOut vout = some (.ok total) ∧
        total ≤ nFees + subsidy ∧ vout[1]? = some team ∧ team.scriptPubKey = teamScript ∧
        (0 < total → |team.nValue - total / 10| ≤ 1)) := by
  have hadd : checkedAdd 64 nFees subsidy = some (nFees + subsidy) :=
    checkedAdd_of_range (by omega)
  rcases getValueOut_range vout with ⟨sum, hvalue, hrange⟩
  simp only [checkCoinbase, hsubsidy, hadd, hvalue, bind_eq_bind, bind_some]
  cases sum with
  | error error => exact ⟨_, rfl, by simp⟩
  | ok total =>
    by_cases hle : total ≤ nFees + subsidy
    · rcases checkTeamWallet_spec teamScript vout (hrange total rfl) with ⟨result, hresult, hspec⟩
      refine ⟨result, ?_, ?_⟩
      · simp only [if_neg (Int.not_lt.2 hle), if_pos (show nHeight > 0 by omega), gt_iff_lt,
          hresult]
      · simp [hspec, hle]
    · refine ⟨_, if_pos (Int.not_le.1 hle), ?_⟩
      simp [hle]

/-! ## The two splits -/

/-- A coinbase of two payments and otherwise empty outputs passes if the second is a tenth of both,
give or take one. -/
theorem checkCoinbase_split (minerScript teamScript : Script)
    {nHeight nFees subsidy minerReward teamReward : Int} {rest : List CTxOut}
    (hheight : 1 ≤ nHeight) (hsubsidy : getBlockSubsidy nHeight = some subsidy)
    (hreward : 0 ≤ nFees + subsidy ∧ nFees + subsidy ≤ maxMoney)
    (hminer : 0 ≤ minerReward) (hteam : 0 ≤ teamReward)
    (hsum : minerReward + teamReward ≤ nFees + subsidy)
    (hshare : |teamReward - (minerReward + teamReward) / 10| ≤ 1)
    (hrest : ∀ txOut ∈ rest, txOut.nValue = 0) :
    checkCoinbase teamScript nHeight nFees
      (⟨minerReward, minerScript⟩ :: ⟨teamReward, teamScript⟩ :: rest) = some (.ok ()) := by
  rcases checkCoinbase_spec teamScript
    (⟨minerReward, minerScript⟩ :: ⟨teamReward, teamScript⟩ :: rest) hheight hsubsidy hreward
    with ⟨result, hresult, hspec⟩
  rw [hresult, some.injEq, hspec]
  refine ⟨minerReward + teamReward, ⟨teamReward, teamScript⟩, ?_, hsum, rfl, rfl, ?_⟩
  · have hle : minerReward + teamReward ≤ maxMoney := le_trans hsum hreward.2
    have hle' : minerReward ≤ maxMoney := by omega
    calc getValueOut (⟨minerReward, minerScript⟩ :: ⟨teamReward, teamScript⟩ :: rest)
        = addValues (0 + minerReward) (⟨teamReward, teamScript⟩ :: rest) :=
          addValues_cons le_rfl hminer ((Int.zero_add minerReward).symm ▸ hle')
      _ = addValues minerReward (⟨teamReward, teamScript⟩ :: rest) := by rw [Int.zero_add]
      _ = addValues (minerReward + teamReward) rest := addValues_cons hminer hteam hle
      _ = some (.ok (minerReward + teamReward)) := addValues_zeros (by omega) hrest
  · intro _
    exact hshare

theorem generateCoinbaseCommitment_split (miner team : CTxOut) (hash : Bytes) :
    ∃ rest, (∀ txOut ∈ rest, txOut.nValue = 0) ∧
      generateCoinbaseCommitment [miner, team] hash = miner :: team :: rest := by
  unfold generateCoinbaseCommitment
  split
  · exact ⟨[commitmentOut hash], by simp [commitmentOut], rfl⟩
  · exact ⟨[], by simp, rfl⟩

section Builders

variable {nHeight nFees subsidy : Int} (script teamScript : Script) (hash : Bytes)

theorem checkCoinbase_createNewBlock (hheight : 1 ≤ nHeight)
    (hsubsidy : getBlockSubsidy nHeight = some subsidy)
    (hreward : 0 ≤ nFees + subsidy ∧ nFees + subsidy ≤ maxMoney) :
    ∃ vout, createNewBlockCoinbase script teamScript nHeight nFees hash = some vout ∧
      vout.take 2 = [⟨nFees + subsidy - (nFees + subsidy) / 10, script⟩,
        ⟨(nFees + subsidy) / 10, teamScript⟩] ∧
      checkCoinbase teamScript nHeight nFees vout = some (.ok ()) := by
  have hadd : checkedAdd 64 nFees subsidy = some (nFees + subsidy) :=
    checkedAdd_of_range (by omega)
  rcases percent_of_range tkncTeamSharePercent hreward (by decide) with ⟨hmul, hdiv⟩
  have htenth : (nFees + subsidy) * tkncTeamSharePercent / 100 = (nFees + subsidy) / 10 := by
    unfold tkncTeamSharePercent
    omega
  rw [htenth] at hdiv
  have hsub : checkedSub 64 (nFees + subsidy) ((nFees + subsidy) / 10) =
      some (nFees + subsidy - (nFees + subsidy) / 10) := checkedSub_of_range (by omega)
  rcases generateCoinbaseCommitment_split ⟨nFees + subsidy - (nFees + subsidy) / 10, script⟩
    ⟨(nFees + subsidy) / 10, teamScript⟩ hash with ⟨rest, hzeros, hvout⟩
  refine ⟨⟨nFees + subsidy - (nFees + subsidy) / 10, script⟩ ::
    ⟨(nFees + subsidy) / 10, teamScript⟩ :: rest, ?_, rfl, ?_⟩
  · simp only [createNewBlockCoinbase, hsubsidy, hadd, hmul, hdiv, hsub, hvout,
      bind_eq_bind, bind_some]
  · apply checkCoinbase_split script teamScript hheight hsubsidy hreward _ _ _ _ hzeros
    · omega
    · omega
    · omega
    · rw [Int.sub_add_cancel, Int.sub_self, abs_zero]
      decide

theorem checkCoinbase_fetchBlockTemplate (hheight : 1 ≤ nHeight)
    (hsubsidy : getBlockSubsidy nHeight = some subsidy) (hnonneg : 0 ≤ subsidy)
    (hfees : 0 ≤ nFees) (hreward : nFees + subsidy ≤ maxMoney) :
    ∃ vout, fetchBlockTemplateCoinbase script teamScript nHeight hash = some vout ∧
      vout.take 2 = [⟨subsidy * 90 / 100, script⟩, ⟨subsidy - subsidy * 90 / 100, teamScript⟩] ∧
      checkCoinbase teamScript nHeight nFees vout = some (.ok ()) := by
  have hclamp : (if subsidy ≤ 0 then 0 else subsidy) = subsidy := by
    split <;> omega
  have hrange : 0 ≤ subsidy ∧ subsidy ≤ maxMoney := by omega
  rcases percent_of_range 90 hrange (by decide) with ⟨hmul, hdiv⟩
  have hsub : checkedSub 64 subsidy (subsidy * 90 / 100) = some (subsidy - subsidy * 90 / 100) :=
    checkedSub_of_range (by omega)
  refine ⟨[⟨subsidy * 90 / 100, script⟩, ⟨subsidy - subsidy * 90 / 100, teamScript⟩,
    commitmentOut hash], ?_, rfl, ?_⟩
  · rw [getBlockSubsidy] at hsubsidy
    simp only [fetchBlockTemplateCoinbase, hsubsidy, hclamp, hmul, hdiv, hsub,
      bind_eq_bind, bind_some]
  · apply checkCoinbase_split script teamScript hheight hsubsidy (by omega) _ _ _ _
      (by simp [commitmentOut])
    · omega
    · omega
    · omega
    · -- the complement of the floor of nine tenths is the ceiling of a tenth
      rw [abs_le]
      omega

end Builders

theorem getBlockSubsidy_one : getBlockSubsidy 1 = some 333332222222 := by
  have heq := getTKNCBlockSubsidy_eq (h := 1) le_rfl (by decide)
  simpa [getBlockSubsidy, subsidyAt, remainingAfter_one] using heq

/-- Both coinbases pass the check, and what passes pays the team a tenth, give or take one.  No
computation overflows. -/
theorem reward_split_agrees {nHeight : Int} (hheight : 1 ≤ nHeight) (hint : Fits 32 nHeight) :
    ∃ subsidy, getBlockSubsidy nHeight = some subsidy ∧
      ∀ nFees, 0 ≤ nFees → moneyRange (nFees + subsidy) = true → ∀ teamScript,
        (∀ script hash, ∃ vout,
          createNewBlockCoinbase script teamScript nHeight nFees hash = some vout ∧
            vout.take 2 = [⟨nFees + subsidy - (nFees + subsidy) / 10, script⟩,
              ⟨(nFees + subsidy) / 10, teamScript⟩] ∧
            checkCoinbase teamScript nHeight nFees vout = some (.ok ())) ∧
        (∀ script hash, ∃ vout,
          fetchBlockTemplateCoinbase script teamScript nHeight hash = some vout ∧
            vout.take 2 = [⟨subsidy * 90 / 100, script⟩,
              ⟨subsidy - subsidy * 90 / 100, teamScript⟩] ∧
            checkCoinbase teamScript nHeight nFees vout = some (.ok ())) ∧
        ∀ vout, ∃ result, checkCoinbase teamScript nHeight nFees vout = some result ∧
          (result = .ok () → ∃ total, getValueOut vout = some (.ok total) ∧
            total ≤ nFees + subsidy ∧
            (0 < total → ∃ team, vout[1]? = some team ∧ |team.nValue - total / 10| ≤ 1)) := by
  rcases getTKNCBlockSubsidy_bounds hint with ⟨subsidy, hsubsidy, hnonneg, _⟩
  refine ⟨subsidy, hsubsidy, ?_⟩
  intro nFees hfees hrange teamScript
  have hreward := moneyRange_iff.1 hrange
  refine ⟨?_, ?_, ?_⟩
  · intro script hash
    exact checkCoinbase_createNewBlock script teamScript hash hheight hsubsidy hreward
  · intro script hash
    exact checkCoinbase_fetchBlockTemplate script teamScript hash hheight hsubsidy hnonneg hfees
      hreward.2
  · intro vout
    rcases checkCoinbase_spec teamScript vout hheight hsubsidy hreward with ⟨result, hresult, hspec⟩
    refine ⟨result, hresult, ?_⟩
    intro hok
    rcases hspec.1 hok with ⟨total, team, hvalue, hle, hteam, _, hshare⟩
    refine ⟨total, hvalue, hle, ?_⟩
    intro hpos
    exact ⟨team, hteam, hshare hpos⟩

theorem reward_split_agrees_one :
    (1 : Int) ≤ 1 ∧ Fits 32 1 ∧ ∃ subsidy, getBlockSubsidy 1 = some subsidy ∧
      subsidy = 333332222222 ∧ moneyRange (5 + subsidy) = true ∧
      ∃ vout, createNewBlockCoinbase [] [0x51] 1 5 [] = some vout ∧
        vout.take 2 = [⟨299999000005, []⟩, ⟨33333222222, [0x51]⟩] ∧
        checkCoinbase [0x51] 1 5 vout = some (.ok ()) := by
  have hint : Fits 32 (1 : Int) := by decide
  rcases reward_split_agrees le_rfl hint with ⟨subsidy, hsubsidy, hagrees⟩
  have hsubsidy' : subsidy = 333332222222 :=
    Option.some.inj (hsubsidy.symm.trans getBlockSubsidy_one)
  have hrange : moneyRange (5 + subsidy) = true := by
    rw [hsubsidy']
    decide
  obtain ⟨vout, hvout, hpaid, hok⟩ := (hagrees 5 (by decide) hrange [0x51]).1 [] []
  rw [hsubsidy'] at hpaid
  exact ⟨le_rfl, hint, subsidy, hsubsidy, hsubsidy', hrange, vout, hvout, hpaid, hok⟩

end TKNC.Validation
