import TKNC.Escrow.Admission

/-!
# FreeAdmission — is every admitted request billed?

Admission looks at the money that is left and billing also at the token quota, and the two pick
their record with different tests.  A request that is admitted but finds no record to charge is
served for nothing.
-/

namespace TKNC.Escrow

open Consensus Lib Lib.MachineInt Lib.Numeral Wallet

/-- If the key is admitted, then every request for it whose cost does not overflow is billed. -/
def NoFreeAdmission (node : Node) (db : Database) (apiKey : Bytes) : Prop :=
  (canAffordInference node db apiKey).1 = .ok () →
    ∀ tokensUsed, 0 < tokensUsed →
      (∀ k e, db.entries.find? (chargeable node apiKey) = some (k, e) →
        tokensUsed * rateTkncPerToken node e ≤ int64Max) →
      ∃ receipt, (checkAndDeductEscrow node db apiKey tokensUsed).receipt = some receipt ∧
        0 < receipt.costTknc

theorem rateTkncPerToken_le {node : Node} {e : SpendingLimit} (h : Fits 64 e.rateTkncPerToken) :
    rateTkncPerToken node e ≤ int64Max := by
  rw [fits64_iff] at h
  have hcoin : coin.tdiv (getTokensPerTknc node.tokenRates e.minerWallet) ≤ coin :=
    Int.tdiv_le_self _ (by decide)
  unfold rateTkncPerToken
  simp only [coin, int64Max] at hcoin ⊢
  split <;> split <;> omega

/-- A request that fits is billed a positive amount exactly while the record has money left. -/
theorem chargeFor_cost_pos_iff {e : SpendingLimit} {rate tokensUsed : Int} (hrate : 1 ≤ rate)
    (htokens : 0 < tokensUsed) (hfits : tokensUsed * rate ≤ int64Max) :
    0 < (chargeFor e rate tokensUsed).cost ↔ 0 < e.getRemainingLimit := by
  have hpos : 0 < tokensUsed * rate := Int.mul_pos htokens (by omega)
  -- the product fits, so the cost is positive before it is cut to what is left
  have hexact : i64 (tokensUsed * rate) = tokensUsed * rate := by
    simp only [int64Max] at hfits
    exact i64_of_fits (fits64_iff.2 (by omega))
  simp only [chargeFor, hexact]
  rw [if_neg (Int.not_le.2 hpos)]
  split
  · rfl
  · constructor <;> intro <;> omega

theorem le_int64Max_tdiv {rate tokensUsed : Int} (hrate : 1 ≤ rate)
    (hfits : tokensUsed * rate ≤ int64Max) : tokensUsed ≤ int64Max.tdiv rate := by
  rw [Int.tdiv_eq_ediv_of_nonneg (by decide)]
  exact (Int.le_ediv_iff_mul_le (by omega)).2 hfits

/-- The records that the store can hold have 64-bit rates. -/
theorem noFreeAdmission_iff {node : Node} {db : Database} {apiKey : Bytes}
    (hrates : ∀ kv ∈ db.entries, Fits 64 kv.2.rateTkncPerToken) :
    NoFreeAdmission node db apiKey ↔
      ∀ selected, findSpendingLimitByAPIKey db apiKey = some selected →
        Admissible node apiKey selected →
          ∃ k e, db.entries.find? (chargeable node apiKey) = some (k, e) ∧
            0 < e.getRemainingLimit := by
  constructor
  · intro hbilled selected hselected hadmissible
    have hadmitted := (canAffordInference_ok_iff node db apiKey).2 ⟨selected, hselected, hadmissible⟩
    -- A single token already shows whether the key can be billed.
    have hone : ∀ k e, db.entries.find? (chargeable node apiKey) = some (k, e) →
        1 * rateTkncPerToken node e ≤ int64Max := by
      intro k e hfirst
      rw [Int.one_mul]
      exact rateTkncPerToken_le (hrates _ (List.mem_of_find?_eq_some hfirst))
    rcases hbilled hadmitted 1 (by decide) hone with ⟨receipt, hreceipt, hcost⟩
    by_contra hnone
    push Not at hnone
    -- either a record without money left is charged nothing, or no record is charged at all
    by_cases hany : ∃ k e, Charged node db apiKey 1 k e
    · rcases hany with ⟨k, e, hcharged⟩
      rcases hcharged.bills.2.2 with ⟨receipt', hreceipt', hcost'⟩
      cases Option.some.inj (hreceipt.symm.trans hreceipt')
      rw [hcost', chargeFor_cost_pos_iff (one_le_rateTkncPerToken node e) (by decide)
        (hone k e hcharged.first)] at hcost
      exact absurd hcost (Int.not_lt.2 (hnone k e hcharged.first))
    · push Not at hany
      rw [checkAndDeductEscrow_refused hany] at hreceipt
      cases hreceipt
  · intro hcharge hadmitted tokensUsed htokens hfits
    rcases (canAffordInference_ok_iff node db apiKey).1 hadmitted with
      ⟨selected, hselected, hadmissible⟩
    rcases hcharge selected hselected hadmissible with ⟨k, e, hfirst, hleft⟩
    have hrate := one_le_rateTkncPerToken node e
    have hcharged : Charged node db apiKey tokensUsed k e :=
      ⟨hfirst, le_int64Max_tdiv hrate (hfits k e hfirst)⟩
    rcases hcharged.bills.2.2 with ⟨receipt, hreceipt, hcost⟩
    refine ⟨receipt, hreceipt, ?_⟩
    rw [hcost]
    exact (chargeFor_cost_pos_iff hrate htokens (hfits k e hfirst)).2 hleft

/-! ## A limit of less than one token -/

def smallArgs : CreateEscrowArgs :=
  { userWallet := ascii "user"
    minerWallet := ascii "miner"
    amount := 5000000
    rateTokensPerTknc := 10
    modelName := ascii "model"
    modelHash := []
    apiKey := ascii "key"
    snapshotHash := []
    suffix := ascii "1"
    now := 0 }

def smallRecord : SpendingLimit :=
  { escrowId := ascii "escrow_key_1"
    userWallet := ascii "user"
    minerWallet := ascii "miner"
    modelName := ascii "model"
    apiKey := ascii "key"
    totalTknc := 5000000
    spendingLimit := 5000000
    quotaTokens := 0
    rateTokensPerTknc := 10
    rateTkncPerToken := 10000000
    expiresAt := 7776000 }

def smallDb : Database :=
  writeSpendingLimit OrderedMap.empty ⟨ascii "escrow_key_1"⟩ smallRecord

def payerNode : Node :=
  { NodeContext.ofWallets [{ CWallet.owning [ascii "user"] with mineTrusted := 500000000 }] with
    tokenRates := ⟨[], []⟩
    pendingCosts := fun _ => 0 }

theorem noFreeAdmission_iff_smallDb :
    (∀ kv ∈ smallDb.entries, Fits 64 kv.2.rateTkncPerToken) ∧
    (NoFreeAdmission payerNode smallDb (ascii "key") ↔
      ∀ selected, findSpendingLimitByAPIKey smallDb (ascii "key") = some selected →
        Admissible payerNode (ascii "key") selected →
          ∃ k e, smallDb.entries.find? (chargeable payerNode (ascii "key")) = some (k, e) ∧
            0 < e.getRemainingLimit) :=
  have hrates : ∀ kv ∈ smallDb.entries, Fits 64 kv.2.rateTkncPerToken := by decide
  ⟨hrates, noFreeAdmission_iff hrates⟩

theorem smallDb_admitted_unbilled :
    createescrow smallArgs = .ok smallRecord ∧
      (canAffordInference payerNode smallDb (ascii "key")).1 = .ok () ∧
      (checkAndDeductEscrow payerNode smallDb (ascii "key") 1).receipt = none ∧
      ¬ NoFreeAdmission payerNode smallDb (ascii "key") := by
  have hadmitted : (canAffordInference payerNode smallDb (ascii "key")).1 = .ok () := by rfl
  have hunbilled : (checkAndDeductEscrow payerNode smallDb (ascii "key") 1).receipt = none := by
    decide
  refine ⟨by rfl, hadmitted, hunbilled, ?_⟩
  intro h
  have hnone : smallDb.entries.find? (chargeable payerNode (ascii "key")) = none := by decide
  rcases h hadmitted 1 (by decide) (fun k e hfirst => by rw [hnone] at hfirst; cases hfirst) with
    ⟨receipt, hreceipt, _⟩
  rw [hunbilled] at hreceipt
  cases hreceipt

end TKNC.Escrow
