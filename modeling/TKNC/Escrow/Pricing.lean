import TKNC.Escrow.MinerGate
import TKNC.Escrow.PaymentBook

/-!
# Pricing — the two prices of a token

The payer's node charges a token at the miner's rate in its rate table, or else at the price stored
in the record it charges (`rateTkncPerToken`).  The miner counts it at the rate stored in the record
that the key selects, or else at one satoshi (`servedPrice`).  For a pay-as-you-go record neither
side cuts the product, so the two costs of a request agree exactly when the two prices do.
-/

namespace TKNC.Escrow.Pricing

open Consensus Lib.MachineInt Lib.Numeral Wallet

/-- The price at which the miner counts: that of the record which the key selects, at least one
satoshi. -/
def servedPrice (db : Database) (apiKey : Bytes) : Int :=
  let tokensPerTknc :=
    match findSpendingLimitByAPIKey db apiKey with
    | some e => if e.rateTokensPerTknc > 0 then e.rateTokensPerTknc else 0
    | none => 0
  let rate := if tokensPerTknc > 0 then coin.tdiv tokensPerTknc else 1
  if rate ≤ 0 then 1 else rate

theorem one_le_servedPrice (db : Database) (apiKey : Bytes) : 1 ≤ servedPrice db apiKey := by
  unfold servedPrice
  dsimp only
  split <;> omega

theorem servedCost_eq {db : Database} {apiKey : Bytes} {tokensUsed : Int}
    (htokens : 0 < tokensUsed) (hmax : tokensUsed * servedPrice db apiKey ≤ int64Max) :
    servedCost db apiKey tokensUsed = tokensUsed * servedPrice db apiKey := by
  have hone := one_le_servedPrice db apiKey
  have hpos : 0 < tokensUsed * servedPrice db apiKey := Int.mul_pos htokens (by omega)
  simp only [int64Max] at hmax
  have hexact : i64 (tokensUsed * servedPrice db apiKey) = tokensUsed * servedPrice db apiKey :=
    i64_of_fits (fits64_iff.2 (by omega))
  change (if i64 (tokensUsed * servedPrice db apiKey) ≤ 0 then 1
    else i64 (tokensUsed * servedPrice db apiKey)) = _
  rw [hexact, if_neg (Int.not_le.2 hpos)]

/-! ## Agreement -/

def countedCost (db : Database) (served : ServedMap) (apiKey : Bytes) (tokensUsed : Int) : Int :=
  trackMinerServedTokens db served apiKey tokensUsed apiKey - served apiKey

/-- The call charges the payer what the miner counts. -/
def PricedAlike (node : Node) (db : Database) (served : ServedMap) (apiKey : Bytes)
    (tokensUsed : Int) : Prop :=
  (checkAndDeductEscrow node db apiKey tokensUsed).receipt.map (·.costTknc) =
    some (countedCost db served apiKey tokensUsed)

variable {node : Node} {db : Database} {served : ServedMap} {apiKey : Bytes} {tokensUsed : Int}
  {k : DbKey} {e : SpendingLimit}

theorem countedCost_eq (hkey : apiKey ≠ []) (htokens : 0 < tokensUsed)
    (hfits : Fits 64 (served apiKey))
    (hmax : tokensUsed * servedPrice db apiKey ≤ int64Max)
    (hsum : served apiKey + tokensUsed * servedPrice db apiKey ≤ int64Max) :
    countedCost db served apiKey tokensUsed = tokensUsed * servedPrice db apiKey := by
  have hcost := servedCost_eq htokens hmax
  rw [countedCost, trackMinerServedTokens_self hkey htokens hfits (hcost.symm ▸ hsum), hcost]
  omega

theorem costTknc_receipt (hcharged : Charged node db apiKey tokensUsed k e)
    (hunlimited : e.totalTknc = 0) (htokens : 0 < tokensUsed) :
    (checkAndDeductEscrow node db apiKey tokensUsed).receipt.map (·.costTknc) =
      some (tokensUsed * rateTkncPerToken node e) := by
  have hone := one_le_rateTkncPerToken node e
  have hguard := hcharged.fits
  rw [Int.tdiv_eq_ediv_of_nonneg (by decide)] at hguard
  have hmax : tokensUsed * rateTkncPerToken node e ≤ int64Max :=
    Int.mul_le_of_le_ediv (by omega) hguard
  have hpos : 0 < tokensUsed * rateTkncPerToken node e := Int.mul_pos htokens (by omega)
  rcases hcharged.bills.2.2 with ⟨receipt, hreceipt, hcost⟩
  rw [hreceipt, Option.map_some, hcost,
    cost_unlimited hunlimited hone (Int.le_of_lt htokens) hmax, Int.max_eq_right (by omega)]

def selectedRate (db : Database) (apiKey : Bytes) : Int :=
  (findSpendingLimitByAPIKey db apiKey).elim 0 (·.rateTokensPerTknc)

/-- One price, by the rate of the miner in the table, the price in the charged record and the rate
of the selected one: each side has a rate or falls back. -/
def SamePrice (tableRate recordPrice selectedRate : Int) : Prop :=
  if 0 < selectedRate then
    if 0 < tableRate then max 1 (coin / tableRate) = max 1 (coin / selectedRate)
    else max 1 recordPrice = max 1 (coin / selectedRate)
  else
    if 0 < tableRate then coin / tableRate ≤ 1 else recordPrice ≤ 1

theorem servedPrice_eq (db : Database) (apiKey : Bytes) :
    servedPrice db apiKey =
      if 0 < selectedRate db apiKey then max 1 (coin / selectedRate db apiKey) else 1 := by
  rw [servedPrice, selectedRate]
  cases findSpendingLimitByAPIKey db apiKey with
  | none => rfl
  | some e =>
    have hdiv := Int.tdiv_eq_ediv_of_nonneg (by decide : 0 ≤ coin) (b := e.rateTokensPerTknc)
    simp only [Option.elim_some]
    by_cases hrate : e.rateTokensPerTknc > 0
    · simp only [if_pos hrate, hdiv]
      split <;> omega
    · simp only [if_neg hrate]
      exact (if_neg hrate).symm

theorem samePrice_iff (node : Node) (db : Database) (apiKey : Bytes) (e : SpendingLimit) :
    SamePrice (getTokensPerTknc node.tokenRates e.minerWallet) e.rateTkncPerToken
        (selectedRate db apiKey) ↔
      rateTkncPerToken node e = servedPrice db apiKey := by
  have hdiv (rate : Int) : coin.tdiv rate = coin / rate :=
    Int.tdiv_eq_ediv_of_nonneg (by decide)
  rw [servedPrice_eq, rateTkncPerToken, SamePrice, hdiv]
  split_ifs <;> omega

theorem pricedAlike_iff (hcharged : Charged node db apiKey tokensUsed k e)
    (hunlimited : e.totalTknc = 0) (htokens : 0 < tokensUsed) (hfits : Fits 64 (served apiKey))
    (hmax : tokensUsed * servedPrice db apiKey ≤ int64Max)
    (hsum : served apiKey + tokensUsed * servedPrice db apiKey ≤ int64Max) :
    PricedAlike node db served apiKey tokensUsed ↔
      apiKey ≠ [] ∧ SamePrice (getTokensPerTknc node.tokenRates e.minerWallet) e.rateTkncPerToken
        (selectedRate db apiKey) := by
  rw [samePrice_iff, PricedAlike, costTknc_receipt hcharged hunlimited htokens, Option.some.injEq]
  by_cases hkey : apiKey = []
  · -- the miner does not count requests without a key
    have hnone : countedCost db served apiKey tokensUsed = 0 := by
      rw [countedCost, trackMinerServedTokens_other (fun h => h.2.1 hkey), Int.sub_self]
    have hone := one_le_rateTkncPerToken node e
    have hpos : 0 < tokensUsed * rateTkncPerToken node e := Int.mul_pos htokens (by omega)
    rw [hnone]
    exact iff_of_false (by omega) (fun h => h.1 hkey)
  · rw [countedCost_eq hkey htokens hfits hmax hsum, and_iff_right hkey]
    exact ⟨fun h => Int.eq_of_mul_eq_mul_left (by omega) h, fun h => by rw [h]⟩

/-! ## A miner that changes its price -/

def ratedNode (tokensPerTknc : Int) : Node :=
  { payingNode [] 0 with tokenRates := ⟨[(ascii "miner", tokensPerTknc)], []⟩ }

theorem pricedAlike_iff_sameRate :
    (Charged (ratedNode 1) unlimitedDb (ascii "key") 1 unlimitedKey unlimitedRecord ∧
      unlimitedRecord.totalTknc = 0) ∧
    PricedAlike (ratedNode 1) unlimitedDb (fun _ => 0) (ascii "key") 1 := by
  have hcharged : Charged (ratedNode 1) unlimitedDb (ascii "key") 1 unlimitedKey
      unlimitedRecord := ⟨by decide, by decide⟩
  refine ⟨⟨hcharged, rfl⟩, (pricedAlike_iff hcharged rfl (by decide) (by decide) (by decide)
    (by decide)).2 ⟨by decide, ?_⟩⟩
  rw [SamePrice]
  decide

/-- The record was made at one token a TKNC; the rate table has two. -/
theorem not_pricedAlike_newRate :
    Charged (ratedNode 2) unlimitedDb (ascii "key") 1 unlimitedKey unlimitedRecord ∧
      (checkAndDeductEscrow (ratedNode 2) unlimitedDb (ascii "key") 1).receipt.map (·.costTknc) =
        some 50000000 ∧
      countedCost unlimitedDb (fun _ => 0) (ascii "key") 1 = 100000000 ∧
      ¬ PricedAlike (ratedNode 2) unlimitedDb (fun _ => 0) (ascii "key") 1 := by
  have hcharged : (checkAndDeductEscrow (ratedNode 2) unlimitedDb (ascii "key") 1).receipt.map
      (·.costTknc) = some 50000000 := by decide +kernel
  have hcounted : countedCost unlimitedDb (fun _ => 0) (ascii "key") 1 = 100000000 := by
    decide +kernel
  refine ⟨⟨by decide, by decide⟩, hcharged, hcounted, ?_⟩
  intro halike
  rw [PricedAlike, hcharged, hcounted] at halike
  cases halike

end TKNC.Escrow.Pricing
