import TKNC.Escrow.BillingRun
import TKNC.Escrow.Lifecycle

/-!
# Quota — tokens and money of a prepaid record

A prepaid record has two limits: the money, which a charge never exceeds, and the token quota, which
is only compared before a charge.  The price of a token is rounded down to whole satoshis, so the
money can buy more tokens than the quota.  The run invariant is that the counted tokens, at the
price, were paid for; whether the quota holds is then a question about the terms alone.
-/

namespace TKNC.Escrow.Quota

open Consensus Lib Lib.EventMachine Lib.MachineInt Lib.Numeral Lifecycle OrderedMap Int
  SpendingLimit

theorem one_le_snapshotRate {rate : Int} (hrate : 0 < rate) : 1 ≤ snapshotRate rate := by
  unfold snapshotRate
  split
  · exact Int.le_refl 1
  · rename_i hlt
    rw [Int.tdiv_eq_ediv_of_nonneg (by decide)]
    exact Int.le_ediv_of_mul_le hrate (by omega)

/-- The node knows the rate that the record was made with, or no rate for its miner. -/
def AtRate (args : CreateEscrowArgs) (node : Node) : Prop :=
  getTokensPerTknc node.tokenRates args.minerWallet = args.rateTokensPerTknc ∨
    getTokensPerTknc node.tokenRates args.minerWallet ≤ 0

instance (args : CreateEscrowArgs) (node : Node) : Decidable (AtRate args node) := by
  unfold AtRate
  infer_instance

theorem rateTkncPerToken_eq {args : CreateEscrowArgs} {node : Node} {e : SpendingLimit}
    (hrate : 0 < args.rateTokensPerTknc) (hat : AtRate args node)
    (hminer : e.minerWallet = args.minerWallet)
    (hprice : e.rateTkncPerToken = snapshotRate args.rateTokensPerTknc) :
    rateTkncPerToken node e = snapshotRate args.rateTokensPerTknc := by
  have hone := one_le_snapshotRate hrate
  unfold rateTkncPerToken
  rw [hminer, hprice]
  dsimp only
  rcases hat with hsame | hnone
  · rw [hsame, if_pos hrate]
    by_cases hge : args.rateTokensPerTknc ≥ coin
    · -- from one token a satoshi on, the quotient is one or is raised to one
      have hle : coin / args.rateTokensPerTknc ≤ 1 := Int.ediv_le_of_le_mul hrate (by omega)
      rw [snapshotRate, if_pos hge, Int.tdiv_eq_ediv_of_nonneg (by decide)]
      split <;> omega
    · rw [snapshotRate, if_neg hge] at hone ⊢
      exact if_neg (by omega)
  · rw [if_neg (by omega), if_neg (by omega)]

/-! ## Runs -/

def charge (db : Database) (call : BillingCall) : Database :=
  (checkAndDeductEscrow call.node db call.apiKey call.tokensUsed).db

def WithinQuota (k : DbKey) (db : Database) : Prop :=
  ∃ e, db.get? k = some e ∧ e.usedTokens ≤ e.quotaTokens

/-- Whatever else is stored, no sequence of calls at the rate of the record uses more tokens than
its quota. -/
def QuotaKept (args : CreateEscrowArgs) (e : SpendingLimit) : Prop :=
  ∀ (db : Database) (calls : List BillingCall),
    (∀ call ∈ calls, AtRate args call.node ∧ 0 < call.tokensUsed) →
    Always charge (WithinQuota ⟨e.escrowId⟩) (writeSpendingLimit db ⟨e.escrowId⟩ e) calls

/-- The record under `k` has the terms of `args`, and its tokens were paid for at the price. -/
structure PaidTokens (args : CreateEscrowArgs) (e : SpendingLimit) : Prop where
  total : e.totalTknc = args.amount
  quota : e.quotaTokens = args.amount * args.rateTokensPerTknc / coin
  price : e.rateTkncPerToken = snapshotRate args.rateTokensPerTknc
  miner : e.minerWallet = args.minerWallet
  used_nonneg : 0 ≤ e.usedTokens
  consumed_nonneg : 0 ≤ e.consumedTknc
  consumed_le : e.consumedTknc ≤ e.totalTknc
  paid : e.usedTokens * snapshotRate args.rateTokensPerTknc ≤ e.consumedTknc

variable {args : CreateEscrowArgs} {e : SpendingLimit}

theorem paidTokens_of_newRecord (hnew : newRecord args = .ok e) (hamount : 0 < args.amount)
    (hfits : Fits 64 (args.amount * args.rateTokensPerTknc)) : PaidTokens args e := by
  have hcreated := created_of_newRecord hnew
  have hproduct : 0 ≤ args.amount * args.rateTokensPerTknc :=
    mul_nonneg (le_of_lt hamount) (le_of_lt hcreated.rate)
  exact
    { total := hcreated.total
      quota := by
        rw [hcreated.quota (by omega), i64_of_fits hfits, tdiv_eq_ediv_of_nonneg hproduct]
      price := hcreated.price
      miner := hcreated.miner
      used_nonneg := by rw [hcreated.used]
      consumed_nonneg := by rw [hcreated.consumed]
      consumed_le := by
        rw [hcreated.consumed, hcreated.total]
        exact le_of_lt hamount
      paid := by rw [hcreated.used, hcreated.consumed, zero_mul] }

/-- What a charge counts is paid for: all the tokens at their price, or what the rest buys. -/
theorem tokens_chargeFor {rate tokensUsed : Int} (hrate : 1 ≤ rate) (htokens : 0 < tokensUsed)
    (hguard : tokensUsed ≤ int64Max.tdiv rate) (hrest : 0 ≤ e.getRemainingLimit) :
    0 ≤ (chargeFor e rate tokensUsed).tokensUsed ∧
      (chargeFor e rate tokensUsed).tokensUsed * rate ≤ (chargeFor e rate tokensUsed).cost := by
  rw [Int.tdiv_eq_ediv_of_nonneg (by decide)] at hguard
  have hle : tokensUsed * rate ≤ int64Max := Int.mul_le_of_le_ediv (by omega) hguard
  have hpos : 0 < tokensUsed * rate := Int.mul_pos htokens (by omega)
  have hexact : i64 (tokensUsed * rate) = tokensUsed * rate := by
    simp only [int64Max] at hle
    exact i64_of_fits (fits64_iff.2 (by omega))
  simp only [chargeFor, hexact, if_neg (Int.not_le.2 hpos)]
  split
  · rw [Int.tdiv_eq_ediv_of_nonneg hrest]
    exact ⟨Int.ediv_nonneg hrest (by omega), Int.ediv_mul_le _ (by omega)⟩
  · exact ⟨Int.le_of_lt htokens, Int.le_refl _⟩

theorem tokens_uncut {rate tokensUsed : Int} (hpos : 0 < tokensUsed * rate)
    (hcovered : tokensUsed * rate ≤ e.getRemainingLimit)
    (hle : tokensUsed * rate ≤ 9223372036854775807) :
    (chargeFor e rate tokensUsed).tokensUsed = tokensUsed := by
  have hexact : i64 (tokensUsed * rate) = tokensUsed * rate :=
    i64_of_fits (fits64_iff.2 (by omega))
  simp only [chargeFor, hexact, if_neg (not_le.2 hpos), if_neg (not_lt.2 hcovered)]

/-- The amounts of one charge at the price of the record. -/
structure PaidCharge (e : SpendingLimit) (price : Int) (c : Charge) : Prop where
  cost : 1 ≤ c.cost
  capped : e.consumedTknc + c.cost ≤ e.totalTknc
  counted : 0 ≤ c.tokensUsed
  paid : (e.usedTokens + c.tokensUsed) * price ≤ e.consumedTknc + c.cost

variable {tokensUsed : Int}

theorem PaidTokens.charge (h : PaidTokens args e) (hrate : 0 < args.rateTokensPerTknc)
    (hrange : 0 < args.amount ∧ args.amount ≤ maxMoney) (htokens : 0 < tokensUsed)
    (hguard : tokensUsed ≤ int64Max.tdiv (snapshotRate args.rateTokensPerTknc))
    (hleft : e.isExhausted = false) :
    PaidCharge e (snapshotRate args.rateTokensPerTknc)
      (chargeFor e (snapshotRate args.rateTokensPerTknc) tokensUsed) := by
  have htotal := h.total
  have hconsumed := h.consumed_nonneg
  have hconsumed_le := h.consumed_le
  have hpaid := h.paid
  simp only [maxMoney_eq] at hrange
  have hcost := cost_limited (snapshotRate args.rateTokensPerTknc) tokensUsed (by omega)
    (by simp only [int64Max]; omega) hconsumed hleft
  have hrest : 0 ≤ e.getRemainingLimit := by
    rw [getRemainingLimit, if_neg (by omega),
      i64_of_fits (fits64_iff.2 (by omega))]
    omega
  rcases tokens_chargeFor (one_le_snapshotRate hrate) htokens hguard hrest with
    ⟨hcounted, hcovers⟩
  refine ⟨hcost.1, hcost.2, hcounted, ?_⟩
  rw [add_mul]
  omega

theorem PaidTokens.billed {node : Node} (h : PaidTokens args e) (hrate : 0 < args.rateTokensPerTknc)
    (hrange : 0 < args.amount ∧ args.amount ≤ maxMoney) (hat : AtRate args node)
    (htokens : 0 < tokensUsed) (hguard : tokensUsed ≤ int64Max.tdiv (rateTkncPerToken node e))
    (hleft : e.isExhausted = false) :
    PaidTokens args (billedRecord node (recoverState e) tokensUsed) := by
  have hprice := rateTkncPerToken_eq hrate hat h.miner h.price
  rw [hprice] at hguard
  have hcharge := h.charge hrate hrange htokens hguard hleft
  rcases billedRecord_tokens node (recoverState e) tokensUsed with ⟨hused', hquota', hprice'⟩
  have hbounds : e.usedTokens + (chargeFor e (snapshotRate args.rateTokensPerTknc)
      tokensUsed).tokensUsed ≤ args.amount := by
    have hle := le_trans hcharge.paid (h.total ▸ hcharge.capped)
    have hnonneg := add_nonneg h.used_nonneg hcharge.counted
    exact le_trans (le_mul_of_one_le_right hnonneg (one_le_snapshotRate hrate)) hle
  have htotal := h.total
  have hconsumed := h.consumed_nonneg
  have hused := h.used_nonneg
  have hcost := hcharge.cost
  have hcapped := hcharge.capped
  have hcounted := hcharge.counted
  simp only [maxMoney_eq] at hrange
  -- neither counter leaves its register
  have hnewUsed : (billedRecord node (recoverState e) tokensUsed).usedTokens =
      e.usedTokens + (chargeFor e (snapshotRate args.rateTokensPerTknc) tokensUsed).tokensUsed := by
    rw [hused', rateTkncPerToken_recoverState, chargeFor_recoverState, hprice,
      usedTokens_recoverState]
    exact i64_of_fits (fits64_iff.2 (by omega))
  have hnewConsumed : (billedRecord node (recoverState e) tokensUsed).consumedTknc =
      e.consumedTknc + (chargeFor e (snapshotRate args.rateTokensPerTknc) tokensUsed).cost := by
    rw [consumedTknc_billedRecord, ← hprice]
    exact consumedTknc_charged_recovered (hprice ▸ fits64_iff.2 (by omega))
  exact
    { total := by rw [totalTknc_billedRecord, totalTknc_recoverState, htotal]
      quota := by rw [hquota', quotaTokens_recoverState, h.quota]
      price := by rw [hprice', storedRate_recoverState, h.price]
      miner := by rw [minerWallet_billedRecord, minerWallet_recoverState, h.miner]
      used_nonneg := by omega
      consumed_nonneg := by omega
      consumed_le := by
        rw [totalTknc_billedRecord, totalTknc_recoverState]
        omega
      paid := by
        rw [hnewUsed, hnewConsumed]
        exact hcharge.paid }

/-! ## Which terms keep the quota -/

/-- Nothing can be used at all, or the money buys no more tokens than the quota. -/
def TermsAgree (args : CreateEscrowArgs) : Prop :=
  args.amount * args.rateTokensPerTknc / coin = 0 ∨
    args.amount / snapshotRate args.rateTokensPerTknc ≤
      args.amount * args.rateTokensPerTknc / coin

instance (args : CreateEscrowArgs) : Decidable (TermsAgree args) := by
  unfold TermsAgree
  infer_instance

theorem PaidTokens.used_le (h : PaidTokens args e) (hrate : 0 < args.rateTokensPerTknc) :
    e.usedTokens ≤ args.amount / snapshotRate args.rateTokensPerTknc := by
  have hone := one_le_snapshotRate hrate
  apply Int.le_ediv_of_mul_le (by omega)
  calc
    e.usedTokens * snapshotRate args.rateTokensPerTknc ≤ e.consumedTknc := h.paid
    _ ≤ e.totalTknc := h.consumed_le
    _ = args.amount := h.total

def Inv (args : CreateEscrowArgs) (k : DbKey) (db : Database) : Prop :=
  ∃ e, db.get? k = some e ∧ PaidTokens args e ∧ e.usedTokens ≤ e.quotaTokens

theorem Inv.withinQuota {k : DbKey} {db : Database} (h : Inv args k db) : WithinQuota k db := by
  rcases h with ⟨e, hget, _, hwithin⟩
  exact ⟨e, hget, hwithin⟩

theorem inv_charge {k : DbKey} {db : Database} {call : BillingCall}
    (hrate : 0 < args.rateTokensPerTknc) (hrange : 0 < args.amount ∧ args.amount ≤ maxMoney)
    (hterms : TermsAgree args) (h : Inv args k db)
    (hcall : AtRate args call.node ∧ 0 < call.tokensUsed) : Inv args k (charge db call) := by
  rcases h with ⟨e, hget, hpaid, hwithin⟩
  by_cases hcharged : Charged call.node db call.apiKey call.tokensUsed k e
  · have hleft := hcharged.not_exhausted
    have hbilled := hpaid.billed hrate hrange hcall.1 hcall.2 hcharged.fits hleft
    refine ⟨_, hcharged.get?_billed, hbilled, ?_⟩
    -- a record with a quota of zero is exhausted from the start, so this one has a quota
    have hopen : e.usedTokens < e.quotaTokens := by
      have htotal := hpaid.total
      simp only [isExhausted, if_neg (show e.totalTknc ≠ 0 by omega),
        Bool.or_eq_false_iff, decide_eq_false_iff_not, ge_iff_le, not_le] at hleft
      exact hleft.2
    have hquota := hpaid.quota
    have hused := hpaid.used_nonneg
    rcases hterms with hzero | hle
    · omega
    · rw [hbilled.quota]
      exact le_trans (hbilled.used_le hrate) hle
  · exact ⟨e, get?_of_not_charged hget hcharged, hpaid, hwithin⟩

/-! ## A single call for the whole amount -/

def plainNode : Node :=
  payingNode [] 0

theorem atRate_plainNode (args : CreateEscrowArgs) : AtRate args plainNode := by
  right
  unfold getTokensPerTknc
  split
  · exact le_refl 0
  · exact le_refl 0

theorem isExpired_plainNode (e : SpendingLimit) : e.isExpired plainNode.getTime = false := by
  unfold isExpired
  split
  · rfl
  · rename_i hpos
    exact decide_eq_false fun h => hpos (le_of_lt h)

/-- A fresh record that stands alone is charged by every call that its guard lets through. -/
theorem charged_alone (hnew : newRecord args = .ok e) (hpaid : PaidTokens args e)
    (hamount : 0 < args.amount) (hquota : 0 < e.quotaTokens)
    (hguard : tokensUsed ≤ int64Max.tdiv (rateTkncPerToken plainNode e)) :
    Charged plainNode (writeSpendingLimit empty ⟨e.escrowId⟩ e) e.apiKey tokensUsed
      ⟨e.escrowId⟩ e := by
  have hcreated := created_of_newRecord hnew
  have htotal := hpaid.total
  have hleft : e.isExhausted = false := by
    simp only [isExhausted, if_neg (show e.totalTknc ≠ 0 by omega),
      hcreated.consumed, hcreated.used, Bool.or_eq_false_iff, decide_eq_false_iff_not]
    omega
  have hpasses : chargeable plainNode e.apiKey (⟨e.escrowId⟩, e) = true := by
    simp [chargeable, isActive, hcreated.state, hleft, isExpired_plainNode]
  exact ⟨List.find?_cons_of_pos hpasses, hguard⟩

theorem used_whole_amount (hnew : newRecord args = .ok e) (hpaid : PaidTokens args e)
    (hamount : 0 < args.amount) (hquota : 0 < e.quotaTokens)
    (hbuys : 0 < args.amount / snapshotRate args.rateTokensPerTknc) :
    ∃ e', (charge (writeSpendingLimit empty ⟨e.escrowId⟩ e)
        ⟨plainNode, e.apiKey, args.amount / snapshotRate args.rateTokensPerTknc⟩).get?
          ⟨e.escrowId⟩ = some e' ∧
      e'.usedTokens = args.amount / snapshotRate args.rateTokensPerTknc ∧
      e'.quotaTokens = e.quotaTokens := by
  have hcreated := created_of_newRecord hnew
  have hrange := hcreated.range
  have htotal := hpaid.total
  have hone := one_le_snapshotRate hcreated.rate
  simp only [maxMoney_eq] at hrange
  have hprice := rateTkncPerToken_eq hcreated.rate (atRate_plainNode args) hpaid.miner hpaid.price
  have hproduct : args.amount / snapshotRate args.rateTokensPerTknc *
      snapshotRate args.rateTokensPerTknc ≤ args.amount := Int.ediv_mul_le _ (by omega)
  have hpos : 0 < args.amount / snapshotRate args.rateTokensPerTknc *
      snapshotRate args.rateTokensPerTknc := Int.mul_pos hbuys (by omega)
  have hguard : args.amount / snapshotRate args.rateTokensPerTknc ≤
      int64Max.tdiv (rateTkncPerToken plainNode e) := by
    rw [hprice, Int.tdiv_eq_ediv_of_nonneg (by decide)]
    apply Int.ediv_le_ediv (by omega)
    simp only [int64Max]
    omega
  have hremaining : e.getRemainingLimit = args.amount := by
    rw [getRemainingLimit, if_neg (by omega), hcreated.consumed, Int.sub_zero, htotal]
    exact i64_of_fits (fits64_iff.2 (by omega))
  have hcharged := charged_alone hnew hpaid hamount hquota hguard
  rcases billedRecord_tokens plainNode (recoverState e)
    (args.amount / snapshotRate args.rateTokensPerTknc) with ⟨hused, hquota', _⟩
  refine ⟨_, hcharged.get?_billed, ?_, ?_⟩
  · rw [hused, rateTkncPerToken_recoverState, chargeFor_recoverState, hprice,
      usedTokens_recoverState, hcreated.used, Int.zero_add]
    have hcovered : args.amount / snapshotRate args.rateTokensPerTknc *
        snapshotRate args.rateTokensPerTknc ≤ e.getRemainingLimit := by
      rw [hremaining]
      exact hproduct
    have hcount := tokens_uncut hpos hcovered (by omega)
    rw [hcount]
    have hle : args.amount / snapshotRate args.rateTokensPerTknc ≤ args.amount :=
      Int.ediv_le_self _ (by omega)
    exact i64_of_fits (fits64_iff.2 (by omega))
  · rw [hquota', quotaTokens_recoverState]

theorem quotaKept_iff (hnew : newRecord args = .ok e) (hamount : 0 < args.amount)
    (hfits : Fits 64 (args.amount * args.rateTokensPerTknc)) :
    QuotaKept args e ↔ TermsAgree args := by
  have hcreated := created_of_newRecord hnew
  have hpaid := paidTokens_of_newRecord hnew hamount hfits
  have hquota_nonneg : 0 ≤ e.quotaTokens := by
    rw [hpaid.quota]
    exact Int.ediv_nonneg
      (Int.mul_nonneg (Int.le_of_lt hamount) (Int.le_of_lt hcreated.rate)) (by decide)
  constructor
  · intro hkept
    by_contra hterms
    simp only [TermsAgree, not_or, Int.not_le, ← hpaid.quota] at hterms
    rcases used_whole_amount hnew hpaid hamount (by omega) (by omega) with
      ⟨e', hget, hused, hquota⟩
    have hcalls := hkept empty
      [⟨plainNode, e.apiKey, args.amount / snapshotRate args.rateTokensPerTknc⟩]
      (by simpa using ⟨atRate_plainNode args, by omega⟩)
    rcases hcalls.last with ⟨e₁, hget₁, hwithin⟩
    cases Option.some.inj (hget.symm.trans hget₁)
    omega
  · intro hterms db calls hcalls
    have hrun := (goodRun_iff_forall_mem charge (writeSpendingLimit db ⟨e.escrowId⟩ e) calls).2
      hcalls
    have hstart : Inv args ⟨e.escrowId⟩ (writeSpendingLimit db ⟨e.escrowId⟩ e) := by
      refine ⟨e, get?_insert_self _ _ _, hpaid, ?_⟩
      rw [hcreated.used]
      exact hquota_nonneg
    exact hrun.always
      (fun _ _ h hcall => inv_charge hcreated.rate ⟨hamount, hcreated.range.2⟩ hterms h hcall)
      (fun _ h => h.withinQuota) hstart

/-! ## A price that is rounded down -/

/-- One TKNC at sixty million tokens a TKNC: a token costs 1.67 satoshis and is charged one. -/
def roundedArgs : CreateEscrowArgs :=
  { unlimitedArgs with
    amount := coin
    rateTokensPerTknc := 60000000 }

def roundedRecord : SpendingLimit :=
  { unlimitedRecord with
    totalTknc := coin
    spendingLimit := coin
    quotaTokens := 60000000
    rateTokensPerTknc := 60000000
    rateTkncPerToken := 1 }

theorem quotaKept_iff_prepaid :
    (newRecord prepaidArgs = .ok prepaidRecord ∧ 0 < prepaidArgs.amount ∧
      Fits 64 (prepaidArgs.amount * prepaidArgs.rateTokensPerTknc)) ∧
    (QuotaKept prepaidArgs prepaidRecord ↔ TermsAgree prepaidArgs) := by
  have hnew : newRecord prepaidArgs = .ok prepaidRecord := by rfl
  have hfits : Fits 64 (prepaidArgs.amount * prepaidArgs.rateTokensPerTknc) := by decide
  exact ⟨⟨hnew, by decide, hfits⟩, quotaKept_iff hnew (by decide) hfits⟩

theorem not_quotaKept_rounded :
    (newRecord roundedArgs = .ok roundedRecord ∧ 0 < roundedArgs.amount ∧
      Fits 64 (roundedArgs.amount * roundedArgs.rateTokensPerTknc)) ∧
    ¬ QuotaKept roundedArgs roundedRecord := by
  have hnew : newRecord roundedArgs = .ok roundedRecord := by rfl
  have hused : ((charge (writeSpendingLimit empty unlimitedKey roundedRecord)
      ⟨plainNode, ascii "key", 100000000⟩).get? unlimitedKey).map
        (fun e => (e.usedTokens, e.quotaTokens)) = some (100000000, 60000000) := by
    decide +kernel
  refine ⟨⟨hnew, by decide, by decide⟩, ?_⟩
  intro hkept
  have hcalls := hkept empty [⟨plainNode, ascii "key", 100000000⟩]
    (by simpa using atRate_plainNode roundedArgs)
  rcases hcalls.last with ⟨e, hget, hwithin⟩
  have hsame : (charge (writeSpendingLimit empty unlimitedKey roundedRecord)
      ⟨plainNode, ascii "key", 100000000⟩).get? unlimitedKey = some e := hget
  rw [hsame, Option.map_some, Option.some.injEq, Prod.mk.injEq] at hused
  omega

end TKNC.Escrow.Quota
