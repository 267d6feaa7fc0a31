import TKNC.Escrow.BillingRun

/-!
# PayAsYouGo — billing depends only on the total

A record without a limit is billed in calls of any size.  Every call pays the boundaries that its
own consumption crosses, so what is transferred follows the consumption whatever the calls were: as
long as each due transfer is made, it is the whole-coin part of what was consumed.
-/

namespace TKNC.Escrow

open Consensus Lib Lib.AccountBook Lib.EventMachine Lib.MachineInt Lib.Numeral Wallet

/-- A new record that is paid as it is used. -/
structure PayAsYouGo (e : SpendingLimit) : Prop where
  unlimited : e.totalTknc = 0
  payable : e.minerWallet ≠ []
  consumed : e.consumedTknc = 0
  used : e.usedTokens = 0
  transferred : e.transferredTknc = 0

/-- A record that was charged for `tokens` at `price`, with every whole coin of it transferred. -/
structure Metered (price tokens : Int) (e : SpendingLimit) : Prop where
  unlimited : e.totalTknc = 0
  payable : e.minerWallet ≠ []
  consumed : e.consumedTknc = price * tokens
  used : e.usedTokens = tokens
  transferred : e.transferredTknc = coin * (e.consumedTknc / coin)

variable {e : SpendingLimit}

theorem PayAsYouGo.metered (h : PayAsYouGo e) (price : Int) :
    Metered price 0 e where
  unlimited := h.unlimited
  payable := h.payable
  consumed := by rw [h.consumed, Int.mul_zero]
  used := h.used
  transferred := by rw [h.transferred, h.consumed]; rfl

/-! ## One call -/

section Call

variable {node : Node} {e : SpendingLimit} {tokensUsed : Int}

theorem chargeFor_unlimited {rate : Int} (htotal : e.totalTknc = 0) (hpos : 0 < tokensUsed * rate)
    (hfits : tokensUsed * rate ≤ int64Max) :
    chargeFor e rate tokensUsed = ⟨tokensUsed * rate, tokensUsed⟩ := by
  simp only [int64Max] at hfits
  have hexact : i64 (tokensUsed * rate) = tokensUsed * rate :=
    i64_of_fits (fits64_iff.2 ⟨by omega, hfits⟩)
  simp only [chargeFor, SpendingLimit.getRemainingLimit, htotal, hexact, if_true, int64Max]
  rw [if_neg (by omega), if_neg (by omega)]

theorem dueAmount_unlimited (node : Node) (tokensUsed : Int) (htotal : e.totalTknc = 0)
    (hpayable : e.minerWallet ≠ [])
    (hnonneg : 0 ≤ e.consumedTknc) (hpos : 0 < tokensUsed * rateTkncPerToken node e)
    (hfits : e.consumedTknc + tokensUsed * rateTkncPerToken node e ≤ int64Max) :
    dueAmount node e tokensUsed =
      let consumed := e.consumedTknc + tokensUsed * rateTkncPerToken node e
      if e.consumedTknc / coin < consumed / coin then
        some (coin * (consumed / coin) - coin * (e.consumedTknc / coin))
      else
        none := by
  have hcost := chargeFor_unlimited (e := e) htotal hpos (by omega)
  simp only [int64Max] at hfits
  have hsum : i64 (e.consumedTknc + tokensUsed * rateTkncPerToken node e) =
      e.consumedTknc + tokensUsed * rateTkncPerToken node e :=
    i64_of_fits (fits64_iff.2 ⟨by omega, hfits⟩)
  simp only [dueAmount, hcost, hsum, coin]
  have hgrows : e.consumedTknc ≤ e.consumedTknc + tokensUsed * rateTkncPerToken node e := by omega
  generalize e.consumedTknc + tokensUsed * rateTkncPerToken node e = consumed at *
  rw [Int.tdiv_eq_ediv_of_nonneg (by omega), Int.tdiv_eq_ediv_of_nonneg hnonneg]
  -- the crossed amount is at most the consumption, so neither operation wraps
  have hcoins : i64 (consumed / 100000000 - e.consumedTknc / 100000000) =
      consumed / 100000000 - e.consumedTknc / 100000000 :=
    i64_of_fits (fits64_iff.2 (by omega))
  have hdue : i64 ((consumed / 100000000 - e.consumedTknc / 100000000) * 100000000) =
      100000000 * (consumed / 100000000) - 100000000 * (e.consumedTknc / 100000000) := by
    rw [i64_of_fits (fits64_iff.2 (by omega))]
    omega
  rw [hcoins, hdue]
  simp only [gt_iff_lt, hpayable, ne_eq, not_false_eq_true, and_true]
  rfl

/-- Whatever falls due is transferred in full. -/
def DuePaid (node : Node) (e : SpendingLimit) (tokensUsed : Int) : Prop :=
  ∀ due, dueAmount node e tokensUsed = some due →
    ∃ w txid, PaysDue node e tokensUsed due w txid

theorem DuePaid.transferred (h : DuePaid node e tokensUsed) :
    (billedRecord node (recoverState e) tokensUsed).transferredTknc =
      match dueAmount node e tokensUsed with
      | none => e.transferredTknc
      | some due => i64 (e.transferredTknc + due) := by
  cases billedRecord_outcomes node e tokensUsed with
  | nothing hfull _ hbilled _ =>
    cases hdue : dueAmount node e tokensUsed with
    | none => rw [hbilled, transferredTknc_chargedRecord, transferredTknc_recoverState]
    | some due =>
      rcases h due hdue with ⟨w, txid, hpays⟩
      exact absurd hpays (hfull due w txid)
  | full hpays hbilled _ =>
    rw [hbilled, transferredTknc_recordTransfer, transferredTknc_chargedRecord,
      transferredTknc_recoverState, hpays.1]
  | balance hpays _ _ =>
    rcases h _ hpays.1 with ⟨w, txid, hfull⟩
    exact absurd hpays hfull.not_paysBalance

theorem Metered.billed {price tokens : Int} (h : Metered price tokens e) (htokens : 0 ≤ tokens)
    (hused : 0 < tokensUsed) (hprice : rateTkncPerToken node e = price)
    (hfits : price * (tokens + tokensUsed) ≤ int64Max) (hpaid : DuePaid node e tokensUsed) :
    Metered price (tokens + tokensUsed) (billedRecord node (recoverState e) tokensUsed) := by
  have hrate : 1 ≤ price := hprice ▸ one_le_rateTkncPerToken node e
  have hcost : 0 < tokensUsed * price := Int.mul_pos hused (by omega)
  have hbefore : 0 ≤ price * tokens := Int.mul_nonneg (by omega) htokens
  have hafter : price * tokens + tokensUsed * price = price * (tokens + tokensUsed) := by ring
  have hcounted : tokens + tokensUsed ≤ price * (tokens + tokensUsed) :=
    le_mul_of_one_le_left (by omega) hrate
  have hexact := chargeFor_unlimited (e := e) h.unlimited hcost (by omega)
  have hdue := dueAmount_unlimited node tokensUsed h.unlimited h.payable
    (by rw [h.consumed]; exact hbefore) (by rw [hprice]; exact hcost)
    (by rw [hprice, h.consumed]; omega)
  simp only [int64Max] at hfits
  have hconsumed : (billedRecord node (recoverState e) tokensUsed).consumedTknc =
      price * (tokens + tokensUsed) := by
    rw [consumedTknc_billedRecord, consumedTknc_chargedRecord, consumedTknc_recoverState,
      rateTkncPerToken_recoverState, chargeFor_recoverState, hprice, hexact, h.consumed, hafter]
    exact i64_of_fits (fits64_iff.2 (by omega))
  refine ⟨?_, ?_, hconsumed, ?_, ?_⟩
  · rw [totalTknc_billedRecord, totalTknc_recoverState]
    exact h.unlimited
  · rw [minerWallet_billedRecord, minerWallet_recoverState]
    exact h.payable
  · rw [(billedRecord_tokens node (recoverState e) tokensUsed).1, usedTokens_recoverState,
      rateTkncPerToken_recoverState, chargeFor_recoverState, hprice, hexact, h.used]
    exact i64_of_fits (x := tokens + tokensUsed) (fits64_iff.2 (by omega))
  · -- the whole-coin part moves by what fell due, or does not move
    rw [hconsumed, hpaid.transferred, hdue, h.transferred, hprice, h.consumed, hafter]
    by_cases hcross : price * tokens / coin < price * (tokens + tokensUsed) / coin
    · simp only [if_pos hcross]
      rw [i64_of_fits (fits64_iff.2 (by simp only [coin]; omega))]
      omega
    · have hsame : price * tokens / coin = price * (tokens + tokensUsed) / coin := by
        simp only [coin] at hcross ⊢
        omega
      simp only [if_neg hcross]
      rw [hsame]

end Call

/-! ## Runs -/

/-- The call bills the record under `k` for a positive number of tokens at the price, and whatever
falls due is transferred in full. -/
def BillsInFull (k : DbKey) (price : Int) (s : BillingState) (call : BillingCall) : Prop :=
  0 < call.tokensUsed ∧ ∃ e, call.Charges k s e ∧ rateTkncPerToken call.node e = price ∧
    DuePaid call.node e call.tokensUsed

def tokensOf (calls : List BillingCall) : Int :=
  total (·.tokensUsed) calls

theorem tokensOf_nonneg {k : DbKey} {price : Int} {s : BillingState} {calls : List BillingCall}
    (hrun : GoodRun (bill k) (BillsInFull k price) s calls) : 0 ≤ tokensOf calls := by
  induction calls generalizing s with
  | nil => exact Int.le_refl 0
  | cons call calls ih =>
    have hrest := ih hrun.2
    have hused := hrun.1.1
    rw [tokensOf, total_cons]
    rw [tokensOf] at hrest
    omega

theorem metered_run {k : DbKey} {price tokens : Int} {s : BillingState} {calls : List BillingCall}
    (hget : s.db.get? k = some e) (hmetered : Metered price tokens e) (htokens : 0 ≤ tokens)
    (hfits : price * (tokens + tokensOf calls) ≤ int64Max)
    (hrun : GoodRun (bill k) (BillsInFull k price) s calls) :
    ∃ e', (run (bill k) s calls).db.get? k = some e' ∧
      Metered price (tokens + tokensOf calls) e' := by
  -- induction on the calls; the tokens billed so far grow by those of the first call
  induction calls generalizing s e tokens with
  | nil => exact ⟨e, hget, by simpa [tokensOf] using hmetered⟩
  | cons call calls ih =>
    rcases hrun with ⟨⟨hused, e₀, hcharges, hprice, hpaid⟩, hrest⟩
    cases Option.some.inj (hget.symm.trans hcharges.stored)
    have hrate : 1 ≤ price := hprice ▸ one_le_rateTkncPerToken call.node e
    have hsum : tokens + tokensOf (call :: calls) =
        tokens + call.tokensUsed + tokensOf calls := by
      rw [tokensOf, total_cons, Int.add_assoc]
      rfl
    rw [hsum] at hfits ⊢
    have hlater := tokensOf_nonneg hrest
    have hnow : price * (tokens + call.tokensUsed) ≤ int64Max :=
      le_trans (Int.mul_le_mul_of_nonneg_left (by omega) (by omega)) hfits
    exact ih hcharges.get?_bill (hmetered.billed htokens hused hprice hnow hpaid) (by omega) hfits
      hrest

/-- Two lists of calls for the same number of tokens leave the same counters: the price of all the
tokens is consumed, and its whole-coin part is transferred. -/
theorem billing_depends_on_total {k : DbKey} {db : Database} {e : SpendingLimit} {price : Int}
    {calls calls' : List BillingCall} (hget : db.get? k = some e) (hnew : PayAsYouGo e)
    (hrun : GoodRun (bill k) (BillsInFull k price) (.start db) calls)
    (hrun' : GoodRun (bill k) (BillsInFull k price) (.start db) calls')
    (hsum : tokensOf calls = tokensOf calls') (hfits : price * tokensOf calls ≤ int64Max) :
    ∃ e₁ e₂, (run (bill k) (.start db) calls).db.get? k = some e₁ ∧
      (run (bill k) (.start db) calls').db.get? k = some e₂ ∧
      e₁.consumedTknc = price * tokensOf calls ∧ e₂.consumedTknc = e₁.consumedTknc ∧
      e₁.usedTokens = tokensOf calls ∧ e₂.usedTokens = e₁.usedTokens ∧
      e₁.transferredTknc = coin * (e₁.consumedTknc / coin) ∧
      e₂.transferredTknc = e₁.transferredTknc := by
  have hstart := hnew.metered price
  rcases metered_run hget hstart (Int.le_refl 0) (by rwa [Int.zero_add]) hrun with ⟨e₁, hget₁, h₁⟩
  rcases metered_run hget hstart (Int.le_refl 0) (by rwa [Int.zero_add, ← hsum]) hrun' with
    ⟨e₂, hget₂, h₂⟩
  rw [Int.zero_add] at h₁
  rw [Int.zero_add, ← hsum] at h₂
  have hconsumed : e₂.consumedTknc = e₁.consumedTknc := h₂.consumed.trans h₁.consumed.symm
  refine ⟨e₁, e₂, hget₁, hget₂, h₁.consumed, hconsumed, h₁.used, h₂.used.trans h₁.used.symm,
    h₁.transferred, ?_⟩
  rw [h₂.transferred, h₁.transferred, hconsumed]

/-! ## One payment or two -/

theorem duePaid_payingNode (confirmed : List Txid) (txid : Txid)
    (huser : e.userWallet = ascii "user") (hminer : e.minerWallet = ascii "miner")
    (tokensUsed : Int) : DuePaid (payingNode confirmed txid) e tokensUsed := by
  intro due hdue
  simp only [PaysDue, huser, hminer]
  exact ⟨_, txid, hdue, rfl, rfl⟩

def oneCall : List BillingCall :=
  [⟨payingNode [] 7, ascii "key", 2⟩]

def twoCalls : List BillingCall :=
  [⟨payingNode [] 7, ascii "key", 1⟩, ⟨payingNode [7] 8, ascii "key", 1⟩]

theorem billing_depends_on_total_split :
    (PayAsYouGo unlimitedRecord ∧ tokensOf oneCall = tokensOf twoCalls) ∧
      ∃ e₁ e₂,
        (run (bill unlimitedKey) (.start unlimitedDb) oneCall).db.get? unlimitedKey = some e₁ ∧
        (run (bill unlimitedKey) (.start unlimitedDb) twoCalls).db.get? unlimitedKey = some e₂ ∧
        e₁.consumedTknc = 100000000 * tokensOf oneCall ∧ e₂.consumedTknc = e₁.consumedTknc ∧
        e₁.usedTokens = tokensOf oneCall ∧ e₂.usedTokens = e₁.usedTokens ∧
        e₁.transferredTknc = coin * (e₁.consumedTknc / coin) ∧
        e₂.transferredTknc = e₁.transferredTknc := by
  have hnew : PayAsYouGo unlimitedRecord := ⟨rfl, by decide, rfl, rfl, rfl⟩
  have hone : GoodRun (bill unlimitedKey) (BillsInFull unlimitedKey 100000000)
      (.start unlimitedDb) oneCall :=
    ⟨⟨by decide, unlimitedRecord, ⟨by decide, by decide⟩, by decide,
      duePaid_payingNode _ _ rfl rfl _⟩, trivial⟩
  have htwo : GoodRun (bill unlimitedKey) (BillsInFull unlimitedKey 100000000)
      (.start unlimitedDb) twoCalls :=
    ⟨⟨by decide, unlimitedRecord, ⟨by decide, by decide⟩, by decide,
      duePaid_payingNode _ _ rfl rfl _⟩,
      ⟨by decide, billedRecord (payingNode [] 7) (recoverState unlimitedRecord) 1,
        ⟨by decide, by decide⟩, by decide, duePaid_payingNode _ _ rfl rfl _⟩, trivial⟩
  exact ⟨⟨hnew, rfl⟩,
    billing_depends_on_total (by decide) hnew hone htwo rfl (by decide)⟩

end TKNC.Escrow
