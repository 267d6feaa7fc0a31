import TKNC.Escrow.Payer
import TKNC.Escrow.PaymentBook
import TKNC.Lib.EventMachine

/-!
# BillingRun — one record under a sequence of billing calls

Calls of `CheckAndDeductEscrow`, each on a node in a state of its own, and the transfers they make
for one record.  `billedRecord_outcomes` lists what a call can do to the record it charges, in terms
of the wallet before the call; the laws about runs of calls are derived from it.
-/

namespace TKNC.Escrow

open Consensus Lib Lib.AccountBook Lib.EventMachine Lib.MachineInt Lib.Numeral Wallet Option

/-! ## Outcomes of a payment -/

/-- A crossing whose full amount the looked-up wallet sends. -/
def PaysDue (node : Node) (e : SpendingLimit) (tokensUsed due : Int) (w : CWallet) (txid : Txid) :
    Prop :=
  dueAmount node e tokensUsed = some due ∧
    findWalletByAddress node.toNodeContext e.userWallet = some w ∧
    transferFromWallet node.toNodeContext w e.minerWallet due false e.userWallet = some txid

/-- A crossing whose full amount the wallet cannot send, while it can send its smaller balance with
the fee taken off. -/
def PaysBalance (node : Node) (e : SpendingLimit) (tokensUsed due : Int) (w : CWallet)
    (txid : Txid) : Prop :=
  dueAmount node e tokensUsed = some due ∧
    findWalletByAddress node.toNodeContext e.userWallet = some w ∧
    transferFromWallet node.toNodeContext w e.minerWallet due false e.userWallet = none ∧
    (0 < w.available ∧ w.available < due) ∧
    transferFromWallet node.toNodeContext w e.minerWallet w.available true e.userWallet = some txid

section Exclusive

variable {node : Node} {e : SpendingLimit} {tokensUsed due due' : Int} {w w' : CWallet}
  {txid txid' : Txid}

theorem paysDue_iff (hdue : dueAmount node e tokensUsed = some due)
    (hw : findWalletByAddress node.toNodeContext e.userWallet = some w) :
    PaysDue node e tokensUsed due' w' txid ↔ due' = due ∧ w' = w ∧
      transferFromWallet node.toNodeContext w e.minerWallet due false e.userWallet = some txid := by
  rw [PaysDue, hdue, hw, some.injEq, some.injEq]
  constructor
  · rintro ⟨rfl, rfl, hmade⟩
    exact ⟨rfl, rfl, hmade⟩
  · rintro ⟨rfl, rfl, hmade⟩
    exact ⟨rfl, rfl, hmade⟩

theorem paysBalance_iff (hdue : dueAmount node e tokensUsed = some due)
    (hw : findWalletByAddress node.toNodeContext e.userWallet = some w) :
    PaysBalance node e tokensUsed due' w' txid ↔ due' = due ∧ w' = w ∧
      transferFromWallet node.toNodeContext w e.minerWallet due false e.userWallet = none ∧
      (0 < w.available ∧ w.available < due) ∧
      transferFromWallet node.toNodeContext w e.minerWallet w.available true e.userWallet =
        some txid := by
  rw [PaysBalance, hdue, hw, some.injEq, some.injEq]
  constructor
  · rintro ⟨rfl, rfl, hmade⟩
    exact ⟨rfl, rfl, hmade⟩
  · rintro ⟨rfl, rfl, hmade⟩
    exact ⟨rfl, rfl, hmade⟩

theorem PaysDue.due_eq (h : PaysDue node e tokensUsed due w txid)
    (h' : PaysDue node e tokensUsed due' w' txid') : due = due' :=
  some.inj (h.1.symm.trans h'.1)

theorem PaysDue.not_paysBalance (h : PaysDue node e tokensUsed due w txid) :
    ¬ PaysBalance node e tokensUsed due' w' txid' := by
  rintro ⟨hdue, hw, hnone, _⟩
  cases h.1.symm.trans hdue
  cases h.2.1.symm.trans hw
  cases h.2.2.symm.trans hnone

end Exclusive

/-- The payment section leaves the record as charged, or records one transfer: the full amount, or
the smaller balance. -/
inductive Outcome (node : Node) (e : SpendingLimit) (tokensUsed : Int) : Prop where
  | nothing
      (hfull : ∀ due w txid, ¬ PaysDue node e tokensUsed due w txid)
      (hbalance : ∀ due w txid, ¬ PaysBalance node e tokensUsed due w txid)
      (hbilled : billedRecord node (recoverState e) tokensUsed =
        chargedRecord node (recoverState e) tokensUsed)
      (htransfers : (paymentFor node (recoverState e) tokensUsed).transfers = [])
  | full {due : Int} {w : CWallet} {txid : Txid}
      (hpays : PaysDue node e tokensUsed due w txid)
      (hbilled : billedRecord node (recoverState e) tokensUsed =
        recordTransfer (chargedRecord node (recoverState e) tokensUsed) (getHex txid) due)
      (htransfers : (paymentFor node (recoverState e) tokensUsed).transfers =
        [⟨w, e.minerWallet, due, false, txid⟩])
  | balance {due : Int} {w : CWallet} {txid : Txid}
      (hpays : PaysBalance node e tokensUsed due w txid)
      (hbilled : billedRecord node (recoverState e) tokensUsed =
        recordTransfer (chargedRecord node (recoverState e) tokensUsed) (getHex txid) w.available)
      (htransfers : (paymentFor node (recoverState e) tokensUsed).transfers =
        [⟨w, e.minerWallet, w.available, true, txid⟩])

theorem transferFromWallet_locked {node : NodeContext} {w : CWallet} (h : w.isLocked = true)
    (toAddress : Bytes) (amount : Int) (subtractFee : Bool) (fromAddress : Bytes) :
    transferFromWallet node w toAddress amount subtractFee fromAddress = none := by
  rw [transferFromWallet, if_pos h]

theorem Outcome.of_nothing {node : Node} {e : SpendingLimit} {tokensUsed : Int} {ok : Bool}
    (h : paymentFor node (recoverState e) tokensUsed = Payment.nothing ok)
    (hfull : ∀ due w txid, ¬ PaysDue node e tokensUsed due w txid)
    (hbalance : ∀ due w txid, ¬ PaysBalance node e tokensUsed due w txid) :
    Outcome node e tokensUsed :=
  .nothing hfull hbalance (by simp [billedRecord, h, Payment.nothing, Payment.recorded])
    (congrArg Payment.transfers h)

theorem billedRecord_of_transfer {node : Node} {e : SpendingLimit} {tokensUsed amount : Int}
    {txid : Txid} {transfers : List Transfer}
    (h : paymentFor node (recoverState e) tokensUsed =
      { transferOk := true
        txid := getHex txid
        amount := amount
        transfers := transfers }) :
    billedRecord node (recoverState e) tokensUsed =
        recordTransfer (chargedRecord node (recoverState e) tokensUsed) (getHex txid) amount := by
  simp [billedRecord, h, Payment.recorded, getHex_ne_nil]

theorem billedRecord_outcomes (node : Node) (e : SpendingLimit) (tokensUsed : Int) :
    Outcome node e tokensUsed := by
  have hpay := paymentFor_eq node e tokensUsed
  cases hdue : dueAmount node e tokensUsed with
  | none =>
    rw [hdue] at hpay
    apply Outcome.of_nothing hpay
    · simp [PaysDue, hdue]
    · simp [PaysBalance, hdue]
  | some due =>
    rw [hdue] at hpay
    simp only [payMiner, userWallet_chargedRecord, userWallet_recoverState,
      minerWallet_chargedRecord, minerWallet_recoverState] at hpay
    cases hw : findWalletByAddress node.toNodeContext e.userWallet with
    | none =>
      simp only [hw] at hpay
      apply Outcome.of_nothing hpay
      · simp [PaysDue, hw]
      · simp [PaysBalance, hw]
    | some w =>
      simp only [hw] at hpay
      by_cases hlocked : w.isLocked = true
      · -- both transfers are tried from this wallet, and a locked one makes none
        rw [if_pos hlocked] at hpay
        apply Outcome.of_nothing hpay
        · simp [paysDue_iff hdue hw, transferFromWallet_locked hlocked]
        · simp [paysBalance_iff hdue hw, transferFromWallet_locked hlocked]
      · rw [if_neg hlocked] at hpay
        cases hfull : transferFromWallet node.toNodeContext w e.minerWallet due false
            e.userWallet with
        | some txid =>
          simp only [hfull] at hpay
          exact .full ⟨hdue, hw, hfull⟩ (billedRecord_of_transfer hpay)
            (congrArg Payment.transfers hpay)
        | none =>
          simp only [hfull] at hpay
          by_cases hrange : 0 < w.available ∧ w.available < due
          · rw [if_pos hrange] at hpay
            cases hpart : transferFromWallet node.toNodeContext w e.minerWallet w.available
                true e.userWallet with
            | some txid =>
              simp only [hpart] at hpay
              exact .balance ⟨hdue, hw, hfull, hrange, hpart⟩ (billedRecord_of_transfer hpay)
                (congrArg Payment.transfers hpay)
            | none =>
              simp only [hpart] at hpay
              apply Outcome.of_nothing hpay
              · simp [paysDue_iff hdue hw, hfull]
              · simp [paysBalance_iff hdue hw, hpart]
          · rw [if_neg hrange] at hpay
            apply Outcome.of_nothing hpay
            · simp [paysDue_iff hdue hw, hfull]
            · simp [paysBalance_iff hdue hw, hrange]

section Amounts

variable {node : Node} {e : SpendingLimit} {b : PaymentBook} {tokensUsed : Int}

/-- What falls due, in numbers: the full TKNC between the old consumption and the new one. -/
theorem Ledger.dueAmount_eq (h : Ledger e b) (hleft : e.isExhausted = false)
    (hcharge : ChargeFits node e tokensUsed) :
    dueAmount node e tokensUsed =
      let consumed := e.consumedTknc + (chargeFor e (rateTkncPerToken node e) tokensUsed).cost
      if e.consumedTknc / coin < consumed / coin ∧ e.minerWallet ≠ [] then
        some (consumed / coin * coin - e.consumedTknc / coin * coin)
      else
        none := by
  rcases h.charged hleft hcharge with ⟨hconsumed, b', _, hledger⟩
  have hcost := (h.cost_bounds hleft hcharge).1
  have hprev := h.consumed_nonneg
  have hle : e.consumedTknc ≤ (chargedRecord node (recoverState e) tokensUsed).consumedTknc := by
    omega
  have hcross := crossesBoundary_iff hprev hle
  rw [hconsumed, minerWallet_chargedRecord, minerWallet_recoverState] at hcross
  rw [Escrow.dueAmount_eq, coinsToPay_eq hprev hle hledger.consumed_le, hconsumed, Int.sub_mul]
  simp only [hcross]

theorem Ledger.consumed_billed (h : Ledger e b) (hleft : e.isExhausted = false)
    (hcharge : ChargeFits node e tokensUsed) :
    (billedRecord node (recoverState e) tokensUsed).consumedTknc =
      e.consumedTknc + (chargeFor e (rateTkncPerToken node e) tokensUsed).cost :=
  (consumedTknc_billedRecord _ _ _).trans (h.charged hleft hcharge).1

theorem Ledger.transferred_billed (h : Ledger e b) (hleft : e.isExhausted = false)
    (hcharge : ChargeFits node e tokensUsed) :
    (billedRecord node (recoverState e) tokensUsed).transferredTknc =
      e.transferredTknc +
        total (·.amount) (paymentFor node (recoverState e) tokensUsed).transfers := by
  rcases h.billed hleft hcharge with ⟨b', hrecorded, hledger⟩
  rw [hledger.represents.transferred, hrecorded, total_append, ← h.represents.transferred]
  simp [total, Transfer.entry, Function.comp_def]

end Amounts

/-! ## Runs -/

structure BillingCall where
  node : Node
  apiKey : Bytes
  tokensUsed : Int

/-- `transfers` are those made for the record under observation; they are not part of the node. -/
structure BillingState where
  db : Database
  transfers : List Transfer

/-- The call charges the record under `k`. -/
def BillingCall.Charges (call : BillingCall) (k : DbKey) (s : BillingState) (e : SpendingLimit) :
    Prop :=
  Charged call.node s.db call.apiKey call.tokensUsed k e

def transfersUnder (k : DbKey) (db : Database) (call : BillingCall) : List Transfer :=
  if (db.entries.find? (chargeable call.node call.apiKey)).map Prod.fst = some k then
    (checkAndDeductEscrow call.node db call.apiKey call.tokensUsed).transfers
  else
    []

def bill (k : DbKey) (s : BillingState) (call : BillingCall) : BillingState :=
  { db := (checkAndDeductEscrow call.node s.db call.apiKey call.tokensUsed).db
    transfers := s.transfers ++ transfersUnder k s.db call }

def BillingState.start (db : Database) : BillingState :=
  { db := db
    transfers := [] }

variable {k : DbKey} {s : BillingState} {call : BillingCall} {e : SpendingLimit}

theorem BillingCall.Charges.get?_bill (h : call.Charges k s e) :
    (bill k s call).db.get? k = some (billedRecord call.node (recoverState e) call.tokensUsed) :=
  Charged.get?_billed h

theorem BillingCall.Charges.transfers_bill (h : call.Charges k s e) :
    (bill k s call).transfers =
      s.transfers ++ (paymentFor call.node (recoverState e) call.tokensUsed).transfers := by
  simp [bill, transfersUnder, h.first, h.bills.2.1]

theorem bill_of_not_charges (hget : s.db.get? k = some e) (h : ¬ call.Charges k s e) :
    (bill k s call).db.get? k = some e ∧ (bill k s call).transfers = s.transfers := by
  refine ⟨get?_of_not_charged hget h, ?_⟩
  have hnone : transfersUnder k s.db call = [] := by
    unfold transfersUnder
    split
    · rename_i hfirst
      rcases map_eq_some_iff.1 hfirst with ⟨⟨k', e'⟩, hfind, rfl⟩
      -- the record passed the tests, so it is the price that overflows
      have hrefused : ∀ k₁ e₁, ¬ Charged call.node s.db call.apiKey call.tokensUsed k₁ e₁ := by
        rintro k₁ e₁ hcharged
        cases some.inj (hfind.symm.trans hcharged.first)
        cases some.inj (hget.symm.trans hcharged.stored)
        exact h hcharged
      rw [checkAndDeductEscrow_refused hrefused]
      rfl
    · rfl
  simp [bill, hnone]

end TKNC.Escrow
