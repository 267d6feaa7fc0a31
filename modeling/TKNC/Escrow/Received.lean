import TKNC.Escrow.BillingRun

/-!
# Received — what a record counts as transferred against what the miner got

A full transfer pays the fee on top of the amount.  The transfer of a smaller balance takes the fee
off the amount, and the record counts the amount all the same.
-/

namespace TKNC.Escrow

open Consensus Lib Lib.AccountBook Lib.EventMachine Lib.MachineInt Lib.Numeral Wallet

structure FeeRule where
  fee : Transfer → Int
  pos : ∀ tr, 0 < fee tr
  le : ∀ tr, 0 < tr.amount → fee tr ≤ tr.amount

def FeeRule.received (fees : FeeRule) (tr : Transfer) : Int :=
  if tr.subtractFee then tr.amount - fees.fee tr else tr.amount

/-- The record counts as transferred what the miner received. -/
def CountsReceived (fees : FeeRule) (k : DbKey) (s : BillingState) : Prop :=
  ∃ e, s.db.get? k = some e ∧ e.transferredTknc = total fees.received s.transfers

/-- If the call charges the record, then it does not come down to the balance of the wallet, and the
sum of the transfers stays in its register. -/
def PaysFullOrNothing (k : DbKey) (s : BillingState) (call : BillingCall) : Prop :=
  ∀ e, s.db.get? k = some e → call.Charges k s e → ∀ due w txid,
    ¬ PaysBalance call.node e call.tokensUsed due w txid ∧
      (PaysDue call.node e call.tokensUsed due w txid → Fits 64 (e.transferredTknc + due))

theorem fits_of_dueAmount {node : Node} {e : SpendingLimit} {tokensUsed due : Int}
    (h : dueAmount node e tokensUsed = some due) : Fits 64 due := by
  simp only [dueAmount] at h
  split at h
  · exact Option.some.inj h ▸ fits_i64 _
  · cases h

theorem countsReceived_bill_iff (fees : FeeRule) {k : DbKey} {s : BillingState} {call : BillingCall}
    (h : CountsReceived fees k s) :
    CountsReceived fees k (bill k s call) ↔ PaysFullOrNothing k s call := by
  rcases h with ⟨e, hget, hsum⟩
  by_cases hcharges : call.Charges k s e
  · have hafter : CountsReceived fees k (bill k s call) ↔
        (billedRecord call.node (recoverState e) call.tokensUsed).transferredTknc =
          e.transferredTknc +
            total fees.received (paymentFor call.node (recoverState e) call.tokensUsed).transfers := by
      rw [CountsReceived, hcharges.get?_bill, hcharges.transfers_bill, total_append, hsum]
      simp
    have hgood : PaysFullOrNothing k s call ↔ ∀ due w txid,
        ¬ PaysBalance call.node e call.tokensUsed due w txid ∧
          (PaysDue call.node e call.tokensUsed due w txid → Fits 64 (e.transferredTknc + due)) := by
      simp [PaysFullOrNothing, hget, hcharges]
    rw [hafter, hgood]
    cases billedRecord_outcomes call.node e call.tokensUsed with
    | nothing hfull hbalance hbilled htransfers =>
      rw [hbilled, htransfers, transferredTknc_chargedRecord, transferredTknc_recoverState]
      refine iff_of_true (by simp) ?_
      exact fun due w txid => ⟨hbalance due w txid, fun hpays => absurd hpays (hfull due w txid)⟩
    | full hpays hbilled htransfers =>
      rename_i due w txid
      rw [hbilled, htransfers, transferredTknc_recordTransfer, transferredTknc_chargedRecord,
        transferredTknc_recoverState]
      simp only [total_cons, total_nil, FeeRule.received, Bool.false_eq_true, if_false,
        Int.add_zero]
      constructor
      · intro hexact due' w' txid'
        refine ⟨hpays.not_paysBalance, ?_⟩
        intro hpays'
        cases hpays.due_eq hpays'
        exact hexact ▸ fits_i64 _
      · intro hall
        exact i64_of_fits ((hall due w txid).2 hpays)
    | balance hpays hbilled htransfers =>
      rename_i due w txid
      -- the fee is missing from what was received, and no wrap-around makes up for it
      refine iff_of_false ?_ (fun hall => (hall due w txid).1 hpays)
      rw [hbilled, htransfers, transferredTknc_recordTransfer, transferredTknc_chargedRecord,
        transferredTknc_recoverState]
      have hbound := fits64_iff.1 (fits_of_dueAmount hpays.1)
      have hrange := hpays.2.2.2.1
      have hpos := fees.pos ⟨w, e.minerWallet, w.available, true, txid⟩
      have hle := fees.le ⟨w, e.minerWallet, w.available, true, txid⟩ hrange.1
      dsimp only at hle
      simp only [total_cons, total_nil, FeeRule.received, if_true, i64_eq]
      omega
  · rcases bill_of_not_charges hget hcharges with ⟨hget', htransfers⟩
    refine iff_of_true ⟨e, hget', htransfers ▸ hsum⟩ ?_
    intro e' hget'' hcharges'
    cases Option.some.inj (hget.symm.trans hget'')
    exact absurd hcharges' hcharges

/-- The record counts what the miner received in every state of a run exactly if every call of the
run pays in full or not at all. -/
theorem countsReceived_iff (fees : FeeRule) {k : DbKey} {db : Database} {e : SpendingLimit}
    {calls : List BillingCall} (hget : db.get? k = some e) (hzero : e.transferredTknc = 0) :
    Always (bill k) (CountsReceived fees k) (.start db) calls ↔
      GoodRun (bill k) (PaysFullOrNothing k) (.start db) calls := by
  have hstart : CountsReceived fees k (.start db) := ⟨e, hget, hzero⟩
  exact always_iff_goodRun (fun _ _ _ => trivial)
    (fun s call (_ : True) h => countsReceived_bill_iff fees h) trivial hstart

/-! ## A wallet that runs low -/

def flatFee : FeeRule :=
  { fee := fun _ => 1
    pos := fun _ => by decide
    le := fun _ h => h }

def lowNode : Node :=
  { NodeContext.ofWallets
      [{ CWallet.owning [ascii "user"] with
          mineTrusted := 50000000
          createTransaction := fun recipient _ =>
            if recipient.fSubtractFeeFromAmount then some 7 else none }] with
    tokenRates := ⟨[], []⟩
    pendingCosts := fun _ => 0 }

def lowCalls : List BillingCall :=
  [⟨lowNode, ascii "key", 1⟩]

theorem countsReceived_iff_low :
    unlimitedDb.get? unlimitedKey = some unlimitedRecord ∧
    (Always (bill unlimitedKey) (CountsReceived flatFee unlimitedKey) (.start unlimitedDb) lowCalls ↔
      GoodRun (bill unlimitedKey) (PaysFullOrNothing unlimitedKey) (.start unlimitedDb) lowCalls) :=
  have hget : unlimitedDb.get? unlimitedKey = some unlimitedRecord := by decide
  ⟨hget, countsReceived_iff flatFee hget rfl⟩

theorem not_countsReceived_low :
    createescrow unlimitedArgs = .ok unlimitedRecord ∧
      ((run (bill unlimitedKey) (.start unlimitedDb) lowCalls).db.get? unlimitedKey).map
        (·.transferredTknc) = some 50000000 ∧
      total flatFee.received (run (bill unlimitedKey) (.start unlimitedDb) lowCalls).transfers =
        49999999 ∧
      ¬ Always (bill unlimitedKey) (CountsReceived flatFee unlimitedKey) (.start unlimitedDb)
        lowCalls := by
  have hcounted : ((run (bill unlimitedKey) (.start unlimitedDb) lowCalls).db.get?
      unlimitedKey).map (·.transferredTknc) = some 50000000 := by decide
  have hreceived : total flatFee.received
      (run (bill unlimitedKey) (.start unlimitedDb) lowCalls).transfers = 49999999 := by decide
  refine ⟨by rfl, hcounted, hreceived, ?_⟩
  intro halways
  rcases halways.last with ⟨e, hget, hsum⟩
  rw [hget] at hcounted
  have hhalf : e.transferredTknc = 50000000 := Option.some.inj hcounted
  omega

end TKNC.Escrow
