import TKNC.Escrow.BillingRun

/-!
# Arrears — are missed payments made up for?

A call pays the full TKNC that it crosses itself.  What an earlier call crossed and could not pay is
not looked at again, although the log of such a call announces a retry.
-/

namespace TKNC.Escrow

open Consensus Lib Lib.AccountBook Lib.EventMachine Lib.MachineInt Lib.Numeral Wallet

/-- The call charges the record, crosses a full TKNC and pays it in full. -/
def BillingCall.Pays (call : BillingCall) (k : DbKey) (s : BillingState) (e : SpendingLimit) :
    Prop :=
  call.Charges k s e ∧ ∃ due w txid, PaysDue call.node e call.tokensUsed due w txid

/-- After a call that pays, less than a TKNC is owed. -/
def PaidUp (k : DbKey) (s : BillingState) (call : BillingCall) : Prop :=
  ∀ e, s.db.get? k = some e → call.Pays k s e →
    ∃ e', (bill k s call).db.get? k = some e' ∧ e'.consumedTknc - e'.transferredTknc < coin

/-- Before a call that pays, less than a TKNC is owed. -/
def NoArrears (k : DbKey) (s : BillingState) (call : BillingCall) : Prop :=
  ∀ e, s.db.get? k = some e → call.Pays k s e → e.consumedTknc - e.transferredTknc < coin

/-- A call that charges the record keeps the consumption in its register, and does not come down to
the balance of the wallet. -/
def Regular (k : DbKey) (s : BillingState) (call : BillingCall) : Prop :=
  ∀ e, s.db.get? k = some e → call.Charges k s e →
    ChargeFits call.node e call.tokensUsed ∧
      ∀ due w txid, ¬ PaysBalance call.node e call.tokensUsed due w txid

/-! ## Whole coins -/

/-- The record has a book, and only full TKNC were transferred. -/
def WholeCoins (k : DbKey) (s : BillingState) : Prop :=
  ∃ e b, s.db.get? k = some e ∧ Ledger e b ∧ coin ∣ e.transferredTknc

theorem wholeCoins_start {k : DbKey} {db : Database} {e : SpendingLimit}
    (hget : db.get? k = some e) (hfresh : Fresh e) (htotal : e.totalTknc ≤ int64Max) :
    WholeCoins k (.start db) :=
  ⟨e, PaymentBook.empty, hget, hfresh.ledger htotal, by simp [hfresh.transferred]⟩

section Paid

variable {k : DbKey} {s : BillingState} {call : BillingCall} {e : SpendingLimit} {b : PaymentBook}

theorem Ledger.paid (h : Ledger e b) (hpays : call.Pays k s e)
    (hcharge : ChargeFits call.node e call.tokensUsed) :
    (billedRecord call.node (recoverState e) call.tokensUsed).transferredTknc =
      e.transferredTknc +
        ((billedRecord call.node (recoverState e) call.tokensUsed).consumedTknc / coin * coin -
          e.consumedTknc / coin * coin) := by
  rcases hpays with ⟨hcharges, due, w, txid, hpays⟩
  have hleft := Charged.not_exhausted hcharges
  have hdue := hpays.1
  rw [h.dueAmount_eq hleft hcharge] at hdue
  dsimp only at hdue
  split at hdue
  · rw [h.transferred_billed hleft hcharge, h.consumed_billed hleft hcharge,
      Option.some.inj hdue]
    cases billedRecord_outcomes call.node e call.tokensUsed with
    | nothing hfull => exact absurd hpays (hfull due w txid)
    | full hpays' _ htransfers => simp [htransfers, hpays.due_eq hpays']
    | balance hbalance => exact absurd hbalance hpays.not_paysBalance
  · cases hdue

theorem Ledger.unpaid (h : Ledger e b) (hcharges : call.Charges k s e) (hpays : ¬ call.Pays k s e)
    (hcharge : ChargeFits call.node e call.tokensUsed)
    (hbalance : ∀ due w txid, ¬ PaysBalance call.node e call.tokensUsed due w txid) :
    (billedRecord call.node (recoverState e) call.tokensUsed).transferredTknc =
      e.transferredTknc := by
  rw [h.transferred_billed (Charged.not_exhausted hcharges) hcharge]
  cases billedRecord_outcomes call.node e call.tokensUsed with
  | nothing _ _ _ htransfers => simp [htransfers]
  | full hpays' => exact absurd ⟨hcharges, _, _, _, hpays'⟩ hpays
  | balance hbalance' => exact absurd hbalance' (hbalance _ _ _)

theorem wholeCoins_bill (h : WholeCoins k s) (hregular : Regular k s call) :
    WholeCoins k (bill k s call) := by
  rcases h with ⟨e, b, hget, hledger, hwhole⟩
  by_cases hcharges : call.Charges k s e
  · rcases hregular e hget hcharges with ⟨hcharge, hbalance⟩
    rcases hledger.billed (Charged.not_exhausted hcharges) hcharge with ⟨b', _, hledger'⟩
    refine ⟨_, b', hcharges.get?_bill, hledger', ?_⟩
    by_cases hpays : call.Pays k s e
    · rw [hledger.paid hpays hcharge, ← Int.sub_mul]
      exact Int.dvd_add hwhole (Int.dvd_mul_left _ _)
    · rw [hledger.unpaid hcharges hpays hcharge hbalance]
      exact hwhole
  · exact ⟨e, b, (bill_of_not_charges hget hcharges).1, hledger, hwhole⟩

/-- What a paying call leaves unpaid is what was unpaid before it, up to parts of a TKNC. -/
theorem paidUp_iff_noArrears (h : WholeCoins k s) (hregular : Regular k s call) :
    PaidUp k s call ↔ NoArrears k s call := by
  rcases h with ⟨e, b, hget, hledger, hwhole⟩
  have hbefore : NoArrears k s call ↔
      (call.Pays k s e → e.consumedTknc - e.transferredTknc < coin) := by
    simp [NoArrears, hget]
  rw [hbefore, PaidUp]
  simp only [hget, Option.some.injEq, forall_eq']
  refine imp_congr_right fun hpays => ?_
  have hpaid := hledger.paid hpays (hregular e hget hpays.1).1
  simp only [hpays.1.get?_bill, Option.some.injEq, exists_eq_left']
  rw [hpaid]
  -- the transfers are a multiple of a TKNC, so the parts of one do not matter
  rcases hwhole with ⟨n, hn⟩
  simp only [coin] at hn ⊢
  omega

end Paid

/-- In a run of regular calls that find no arrears when they pay, every paying call leaves less than
a TKNC unpaid; and for a further regular call that is so exactly if it finds none. -/
theorem paidUp_of_noArrears {k : DbKey} {db : Database} {e : SpendingLimit}
    {calls : List BillingCall} (hget : db.get? k = some e) (hfresh : Fresh e)
    (htotal : e.totalTknc ≤ int64Max)
    (hrun : GoodRun (bill k) (fun s call => Regular k s call ∧ NoArrears k s call) (.start db)
      calls) :
    GoodRun (bill k) (PaidUp k) (.start db) calls ∧
      ∀ call, Regular k (run (bill k) (.start db) calls) call →
        (PaidUp k (run (bill k) (.start db) calls) call ↔
          NoArrears k (run (bill k) (.start db) calls) call) := by
  have hstart := wholeCoins_start hget hfresh htotal
  have hlast : WholeCoins k (run (bill k) (.start db) calls) :=
    hrun.invariant (fun _ _ h hgood => wholeCoins_bill h hgood.1) hstart
  refine ⟨?_, fun call hregular => paidUp_iff_noArrears hlast hregular⟩
  exact hrun.mono (fun _ _ h hgood => wholeCoins_bill h hgood.1)
    (fun _ _ h hgood => (paidUp_iff_noArrears h hgood.1).2 hgood.2) hstart

/-! ## A locked wallet -/

def lockedNode : Node :=
  { NodeContext.ofWallets
      [{ CWallet.owning [ascii "user"] with
          isLocked := true
          mineTrusted := 500000000 }] with
    tokenRates := ⟨[], []⟩
    pendingCosts := fun _ => 0 }

theorem not_paysBalance_payingNode (confirmed : List Txid) (txid : Txid) (e : SpendingLimit)
    (tokensUsed due : Int) (w : CWallet) (txid' : Txid) :
    ¬ PaysBalance (payingNode confirmed txid) e tokensUsed due w txid' := by
  rintro ⟨_, hw, _, hrange, _⟩
  cases List.mem_singleton.1 (loaded_of_findWalletByAddress hw)
  exact absurd hrange.1 (Int.lt_irrefl 0)

def paidCalls : List BillingCall :=
  [⟨payingNode [] 7, ascii "key", 1⟩]

theorem paidUp_of_noArrears_paid :
    (createescrow unlimitedArgs = .ok unlimitedRecord ∧
      GoodRun (bill unlimitedKey)
        (fun s call => Regular unlimitedKey s call ∧ NoArrears unlimitedKey s call)
        (.start unlimitedDb) paidCalls) ∧
    GoodRun (bill unlimitedKey) (PaidUp unlimitedKey) (.start unlimitedDb) paidCalls := by
  have hget : unlimitedDb.get? unlimitedKey = some unlimitedRecord := by decide
  have hcreated : createescrow unlimitedArgs = .ok unlimitedRecord := by rfl
  have hrun : GoodRun (bill unlimitedKey)
      (fun s call => Regular unlimitedKey s call ∧ NoArrears unlimitedKey s call)
      (.start unlimitedDb) paidCalls := by
    refine ⟨⟨?_, ?_⟩, trivial⟩
    · intro e hget' _
      cases Option.some.inj (hget.symm.trans hget')
      exact ⟨fun _ => by decide, not_paysBalance_payingNode _ _ _ _⟩
    · intro e hget' _
      cases Option.some.inj (hget.symm.trans hget')
      decide
  exact ⟨⟨hcreated, hrun⟩,
    (paidUp_of_noArrears hget (fresh_of_createescrow hcreated) (by decide) hrun).1⟩

def missedCalls : List BillingCall :=
  [⟨lockedNode, ascii "key", 1⟩, ⟨payingNode [] 8, ascii "key", 1⟩]

theorem not_paidUp_missed :
    createescrow unlimitedArgs = .ok unlimitedRecord ∧
      (run (bill unlimitedKey) (.start unlimitedDb) missedCalls).transfers.map (·.amount) =
        [100000000] ∧
      ((run (bill unlimitedKey) (.start unlimitedDb) missedCalls).db.get? unlimitedKey).map
        (fun e => (e.consumedTknc, e.transferredTknc)) = some (200000000, 100000000) ∧
      ¬ GoodRun (bill unlimitedKey) (PaidUp unlimitedKey) (.start unlimitedDb) missedCalls := by
  have howed : ((run (bill unlimitedKey) (.start unlimitedDb) missedCalls).db.get?
      unlimitedKey).map (fun e => (e.consumedTknc, e.transferredTknc)) =
        some (200000000, 100000000) := by decide
  refine ⟨by rfl, by decide, howed, ?_⟩
  rintro ⟨_, hpaid, _⟩
  -- the second call pays its own crossing in full
  rcases hpaid _ (by rfl) ⟨⟨by rfl, by decide⟩, 100000000, _, 8, by rfl, by rfl, by rfl⟩ with
    ⟨e, hget, hlt⟩
  change (run (bill unlimitedKey) (.start unlimitedDb) missedCalls).db.get? unlimitedKey =
    some e at hget
  rw [hget] at howed
  rcases Prod.mk.inj (Option.some.inj howed) with ⟨hconsumed, htransferred⟩
  rw [hconsumed, htransferred] at hlt
  exact absurd hlt (by decide)

end TKNC.Escrow
