import TKNC.Escrow.Billing

/-!
# Payer — whose wallet pays

The payment section asks `FindWalletByAddress` for a wallet of the record's user.  The lookup does
not report a missing owner: it falls back to the first loaded wallet, which then confirms, pays and
is charged in the owner's place.  The result below says exactly when a call spends from the owner
only.
-/

namespace TKNC.Escrow

open Consensus Lib.MachineInt Lib.Numeral Wallet

def dueAmount (node : Node) (e : SpendingLimit) (tokensUsed : Int) : Option Int :=
  let cost := (chargeFor e (rateTkncPerToken node e) tokensUsed).cost
  let consumed := i64 (e.consumedTknc + cost)
  if consumed.tdiv coin > e.consumedTknc.tdiv coin ∧ e.minerWallet ≠ [] then
    some (i64 (i64 (consumed.tdiv coin - e.consumedTknc.tdiv coin) * coin))
  else
    none

def canSend (node : Node) (w : CWallet) (e : SpendingLimit) (amount : Int) : Bool :=
  (transferFromWallet node.toNodeContext w e.minerWallet amount false e.userWallet).isSome ||
    (decide (0 < w.available ∧ w.available < amount) &&
      (transferFromWallet node.toNodeContext w e.minerWallet w.available true e.userWallet).isSome)

variable {e : SpendingLimit}

theorem transfers_payMiner_eq_nil_iff {node : Node} {w : CWallet} (coins : Int)
    (hw : findWalletByAddress node.toNodeContext e.userWallet = some w) :
    (payMiner node e coins).transfers = [] ↔ canSend node w e coins = false := by
  simp only [payMiner, hw, canSend, Bool.or_eq_false_iff, Bool.and_eq_false_iff]
  -- a locked wallet sends nothing; otherwise the full amount is tried first, then the balance
  by_cases hlocked : w.isLocked = true
  · simp [hlocked, Payment.nothing, transferFromWallet]
  · simp only [hlocked, Bool.false_eq_true, if_false]
    cases hfull : transferFromWallet node.toNodeContext w e.minerWallet coins false e.userWallet with
    | some txid => simp
    | none =>
      by_cases hrange : w.available > 0 ∧ w.available < coins
      · cases hpart : transferFromWallet node.toNodeContext w e.minerWallet w.available true
            e.userWallet with
        | some txid => simp [hrange]
        | none => simp [hrange, Payment.nothing]
      · simp [hrange, Payment.nothing]

theorem dueAmount_eq (node : Node) (e : SpendingLimit) (tokensUsed : Int) :
    dueAmount node e tokensUsed =
      if crossesBoundary (chargedRecord node (recoverState e) tokensUsed) e.consumedTknc then
        some (coinsToPay (chargedRecord node (recoverState e) tokensUsed) e.consumedTknc)
      else
        none := by
  simp only [dueAmount, crossesBoundary, coinsToPay, consumedTknc_chargedRecord,
    consumedTknc_recoverState, rateTkncPerToken_recoverState, chargeFor_recoverState,
    minerWallet_chargedRecord, minerWallet_recoverState, Bool.and_eq_true, decide_eq_true_eq]

theorem paymentFor_eq (node : Node) (e : SpendingLimit) (tokensUsed : Int) :
    paymentFor node (recoverState e) tokensUsed =
      match dueAmount node e tokensUsed with
      | none => Payment.nothing false
      | some due => payMiner node (chargedRecord node (recoverState e) tokensUsed) due := by
  rw [dueAmount_eq, paymentFor, consumedTknc_recoverState]
  split <;> rfl

/-! ## A call and one stored record -/

/-- Whatever the call transfers for the record comes from a wallet that owns its user address, and
without such a wallet nothing is transferred and the ledger fields of the record stay. -/
structure SpentFromOwner (node : Node) (db : Database) (apiKey : Bytes) (tokensUsed : Int)
    (k : DbKey) (e : SpendingLimit) (dest : Script) : Prop where
  fromOwner : Charged node db apiKey tokensUsed k e →
    ∀ tr ∈ (checkAndDeductEscrow node db apiKey tokensUsed).transfers, tr.wallet.isMine dest = true
  noOwner : ¬ node.Owned dest →
    (Charged node db apiKey tokensUsed k e →
      (checkAndDeductEscrow node db apiKey tokensUsed).transfers = []) ∧
    ∃ e', (checkAndDeductEscrow node db apiKey tokensUsed).db.get? k = some e' ∧
      e'.transferredTknc = e.transferredTknc ∧ e'.pendingTxids = e.pendingTxids

/-- The wallet that stands in for a missing owner finds no confirmed transfer of the record in its
own history, and has nothing due or cannot send it. -/
def StandInIdle (node : Node) (e : SpendingLimit) (tokensUsed : Int) (w : CWallet) : Prop :=
  newlyConfirmed w (parsePendingTxids e.pendingTxids) ≤ 0 ∧
    ∀ due, dueAmount node e tokensUsed = some due → canSend node w e due = false

theorem get?_of_not_charged {node : Node} {db : Database} {apiKey : Bytes} {tokensUsed : Int}
    {k : DbKey} (hstored : db.get? k = some e) (h : ¬ Charged node db apiKey tokensUsed k e) :
    (checkAndDeductEscrow node db apiKey tokensUsed).db.get? k = some e := by
  by_cases hany : ∃ k' e', Charged node db apiKey tokensUsed k' e'
  · -- some other record is charged, and only that one is written
    rcases hany with ⟨k', e', hcharged⟩
    have hne : k ≠ k' := by
      rintro rfl
      cases Option.some.inj (hstored.symm.trans hcharged.stored)
      exact h hcharged
    rw [hcharged.bills.1, writeSpendingLimit, Lib.OrderedMap.get?_insert_of_ne hne, hstored]
  · push Not at hany
    rw [checkAndDeductEscrow_refused hany]
    exact hstored

section Charged

variable {node : Node} {db : Database} {apiKey : Bytes} {tokensUsed : Int} {k : DbKey}
  {e : SpendingLimit}

theorem Charged.get?_billed (h : Charged node db apiKey tokensUsed k e) :
    (checkAndDeductEscrow node db apiKey tokensUsed).db.get? k =
      some (billedRecord node (recoverState e) tokensUsed) := by
  rw [h.bills.1, writeSpendingLimit, Lib.OrderedMap.get?_insert_self]

theorem Charged.wallet_of_transfer (h : Charged node db apiKey tokensUsed k e) {tr : Transfer}
    (htr : tr ∈ (checkAndDeductEscrow node db apiKey tokensUsed).transfers) :
    findWalletByAddress node.toNodeContext e.userWallet = some tr.wallet := by
  rw [h.bills.2.1] at htr
  rcases billedRecord_cases node (recoverState e) tokensUsed with
    ⟨_, hnil⟩ | ⟨w, amount, subtractFee, txid, hw, _, _, _, hone⟩
  · rw [hnil] at htr
    cases htr
  · rw [hone] at htr
    cases List.mem_singleton.1 htr
    simpa using hw

theorem billed_ledger_of_no_transfer
    (hnil : (paymentFor node (recoverState e) tokensUsed).transfers = []) :
    (billedRecord node (recoverState e) tokensUsed).transferredTknc = e.transferredTknc ∧
      (billedRecord node (recoverState e) tokensUsed).pendingTxids =
        (updateConfirmedTransfers node.toNodeContext (recoverState e)).pendingTxids := by
  rcases billedRecord_cases node (recoverState e) tokensUsed with
    ⟨hbilled, _⟩ | ⟨w, amount, subtractFee, txid, _, _, _, _, hone⟩
  · rw [hbilled, (chargedRecord_ledger _ _ _).2, transferredTknc_chargedRecord]
    exact ⟨transferredTknc_recoverState e, rfl⟩
  · rw [hone] at hnil
    cases hnil

end Charged

/-! ## The equivalence -/

theorem standIn_iff {node : Node} {tokensUsed : Int} {w : CWallet}
    (hw : findWalletByAddress node.toNodeContext e.userWallet = some w) :
    (paymentFor node (recoverState e) tokensUsed).transfers = [] ∧
        (billedRecord node (recoverState e) tokensUsed).pendingTxids = e.pendingTxids ↔
      StandInIdle node e tokensUsed w := by
  have hpending : (updateConfirmedTransfers node.toNodeContext (recoverState e)).pendingTxids =
      e.pendingTxids ↔ newlyConfirmed w (parsePendingTxids e.pendingTxids) ≤ 0 := by
    have hrecovered : findWalletByAddress node.toNodeContext (recoverState e).userWallet = some w := by
      simpa using hw
    simpa using pendingTxids_update_eq_iff hrecovered
  have hsend : (paymentFor node (recoverState e) tokensUsed).transfers = [] ↔
      ∀ due, dueAmount node e tokensUsed = some due → canSend node w e due = false := by
    rw [paymentFor_eq]
    cases hdue : dueAmount node e tokensUsed with
    | none => simp [Payment.nothing]
    | some due =>
      have hcharged := transfers_payMiner_eq_nil_iff due
        (e := chargedRecord node (recoverState e) tokensUsed) (by simpa using hw)
      simpa [canSend] using hcharged
  rw [StandInIdle, ← hpending, ← hsend]
  constructor
  · rintro ⟨hnil, hkeep⟩
    exact ⟨(billed_ledger_of_no_transfer hnil).2 ▸ hkeep, hnil⟩
  · rintro ⟨hkeep, hnil⟩
    exact ⟨hnil, (billed_ledger_of_no_transfer hnil).2.trans hkeep⟩

theorem spentFromOwner_iff {node : Node} {db : Database} {apiKey : Bytes} {tokensUsed : Int}
    {k : DbKey} {e : SpendingLimit} {dest : Script} (hstored : db.get? k = some e)
    (hdest : node.decodeDestination e.userWallet = some dest) :
    SpentFromOwner node db apiKey tokensUsed k e dest ↔
      ¬ Charged node db apiKey tokensUsed k e ∨ node.Owned dest ∨
        ∀ w, node.fallback = some w → StandInIdle node e tokensUsed w := by
  by_cases hcharged : Charged node db apiKey tokensUsed k e
  · by_cases howned : node.Owned dest
    · -- The lookup gives an owner, and every transfer is its own.
      refine iff_of_true ⟨?_, fun h => absurd howned h⟩ (Or.inr (Or.inl howned))
      intro _ tr htr
      rcases findWalletByAddress_of_owned hdest howned with ⟨w, hw, hmine⟩
      cases Option.some.inj (hw.symm.trans (hcharged.wallet_of_transfer htr))
      exact hmine
    · -- no owner: both parts of the property come down to an idle stand-in
      have hlookup := findWalletByAddress_of_not_owned hdest howned
      have hledger : SpentFromOwner node db apiKey tokensUsed k e dest ↔
          (paymentFor node (recoverState e) tokensUsed).transfers = [] ∧
            (billedRecord node (recoverState e) tokensUsed).pendingTxids = e.pendingTxids := by
        constructor
        · intro h
          rcases h.noOwner howned with ⟨hnil, e', hget, _, hpending⟩
          cases Option.some.inj (hcharged.get?_billed.symm.trans hget)
          exact ⟨hcharged.bills.2.1 ▸ hnil hcharged, hpending⟩
        · rintro ⟨hnil, hpending⟩
          have hcall : (checkAndDeductEscrow node db apiKey tokensUsed).transfers = [] :=
            hcharged.bills.2.1.trans hnil
          refine ⟨?_, fun _ => ⟨fun _ => hcall, _, hcharged.get?_billed,
            (billed_ledger_of_no_transfer hnil).1, hpending⟩⟩
          intro _ tr htr
          rw [hcall] at htr
          cases htr
      rw [hledger]
      cases hfallback : node.fallback with
      | none =>
        -- without any wallet the payment is deferred
        have hnone := hlookup.trans hfallback
        refine iff_of_true ?_ (Or.inr (Or.inr fun w hw => by cases hw))
        have hnil : (paymentFor node (recoverState e) tokensUsed).transfers = [] := by
          rcases billedRecord_cases node (recoverState e) tokensUsed with
            ⟨_, hnil⟩ | ⟨w, _, _, _, hw, _⟩
          · exact hnil
          · rw [userWallet_recoverState, hnone] at hw
            cases hw
        refine ⟨hnil, (billed_ledger_of_no_transfer hnil).2.trans ?_⟩
        rw [updateConfirmedTransfers_of_none (by simpa using hnone), pendingTxids_recoverState]
      | some w =>
        rw [standIn_iff (hlookup.trans hfallback)]
        simp [hcharged, howned]
  · refine iff_of_true ⟨fun h => absurd h hcharged, ?_⟩ (Or.inl hcharged)
    intro _
    exact ⟨fun h => absurd h hcharged, e, get?_of_not_charged hstored hcharged, rfl, rfl⟩

/-! ## A stranger pays -/

/-- A loaded wallet that owns none of the addresses of the record below. -/
def strangerWallet : CWallet :=
  { CWallet.owning [ascii "stranger"] with
    mineTrusted := 500000000
    createTransaction := fun _ _ => some 7 }

def strangerNode : Node :=
  { NodeContext.ofWallets [strangerWallet] with
    tokenRates := ⟨[], []⟩
    pendingCosts := fun _ => 0 }

def userRecord : SpendingLimit :=
  { escrowId := ascii "escrow_key_1"
    userWallet := ascii "user"
    minerWallet := ascii "miner"
    apiKey := ascii "key"
    rateTkncPerToken := 100000000 }

def userDb : Database :=
  writeSpendingLimit Lib.OrderedMap.empty ⟨ascii "escrow_key_1"⟩ userRecord

def ownerWallet : CWallet :=
  { strangerWallet with isMine := (CWallet.owning [ascii "user"]).isMine }

def ownerNode : Node :=
  { strangerNode with toNodeContext := NodeContext.ofWallets [strangerWallet, ownerWallet] }

theorem spentFromOwner_user :
    (userDb.get? ⟨ascii "escrow_key_1"⟩ = some userRecord ∧
      ownerNode.decodeDestination userRecord.userWallet = some (ascii "user") ∧
      (checkAndDeductEscrow ownerNode userDb (ascii "key") 1).transfers.map (·.amount) =
        [100000000]) ∧
    SpentFromOwner ownerNode userDb (ascii "key") 1 ⟨ascii "escrow_key_1"⟩ userRecord
      (ascii "user") := by
  have howned : ownerNode.Owned (ascii "user") :=
    ⟨ownerWallet, List.mem_cons_of_mem _ (List.mem_singleton_self _), by decide⟩
  exact ⟨by decide, (spentFromOwner_iff (by decide) (by decide)).2 (Or.inr (Or.inl howned))⟩

theorem not_spentFromOwner_stranger :
    ¬ strangerNode.Owned (ascii "user") ∧
      (checkAndDeductEscrow strangerNode userDb (ascii "key") 1).transfers.map (·.amount) =
        [100000000] ∧
      ¬ SpentFromOwner strangerNode userDb (ascii "key") 1 ⟨ascii "escrow_key_1"⟩ userRecord
        (ascii "user") := by
  have hstranger : ¬ strangerNode.Owned (ascii "user") := by
    rintro ⟨w, hw, hmine⟩
    cases List.mem_singleton.1 hw
    exact absurd hmine (by decide)
  have hpaid : (checkAndDeductEscrow strangerNode userDb (ascii "key") 1).transfers.map (·.amount) =
      [100000000] := by decide
  refine ⟨hstranger, hpaid, ?_⟩
  intro h
  have hnil := (h.noOwner hstranger).1 ⟨by decide, by decide⟩
  rw [hnil] at hpaid
  cases hpaid

end TKNC.Escrow
