import TKNC.Escrow.Admission
import TKNC.Escrow.PaymentBook
import TKNC.Lib.EventMachine

/-!
# Interleaving — billing calls against the steps of admission calls

Billing runs under the escrow mutex and is one step.  An admission call takes the mutex to read the
record of its key and again to write two fields back, and works on its copy in between; any number
of such calls can be under way.

For one record, `recorded` is the history of the transfers that billing recorded in it.  The results
say which interleavings keep the record in step with its history.
-/

namespace TKNC.Escrow.Interleaving

open Lib Lib.AccountBook Lib.EventMachine Lib.MachineInt Lib.Numeral Wallet OrderedMap List

/-! ## Runs -/

inductive Call where
  | copied (escrow : SpendingLimit)
  | updated (escrow : SpendingLimit) (oldPending : Bytes)

def Call.escrow : Call → SpendingLimit
  | .copied escrow => escrow
  | .updated escrow _ => escrow

structure EscrowState where
  db : Database
  calls : List Call
  recorded : List PendingEntry

inductive Event where
  | bill (node : Node) (apiKey : Bytes) (tokensUsed : Int)
  | read (apiKey : Bytes)
  | update (i : Nat) (node : NodeContext)
  | write (i : Nat)

def recordedUnder (k : DbKey) (node : Node) (db : Database) (apiKey : Bytes) (tokensUsed : Int) :
    List PendingEntry :=
  if (db.entries.find? (chargeable node apiKey)).map Prod.fst = some k then
    (checkAndDeductEscrow node db apiKey tokensUsed).transfers.map Transfer.entry
  else
    []

def step (k : DbKey) (s : EscrowState) : Event → EscrowState
  | .bill node apiKey tokensUsed =>
      { s with
        db := (checkAndDeductEscrow node s.db apiKey tokensUsed).db
        recorded := s.recorded ++ recordedUnder k node s.db apiKey tokensUsed }
  | .read apiKey =>
      match findSpendingLimitByAPIKey s.db apiKey with
      | some escrow => { s with calls := s.calls ++ [.copied escrow] }
      | none => s
  | .update i node =>
      match s.calls[i]? with
      | some (.copied escrow) =>
          { s with
            calls := s.calls.set i
              (.updated (updateConfirmedTransfers node escrow) escrow.pendingTxids) }
      | _ => s
  | .write i =>
      match s.calls[i]? with
      | some (.updated escrow oldPending) =>
          { s with
            db := writeBack s.db escrow oldPending
            calls := s.calls.eraseIdx i }
      | _ => s

def start (db : Database) : EscrowState :=
  { db := db
    calls := []
    recorded := [] }

theorem run_canAffordInference (k : DbKey) (s : EscrowState) (node : Node) (apiKey : Bytes) :
    run (step k) s [.read apiKey, .update s.calls.length node.toNodeContext, .write s.calls.length] =
      { s with db := (canAffordInference node s.db apiKey).2 } := by
  simp only [run, foldl_cons, foldl_nil]
  cases hfind : findSpendingLimitByAPIKey s.db apiKey with
  | none => simp [step, hfind, canAffordInference]
  | some read =>
    simp [step, hfind, canAffordInference, checks_db, eraseIdx_append_of_length_le]

/-! ## Records in step with their history -/

/-- The stored record is in step with its history: every recorded transfer is either confirmed and
counted once in `confirmedTknc`, or pending. -/
def InStep (k : DbKey) (s : EscrowState) : Prop :=
  ∃ e, s.db.get? k = some e ∧
    e.transferredTknc =
      e.confirmedTknc + total Prod.snd (parsePendingTxids e.pendingTxids) ∧
    ∃ confirmed, s.recorded.Perm (confirmed ++ parsePendingTxids e.pendingTxids) ∧
      e.confirmedTknc = total Prod.snd confirmed

/-- The write-back of the call changes the record under `k`. -/
def Call.WritesTo (k : DbKey) : Call → Prop
  | .copied _ => False
  | .updated escrow oldPending => escrow.pendingTxids ≠ oldPending ∧ escrow.escrowId = k.id

instance (k : DbKey) (c : Call) : Decidable (c.WritesTo k) := by
  cases c <;> unfold Call.WritesTo <;> infer_instance

/-- A write-back finds the record with the transfers its copy was read with, and a charge stays in
its register. -/
def Safe (k : DbKey) (s : EscrowState) : Event → Prop
  | .bill node apiKey tokensUsed =>
      ∀ kv ∈ s.db.entries.find? (chargeable node apiKey), kv.1 = k →
        tokensUsed ≤ int64Max.tdiv (rateTkncPerToken node kv.2) → ChargeFits node kv.2 tokensUsed
  | .write i =>
      ∀ c ∈ s.calls[i]?, c.WritesTo k →
        ∀ stored ∈ s.db.get? k, stored.transferredTknc = c.escrow.transferredTknc
  | .read _ | .update _ _ => True

instance (node : Node) (e : SpendingLimit) (tokensUsed : Int) :
    Decidable (ChargeFits node e tokensUsed) := by
  unfold ChargeFits
  infer_instance

instance (k : DbKey) (s : EscrowState) (event : Event) : Decidable (Safe k s event) := by
  cases event <;> unfold Safe <;> infer_instance

/-- Every record lies under its own id, the observed record has a book of its whole history, and
every copy of it a book of some earlier history. -/
structure Inv (k : DbKey) (s : EscrowState) : Prop where
  keyed : KeyedById s.db
  stored : ∃ e b, s.db.get? k = some e ∧ Ledger e b ∧ b.recorded = s.recorded
  copies : ∀ c ∈ s.calls, c.escrow.escrowId = k.id →
    ∃ b : PaymentBook, Represents c.escrow b ∧ b.recorded <+: s.recorded

variable {s : EscrowState} {k : DbKey}

theorem Inv.inStep (h : Inv k s) : InStep k s := by
  rcases h.stored with ⟨e, b, hget, hledger, hrecorded⟩
  have hsum := b.toBook.total_recorded Prod.snd
  refine ⟨e, hget, ?_, b.settled, ?_, hledger.represents.confirmed⟩
  · rw [hledger.represents.transferred, hledger.represents.confirmed, hledger.represents.pending]
    exact hsum
  · rw [hledger.represents.pending, ← hrecorded]
    exact b.perm

theorem inv_start {db : Database} {e : SpendingLimit} (hkeyed : KeyedById db)
    (hget : db.get? k = some e) (hfresh : Fresh e) (htotal : e.totalTknc ≤ int64Max) :
    Inv k (start db) := by
  exact ⟨hkeyed, ⟨e, PaymentBook.empty, hget, hfresh.ledger htotal, rfl⟩,
    fun c hc => absurd hc not_mem_nil⟩

/-! ## Steps -/

theorem Inv.bill {node : Node} {apiKey : Bytes} {tokensUsed : Int} (h : Inv k s)
    (hsafe : Safe k s (.bill node apiKey tokensUsed)) :
    Inv k (step k s (.bill node apiKey tokensUsed)) := by
  have hcopies : ∀ more, ∀ c ∈ s.calls, c.escrow.escrowId = k.id →
      ∃ b : PaymentBook, Represents c.escrow b ∧ b.recorded <+: s.recorded ++ more := by
    intro more c hc hid
    rcases h.copies c hc hid with ⟨b, hb, hbefore⟩
    exact ⟨b, hb, hbefore.trans (prefix_append _ _)⟩
  by_cases hany : ∃ k' e', Charged node s.db apiKey tokensUsed k' e'
  · rcases hany with ⟨k', e', hcharged⟩
    -- the charged record is written back under its own key
    have hkeyed : KeyedById (checkAndDeductEscrow node s.db apiKey tokensUsed).db := by
      rw [hcharged.bills.1]
      refine h.keyed.write ?_
      rw [escrowId_billedRecord, escrowId_recoverState]
      exact h.keyed _ (mem_of_find?_eq_some hcharged.first)
    refine ⟨hkeyed, ?_, hcopies _⟩
    rcases h.stored with ⟨e, b, hget, hledger, hrecorded⟩
    by_cases hk : k' = k
    · -- the observed record: its book grows by the transfer of the call
      subst hk
      cases Option.some.inj (hget.symm.trans hcharged.stored)
      have hfits := hsafe _ hcharged.first rfl hcharged.fits
      rcases hledger.billed hcharged.not_exhausted hfits with ⟨b', hrecorded', hledger'⟩
      refine ⟨_, b', ?_, hledger', ?_⟩
      · rw [step, hcharged.bills.1]
        exact get?_insert_self _ _ _
      · simp [step, recordedUnder, hcharged.first, hcharged.bills.2.1, hrecorded', hrecorded]
    · -- another record: the observed one and its history stay
      refine ⟨e, b, ?_, hledger, ?_⟩
      · rw [step, hcharged.bills.1]
        exact (get?_insert_of_ne (Ne.symm hk)).trans hget
      · simp [step, recordedUnder, hcharged.first, hk, hrecorded]
  · push Not at hany
    have hrefused := checkAndDeductEscrow_refused hany
    have hnone : recordedUnder k node s.db apiKey tokensUsed = [] := by
      simp [recordedUnder, hrefused, BillingResult.refused]
    refine ⟨?_, ?_, hcopies _⟩
    · simpa [step, hrefused, BillingResult.refused] using h.keyed
    · simpa [step, hrefused, BillingResult.refused, hnone] using h.stored

theorem Inv.read (h : Inv k s) (apiKey : Bytes) :
    Inv k (step k s (.read apiKey)) := by
  rw [step]
  split
  · rename_i escrow hfind
    refine ⟨h.keyed, h.stored, ?_⟩
    intro c hc hid
    rcases mem_append.1 hc with hc | hc
    · exact h.copies c hc hid
    · -- A copy of the observed record is the record itself.
      cases mem_singleton.1 hc
      rcases Option.map_eq_some_iff.1 hfind with ⟨⟨k', e'⟩, hentry, rfl⟩
      have hmem := (findEntryByAPIKey_some hentry).1
      cases h.keyed.key_eq hmem hid
      rcases h.stored with ⟨e, b, hget, hledger, hrecorded⟩
      cases Option.some.inj (hget.symm.trans (get?_eq_some_iff.2 hmem))
      exact ⟨b, hledger.represents, hrecorded ▸ prefix_refl _⟩
  · exact h

theorem Inv.update (h : Inv k s) (i : Nat) (node : NodeContext) :
    Inv k (step k s (.update i node)) := by
  rw [step]
  split
  · rename_i escrow hcall
    refine ⟨h.keyed, h.stored, ?_⟩
    intro c hc hid
    rcases mem_or_eq_of_mem_set hc with hc | rfl
    · exact h.copies c hc hid
    · rcases updateConfirmedTransfers_frame node escrow with ⟨_, _, hframe⟩
      have hid' : (Call.copied escrow).escrow.escrowId = k.id := by
        simpa [Call.escrow, hframe] using hid
      rcases h.copies _ (mem_of_getElem? hcall) hid' with ⟨b, hb, hbefore⟩
      rcases hb.update node with ⟨b', hrecorded, hb'⟩
      exact ⟨b', hb', hrecorded ▸ hbefore⟩
  · exact h

theorem Inv.write {i : Nat} (h : Inv k s) (hsafe : Safe k s (.write i)) :
    Inv k (step k s (.write i)) := by
  rw [step]
  split
  · rename_i escrow oldPending hcall
    have hcopies : ∀ c ∈ s.calls.eraseIdx i, c.escrow.escrowId = k.id →
        ∃ b : PaymentBook, Represents c.escrow b ∧ b.recorded <+: s.recorded :=
      fun c hc => h.copies c (mem_of_mem_eraseIdx hc)
    by_cases hwrites : escrow.pendingTxids ≠ oldPending ∧ escrow.escrowId = k.id
    · rcases h.stored with ⟨stored, b, hget, hledger, hrecorded⟩
      rcases h.copies _ (mem_of_getElem? hcall) hwrites.2 with ⟨b', hb', more, hmore⟩
      change Represents escrow b' at hb'
      have hsame : stored.transferredTknc = escrow.transferredTknc :=
        hsafe _ hcall hwrites stored hget
      -- Nothing was recorded since the copy was read: a further transfer would show in the sum.
      have hnothing : more = [] := by
        refine eq_nil_of_total_eq_zero (fun t ht => b.positive t ?_) ?_
        · rw [hrecorded, ← hmore]
          exact mem_append_right _ ht
        · rw [hledger.represents.transferred, hb'.transferred, hrecorded, ← hmore,
            total_append] at hsame
          omega
      rw [hnothing, append_nil] at hmore
      rw [writeBack_eq h.keyed hget hwrites.2 hwrites.1]
      refine ⟨h.keyed.write (h.keyed _ (get?_eq_some_iff.1 hget)),
        ⟨_, b', get?_insert_self _ _ _, ?_, hmore⟩, hcopies⟩
      exact
        { represents :=
            { pending := hb'.pending
              confirmed := hb'.confirmed
              transferred := hsame.trans hb'.transferred }
          total_le := hledger.total_le
          consumed_nonneg := hledger.consumed_nonneg
          consumed_le := hledger.consumed_le
          covered := by rw [hmore, ← hrecorded]; exact hledger.covered }
    · rcases writeBack_other h.keyed hwrites with ⟨hkeyed, hget⟩
      exact ⟨hkeyed, by simpa only [hget] using h.stored, hcopies⟩
  · exact h

theorem inv_step {event : Event} (h : Inv k s) (hsafe : Safe k s event) :
    Inv k (step k s event) := by
  cases event with
  | bill node apiKey tokensUsed => exact h.bill hsafe
  | read apiKey => exact h.read apiKey
  | update i node => exact h.update i node
  | write i => exact h.write hsafe

/-- A write-back over a record that got a transfer since the copy was read unbalances it. -/
theorem Inv.inStep_write_iff {i : Nat} (h : Inv k s) :
    InStep k (step k s (.write i)) ↔ Safe k s (.write i) := by
  constructor
  · intro hstep c hc hwrites stored hget
    cases c with
    | copied escrow => exact absurd hwrites id
    | updated escrow oldPending =>
      rcases h.copies _ (mem_of_getElem? hc) hwrites.2 with ⟨b, hb, _⟩
      change Represents escrow b at hb
      have hafter : step k s (.write i) =
          { s with
            db := writeBack s.db escrow oldPending
            calls := s.calls.eraseIdx i } := by
        rw [step, Option.mem_def.1 hc]
      rw [hafter, InStep, writeBack_eq h.keyed hget hwrites.2 hwrites.1] at hstep
      rcases hstep with ⟨e, hget', hsum, _⟩
      cases Option.some.inj (hget'.symm.trans (get?_insert_self _ _ _))
      dsimp only at hsum
      -- the written fields balance against the sum that the copy was read with
      rw [hb.pending, hb.confirmed, ← b.toBook.total_recorded, ← hb.transferred] at hsum
      exact hsum
  · intro hsafe
    exact (h.write hsafe).inStep

/-- In a run of safe steps from a fresh record, every state is in step with the history, and the
next write-back keeps it so exactly if it is safe. -/
theorem inStep_of_safeRun {k : DbKey} {db : Database} {e : SpendingLimit} {events : List Event}
    (hkeyed : KeyedById db) (hget : db.get? k = some e) (hfresh : Fresh e)
    (htotal : e.totalTknc ≤ int64Max) (hsafe : GoodRun (step k) (Safe k) (start db) events) :
    InStep k (run (step k) (start db) events) ∧
      ∀ i, InStep k (step k (run (step k) (start db) events) (.write i)) ↔
        Safe k (run (step k) (start db) events) (.write i) := by
  have hinv : Inv k (run (step k) (start db) events) :=
    hsafe.invariant (fun _ _ => inv_step) (inv_start hkeyed hget hfresh htotal)
  exact ⟨hinv.inStep, fun i => hinv.inStep_write_iff⟩

def quietRun : List Event :=
  [.bill (payingNode [] 7) (ascii "key") 1, .read (ascii "key"),
    .update 0 (payingNode [7] 8).toNodeContext, .write 0]

theorem inStep_of_safeRun_quiet :
    (createescrow unlimitedArgs = .ok unlimitedRecord ∧
      GoodRun (step unlimitedKey) (Safe unlimitedKey) (start unlimitedDb) quietRun) ∧
    InStep unlimitedKey (run (step unlimitedKey) (start unlimitedDb) quietRun) := by
  have hcreated : createescrow unlimitedArgs = .ok unlimitedRecord := by rfl
  have hsafe : GoodRun (step unlimitedKey) (Safe unlimitedKey) (start unlimitedDb) quietRun := by
    decide
  exact ⟨⟨hcreated, hsafe⟩, (inStep_of_safeRun unlimitedDb_keyedById (by decide)
    (fresh_of_createescrow hcreated) (by decide) hsafe).1⟩

def busyRun : List Event :=
  [.bill (payingNode [] 7) (ascii "key") 1, .read (ascii "key"),
    .bill (payingNode [] 8) (ascii "key") 1, .update 0 (payingNode [7] 9).toNodeContext, .write 0]

theorem not_inStep_busyRun :
    createescrow unlimitedArgs = .ok unlimitedRecord ∧
      (run (step unlimitedKey) (start unlimitedDb) busyRun).recorded =
        [(getHex 7, 100000000), (getHex 8, 100000000)] ∧
      ((run (step unlimitedKey) (start unlimitedDb) busyRun).db.get? unlimitedKey).map
          (fun e => (e.transferredTknc, e.confirmedTknc, e.pendingTxids)) =
        some (200000000, 100000000, []) ∧
      ¬ InStep unlimitedKey (run (step unlimitedKey) (start unlimitedDb) busyRun) := by
  have hlost : ((run (step unlimitedKey) (start unlimitedDb) busyRun).db.get? unlimitedKey).map
        (fun e => (e.transferredTknc, e.confirmedTknc, e.pendingTxids)) =
      some (200000000, 100000000, []) := by decide
  refine ⟨by rfl, by decide, hlost, ?_⟩
  rintro ⟨e, hget, hsum, _⟩
  rw [hget] at hlost
  rcases Prod.mk.inj (Option.some.inj hlost) with ⟨htransferred, hrest⟩
  rcases Prod.mk.inj hrest with ⟨hconfirmed, hpending⟩
  rw [htransferred, hconfirmed, hpending] at hsum
  exact absurd hsum (by decide)

end TKNC.Escrow.Interleaving
