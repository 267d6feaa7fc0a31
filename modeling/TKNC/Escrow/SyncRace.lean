import TKNC.Escrow.PaymentBook
import TKNC.Lib.EventMachine

/-!
# SyncRace — billing calls against copies from peers

`WriteSpendingLimitFromP2P` reads the stored record before it takes the escrow mutex and writes the
merged record under it.  Billing calls can come in between, and the merge takes its maxima against
the copy, not against what is stored by then.
-/

namespace TKNC.Escrow.SyncRace

open Lib Lib.EventMachine Lib.MachineInt Lib.Numeral List

/-! ## Runs -/

/-- A sync call between its read and its write: the message, and what was stored under its id. -/
structure SyncCall where
  escrow : SpendingLimit
  existing : Option SpendingLimit

def SyncCall.update (c : SyncCall) : Option SpendingLimit :=
  match c.existing with
  | some existing =>
      let merged := mergeFromPeer existing c.escrow
      if merged = existing then none else some merged
  | none => some c.escrow

/-- `billed` is the sum of the receipts for the record under observation and is not part of the
node. -/
structure SyncState where
  db : Database
  calls : List SyncCall
  billed : Int

inductive Event where
  | bill (node : Node) (apiKey : Bytes) (tokensUsed : Int)
  | read (escrow : SpendingLimit)
  | write (i : Nat)

def costUnder (k : DbKey) (node : Node) (db : Database) (apiKey : Bytes) (tokensUsed : Int) : Int :=
  if (db.entries.find? (chargeable node apiKey)).map Prod.fst = some k then
    ((checkAndDeductEscrow node db apiKey tokensUsed).receipt.map (·.costTknc)).getD 0
  else
    0

def step (k : DbKey) (s : SyncState) : Event → SyncState
  | .bill node apiKey tokensUsed =>
      { s with
        db := (checkAndDeductEscrow node s.db apiKey tokensUsed).db
        billed := s.billed + costUnder k node s.db apiKey tokensUsed }
  | .read escrow =>
      -- a message without id or key is dropped
      if escrow.escrowId = [] ∨ escrow.apiKey = [] then s
      else { s with calls := s.calls ++ [⟨escrow, readSpendingLimit s.db ⟨escrow.escrowId⟩⟩] }
  | .write i =>
      match s.calls[i]? with
      | some c =>
          { s with
            db :=
              match c.update with
              | some e => writeSpendingLimit s.db ⟨c.escrow.escrowId⟩ e
              | none => s.db
            calls := s.calls.eraseIdx i }
      | none => s

def start (db : Database) : SyncState :=
  { db := db
    calls := []
    billed := 0 }

theorem run_writeSpendingLimitFromP2P (k : DbKey) (s : SyncState) {escrow : SpendingLimit}
    (hid : escrow.escrowId ≠ []) (hkey : escrow.apiKey ≠ []) :
    run (step k) s [.read escrow, .write s.calls.length] =
      { s with db := (writeSpendingLimitFromP2P s.db escrow).2 } := by
  have haccepted : ¬ (escrow.escrowId = [] ∨ escrow.apiKey = []) := by
    simp [hid, hkey]
  simp only [run, foldl_cons, foldl_nil]
  cases hread : readSpendingLimit s.db ⟨escrow.escrowId⟩ with
  | none =>
    simp [step, haccepted, hread, SyncCall.update, writeSpendingLimitFromP2P,
      eraseIdx_append_of_length_le]
  | some existing =>
    by_cases hsame : mergeFromPeer existing escrow = existing <;>
      simp [step, haccepted, hread, hsame, SyncCall.update, writeSpendingLimitFromP2P,
        eraseIdx_append_of_length_le]

/-- The stored consumption covers the receipts. -/
def Covered (k : DbKey) (s : SyncState) : Prop :=
  ∃ e, s.db.get? k = some e ∧ s.billed ≤ e.consumedTknc

/-- The copy is not stale: what is stored by now is known to it or to the message. -/
def SyncCall.UpToDate (c : SyncCall) (stored : SpendingLimit) : Prop :=
  stored.consumedTknc ≤ c.escrow.consumedTknc ∨
    ∃ existing ∈ c.existing, stored.consumedTknc ≤ existing.consumedTknc

/-- The charge of an unlimited record does not overflow its consumption. -/
def StaysInRegister (node : Node) (e : SpendingLimit) (tokensUsed : Int) : Prop :=
  e.totalTknc = 0 →
    e.consumedTknc + (chargeFor e (rateTkncPerToken node e) tokensUsed).cost ≤ int64Max

/-- A charge stays in its register, and a sync call that writes is up to date. -/
def Safe (k : DbKey) (s : SyncState) : Event → Prop
  | .bill node apiKey tokensUsed =>
      ∀ kv ∈ s.db.entries.find? (chargeable node apiKey), kv.1 = k →
        tokensUsed ≤ int64Max.tdiv (rateTkncPerToken node kv.2) →
          StaysInRegister node kv.2 tokensUsed
  | .write i =>
      ∀ c ∈ s.calls[i]?, c.escrow.escrowId = k.id → c.update ≠ none →
        ∀ stored ∈ s.db.get? k, c.UpToDate stored
  | .read _ => True

instance (c : SyncCall) (stored : SpendingLimit) : Decidable (c.UpToDate stored) := by
  unfold SyncCall.UpToDate
  infer_instance

instance (node : Node) (e : SpendingLimit) (tokensUsed : Int) :
    Decidable (StaysInRegister node e tokensUsed) := by
  unfold StaysInRegister
  infer_instance

instance (k : DbKey) (s : SyncState) (event : Event) : Decidable (Safe k s event) := by
  cases event <;> unfold Safe <;> infer_instance

/-! ## Invariant -/

/-- The amounts of a record are those of an `int64_t` counter. -/
structure Counts (e : SpendingLimit) : Prop where
  consumed : 0 ≤ e.consumedTknc
  total : e.totalTknc ≤ int64Max

/-- The observed record covers its receipts, and every sync call for it holds a copy. -/
structure Inv (k : DbKey) (s : SyncState) : Prop where
  stored : ∃ e, s.db.get? k = some e ∧ Counts e ∧ s.billed ≤ e.consumedTknc
  copies : ∀ c ∈ s.calls, c.escrow.escrowId = k.id → ∃ e, c.existing = some e ∧ Counts e

variable {k : DbKey}

theorem inv_start {db : Database} {e : SpendingLimit} (hget : db.get? k = some e)
    (hcounts : Counts e) : Inv k (start db) :=
  ⟨⟨e, hget, hcounts, hcounts.consumed⟩, fun _ hc => absurd hc not_mem_nil⟩

variable {s : SyncState}

theorem Inv.covered (h : Inv k s) : Covered k s := by
  rcases h.stored with ⟨e, hget, _, hle⟩
  exact ⟨e, hget, hle⟩

theorem Counts.charged {node : Node} {e : SpendingLimit} {tokensUsed : Int} (h : Counts e)
    (hleft : e.isExhausted = false) (hcharge : StaysInRegister node e tokensUsed) :
    Counts (billedRecord node (recoverState e) tokensUsed) ∧
      (billedRecord node (recoverState e) tokensUsed).consumedTknc =
        e.consumedTknc + (chargeFor e (rateTkncPerToken node e) tokensUsed).cost := by
  have hnonneg := h.consumed
  have htotal := h.total
  have hpos := one_le_cost (rateTkncPerToken node e) tokensUsed htotal hnonneg hleft
  have hmax : e.consumedTknc + (chargeFor e (rateTkncPerToken node e) tokensUsed).cost ≤
      int64Max := by
    by_cases hlimit : e.totalTknc = 0
    · exact hcharge hlimit
    · have hbounds := cost_limited (rateTkncPerToken node e) tokensUsed hlimit htotal hnonneg hleft
      omega
  have hconsumed : (billedRecord node (recoverState e) tokensUsed).consumedTknc =
      e.consumedTknc + (chargeFor e (rateTkncPerToken node e) tokensUsed).cost := by
    simp only [int64Max] at hmax
    rw [consumedTknc_billedRecord]
    exact consumedTknc_charged_recovered (fits64_iff.2 (by omega))
  refine ⟨⟨by omega, ?_⟩, hconsumed⟩
  rw [totalTknc_billedRecord, totalTknc_recoverState]
  exact h.total

theorem Inv.bill {node : Node} {apiKey : Bytes} {tokensUsed : Int} (h : Inv k s)
    (hsafe : Safe k s (.bill node apiKey tokensUsed)) :
    Inv k (step k s (.bill node apiKey tokensUsed)) := by
  rcases h.stored with ⟨e, hget, hcounts, hle⟩
  refine ⟨?_, h.copies⟩
  by_cases hany : ∃ k' e', Charged node s.db apiKey tokensUsed k' e'
  · rcases hany with ⟨k', e', hcharged⟩
    rcases hcharged.bills with ⟨hdb, _, receipt, hreceipt, hcost⟩
    rw [step, hdb]
    by_cases hk : k' = k
    · subst hk
      cases Option.some.inj (hget.symm.trans hcharged.stored)
      rcases hcounts.charged hcharged.not_exhausted (hsafe _ hcharged.first rfl hcharged.fits) with
        ⟨hcounts', hconsumed⟩
      refine ⟨_, OrderedMap.get?_insert_self _ _ _, hcounts', ?_⟩
      simp only [costUnder, hcharged.first, Option.map_some, if_true, hreceipt, Option.getD_some]
      omega
    · refine ⟨e, (OrderedMap.get?_insert_of_ne (Ne.symm hk)).trans hget, hcounts, ?_⟩
      simpa [costUnder, hcharged.first, hk] using hle
  · push Not at hany
    refine ⟨e, ?_, hcounts, ?_⟩
    · rw [step, checkAndDeductEscrow_refused hany]
      exact hget
    · simpa [step, costUnder, checkAndDeductEscrow_refused hany, BillingResult.refused] using hle

theorem Inv.read (h : Inv k s) (escrow : SpendingLimit) :
    Inv k (step k s (.read escrow)) := by
  rw [step]
  split
  · exact h
  · refine ⟨h.stored, ?_⟩
    intro c hc hid
    rcases mem_append.1 hc with hc | hc
    · exact h.copies c hc hid
    · -- records are never removed, so the call found the observed one
      cases mem_singleton.1 hc
      rcases h.stored with ⟨e, hget, hcounts, _⟩
      refine ⟨e, ?_, hcounts⟩
      change readSpendingLimit s.db ⟨escrow.escrowId⟩ = some e
      rw [show escrow.escrowId = k.id from hid]
      exact hget

theorem Inv.write {i : Nat} (h : Inv k s) (hsafe : Safe k s (.write i)) :
    Inv k (step k s (.write i)) := by
  rw [step]
  split
  · rename_i c hcall
    refine ⟨?_, fun c' hc' => h.copies c' (mem_of_mem_eraseIdx hc')⟩
    rcases h.stored with ⟨stored, hget, hcounts, hle⟩
    cases hupdate : c.update with
    | none => exact ⟨stored, hget, hcounts, hle⟩
    | some e =>
      by_cases hid : c.escrow.escrowId = k.id
      · rcases h.copies c (mem_of_getElem? hcall) hid with ⟨copy, hcopy, hcopyCounts⟩
        -- the merged record keeps the larger of the two consumptions
        have hmerged : e = mergeFromPeer copy c.escrow := by
          simp only [SyncCall.update, hcopy] at hupdate
          split at hupdate
          · cases hupdate
          · exact (Option.some.inj hupdate).symm
        have hfresh := hsafe c hcall hid (by simp [hupdate]) stored hget
        have hconsumed : stored.consumedTknc ≤ e.consumedTknc := by
          rw [hmerged]
          simp only [mergeFromPeer]
          rcases hfresh with hmessage | ⟨existing, hexisting, hknown⟩
          · split <;> omega
          · cases Option.some.inj (hcopy.symm.trans hexisting)
            split <;> omega
        refine ⟨e, ?_, ⟨hcounts.consumed.trans hconsumed, ?_⟩, hle.trans hconsumed⟩
        · rw [hid]
          exact OrderedMap.get?_insert_self _ _ _
        · rw [hmerged]
          exact hcopyCounts.total
      · have hne : k ≠ ⟨c.escrow.escrowId⟩ := by
          rintro rfl
          exact hid rfl
        exact ⟨stored, (OrderedMap.get?_insert_of_ne hne).trans hget, hcounts, hle⟩
  · exact h

theorem inv_step {event : Event} (h : Inv k s) (hsafe : Safe k s event) :
    Inv k (step k s event) := by
  cases event with
  | bill node apiKey tokensUsed => exact h.bill hsafe
  | read escrow => exact h.read escrow
  | write i => exact h.write hsafe

/-- In a run of safe steps the stored consumption covers the receipts at all times. -/
theorem covered_of_safeRun {k : DbKey} {db : Database} {e : SpendingLimit} {events : List Event}
    (hget : db.get? k = some e) (hconsumed : 0 ≤ e.consumedTknc) (htotal : e.totalTknc ≤ int64Max)
    (hsafe : GoodRun (step k) (Safe k) (start db) events) :
    Always (step k) (Covered k) (start db) events :=
  hsafe.always (fun _ _ => inv_step) (fun _ => Inv.covered) (inv_start hget ⟨hconsumed, htotal⟩)

/-! ## A lost cost -/

def clientCopy : SpendingLimit :=
  { unlimitedRecord with state := .active }

def serialRun : List Event :=
  [.bill (payingNode [] 7) (ascii "key") 1, .read clientCopy, .write 0]

theorem covered_of_safeRun_serial :
    (createescrow unlimitedArgs = .ok unlimitedRecord ∧
      GoodRun (step unlimitedKey) (Safe unlimitedKey) (start unlimitedDb) serialRun) ∧
    Always (step unlimitedKey) (Covered unlimitedKey) (start unlimitedDb) serialRun := by
  have hsafe : GoodRun (step unlimitedKey) (Safe unlimitedKey) (start unlimitedDb) serialRun := by
    decide
  have hget : unlimitedDb.get? unlimitedKey = some unlimitedRecord := by decide
  exact ⟨⟨by rfl, hsafe⟩, covered_of_safeRun hget (by decide) (by decide) hsafe⟩

def racingRun : List Event :=
  [.read clientCopy, .bill (payingNode [] 7) (ascii "key") 1, .write 0]

theorem not_covered_racing :
    createescrow unlimitedArgs = .ok unlimitedRecord ∧
      (run (step unlimitedKey) (start unlimitedDb) racingRun).billed = 100000000 ∧
      ((run (step unlimitedKey) (start unlimitedDb) racingRun).db.get? unlimitedKey).map
        (·.consumedTknc) = some 0 ∧
      ¬ Always (step unlimitedKey) (Covered unlimitedKey) (start unlimitedDb) racingRun := by
  have hbilled : (run (step unlimitedKey) (start unlimitedDb) racingRun).billed = 100000000 := by
    decide
  have hlost : ((run (step unlimitedKey) (start unlimitedDb) racingRun).db.get? unlimitedKey).map
      (·.consumedTknc) = some 0 := by decide
  refine ⟨by rfl, hbilled, hlost, ?_⟩
  intro halways
  rcases halways.last with ⟨e, hget, hle⟩
  rw [hget] at hlost
  have hzero : e.consumedTknc = 0 := Option.some.inj hlost
  omega

end TKNC.Escrow.SyncRace
