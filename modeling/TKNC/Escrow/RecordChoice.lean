import TKNC.Escrow.PaymentBook

/-!
# RecordChoice — do admission and billing look at the same record?

A key can have several records.  Admission vets the one that `FindSpendingLimitByAPIKey` selects,
which prefers records with both wallets; billing charges the first record in the order of the store
that passes its tests, whatever its wallets.
-/

namespace TKNC.Escrow

open Consensus Lib Lib.MachineInt Lib.Numeral Wallet

/-- Whatever the number of tokens, as long as its price does not overflow, the receipt of the call
is for the given record. -/
def ChargesRecord (node : Node) (db : Database) (apiKey : Bytes) (e : SpendingLimit) : Prop :=
  ∀ tokensUsed, tokensUsed ≤ int64Max.tdiv (rateTkncPerToken node e) →
    (checkAndDeductEscrow node db apiKey tokensUsed).receipt.map (·.escrowId) = some e.escrowId

def incomplete (node : Node) (apiKey : Bytes) (kv : DbKey × SpendingLimit) : Bool :=
  chargeable node apiKey kv && (kv.2.userWallet = [] || kv.2.minerWallet = [])

variable {apiKey : Bytes} {db : Database}

theorem escrowId_receipt {node : Node} {tokensUsed : Int} {k : DbKey} {e : SpendingLimit}
    (h : Charged node db apiKey tokensUsed k e) :
    (checkAndDeductEscrow node db apiKey tokensUsed).receipt.map (·.escrowId) =
      some e.escrowId := by
  have hfits : ¬ tokensUsed > int64Max.tdiv (rateTkncPerToken node (recoverState e)) := by
    rw [rateTkncPerToken_recoverState]
    exact Int.not_lt.2 h.fits
  rw [checkAndDeductEscrow, listAllSpendingLimits, billLoop_eq, h.first]
  simp only [billEscrow, if_neg hfits, Option.map_some, escrowId_billedRecord,
    escrowId_recoverState]

/-- The receipts name the record exactly if it is the first that passes the tests. -/
theorem chargesRecord_iff_first {node : Node} {k : DbKey} {e : SpendingLimit}
    (hkeyed : KeyedById db) (hstored : (k, e) ∈ db.entries) :
    ChargesRecord node db apiKey e ↔ db.entries.find? (chargeable node apiKey) = some (k, e) := by
  constructor
  · intro hcharges
    -- a request for no token at all never overflows
    have hzero : ∀ e' : SpendingLimit, (0 : Int) ≤ int64Max.tdiv (rateTkncPerToken node e') := by
      intro e'
      have hrate := one_le_rateTkncPerToken node e'
      exact Int.tdiv_nonneg (by decide) (by omega)
    have hreceipt := hcharges 0 (hzero e)
    by_cases hany : ∃ k' e', Charged node db apiKey 0 k' e'
    · rcases hany with ⟨k', e', hcharged⟩
      rw [escrowId_receipt hcharged] at hreceipt
      have hmem := List.mem_of_find?_eq_some hcharged.first
      have hid : e'.escrowId = k.id := (Option.some.inj hreceipt).trans (hkeyed _ hstored).symm
      cases hkeyed.key_eq hmem hid
      rw [hcharged.first, OrderedMap.eq_of_key_eq hmem hstored rfl]
    · push Not at hany
      rw [checkAndDeductEscrow_refused hany] at hreceipt
      cases hreceipt
  · intro hfirst tokensUsed hfits
    exact escrowId_receipt ⟨hfirst, hfits⟩

/-! ## The selected record -/

theorem incomplete_of_before {kv selected : DbKey × SpendingLimit}
    (hselected : findEntryByAPIKey db apiKey = some selected) (hmem : kv ∈ db.entries)
    (hlt : kv.1 < selected.1) (hactive : isActiveFor apiKey kv = true) :
    kv.2.userWallet = [] ∨ kv.2.minerWallet = [] := by
  by_contra hboth
  have hfull : hasBothWallets apiKey kv = true := by
    simp only [isActiveFor, Bool.and_eq_true, decide_eq_true_eq] at hactive
    simp only [hasBothWallets, Bool.and_eq_true, decide_eq_true_eq]
    push Not at hboth
    exact ⟨⟨hactive, by simpa using hboth.1⟩, by simpa using hboth.2⟩
  simp only [findEntryByAPIKey, listAllSpendingLimits] at hselected
  split at hselected
  · rename_i first hfirst
    -- the first pass selects the first complete record, which is not after `kv`
    cases hselected
    have hnone := (OrderedMap.find?_eq_some_iff.1 hfirst).2.2 kv hmem hlt
    rw [hfull] at hnone
    cases hnone
  · rename_i hnone
    exact absurd hfull (by simpa using List.find?_eq_none.1 hnone kv hmem)

theorem isActiveFor_of_chargeable {node : Node} {kv : DbKey × SpendingLimit}
    (h : chargeable node apiKey kv = true) : isActiveFor apiKey kv = true := by
  simp only [chargeable, Bool.and_eq_true] at h
  simp only [isActiveFor, Bool.and_eq_true]
  exact h.1.1

/-- The record that admission selects is the one that billing charges exactly if no billable record
without a wallet address comes before it in the store. -/
theorem chargesSelected_iff {node : Node} {db : Database} {apiKey : Bytes} {k : DbKey}
    {e : SpendingLimit} (hkeyed : KeyedById db)
    (hselected : findEntryByAPIKey db apiKey = some (k, e)) (hactive : e.isActive = true)
    (hleft : e.isExhausted = false) (hunexpired : e.isExpired node.getTime = false) :
    ChargesRecord node db apiKey e ↔
      ∀ kv ∈ db.entries, kv.1 < k → incomplete node apiKey kv = false := by
  rcases findEntryByAPIKey_some hselected with ⟨hstored, hkey⟩
  dsimp only at hkey
  have hchargeable : chargeable node apiKey (k, e) = true := by
    simp [chargeable, hkey, hactive, hleft, hunexpired]
  rw [chargesRecord_iff_first hkeyed hstored, OrderedMap.find?_eq_some_iff]
  constructor
  · rintro ⟨_, _, hfirst⟩ kv hmem hlt
    simp [incomplete, hfirst kv hmem hlt]
  · intro hcomplete
    refine ⟨hstored, hchargeable, ?_⟩
    intro kv hmem hlt
    by_contra hpass
    rw [Bool.not_eq_false] at hpass
    have hempty := incomplete_of_before hselected hmem hlt (isActiveFor_of_chargeable hpass)
    have hnone : kv.2.userWallet ≠ [] ∧ kv.2.minerWallet ≠ [] := by
      simpa [incomplete, hpass] using hcomplete kv hmem hlt
    exact hempty.elim hnone.1 hnone.2

def minerlessRecord : SpendingLimit :=
  { escrowId := ascii "escrow_key_0"
    userWallet := ascii "user"
    apiKey := ascii "key"
    quotaTokens := 9223372036854775807
    expiresAt := 7776000 }

def twoRecordsDb : Database :=
  writeSpendingLimit unlimitedDb ⟨ascii "escrow_key_0"⟩ minerlessRecord

def laterRecordDb : Database :=
  writeSpendingLimit unlimitedDb ⟨ascii "escrow_key_2"⟩
    { minerlessRecord with escrowId := ascii "escrow_key_2" }

theorem chargesSelected_laterRecord :
    (findEntryByAPIKey laterRecordDb (ascii "key") = some (unlimitedKey, unlimitedRecord) ∧
      laterRecordDb.entries.length = 2) ∧
    ChargesRecord (payingNode [] 7) laterRecordDb (ascii "key") unlimitedRecord := by
  have hkeyed : KeyedById laterRecordDb := by
    unfold KeyedById
    decide
  have hselected : findEntryByAPIKey laterRecordDb (ascii "key") =
      some (unlimitedKey, unlimitedRecord) := by decide
  exact ⟨⟨hselected, by decide⟩, (chargesSelected_iff hkeyed hselected (by decide) (by decide)
    (by decide)).2 (by decide)⟩

theorem not_chargesSelected_twoRecords :
    findEntryByAPIKey twoRecordsDb (ascii "key") = some (unlimitedKey, unlimitedRecord) ∧
      (unlimitedRecord.isActive = true ∧ unlimitedRecord.isExhausted = false ∧
        unlimitedRecord.isExpired (payingNode [] 7).getTime = false) ∧
      (checkAndDeductEscrow (payingNode [] 7) twoRecordsDb (ascii "key") 1).receipt.map
        (·.escrowId) = some (ascii "escrow_key_0") ∧
      ¬ ChargesRecord (payingNode [] 7) twoRecordsDb (ascii "key") unlimitedRecord := by
  have hother : (checkAndDeductEscrow (payingNode [] 7) twoRecordsDb (ascii "key") 1).receipt.map
      (·.escrowId) = some (ascii "escrow_key_0") := by decide
  refine ⟨by decide, by decide, hother, ?_⟩
  intro hcharges
  rw [hcharges 1 (by decide)] at hother
  exact absurd hother (by decide)

end TKNC.Escrow
