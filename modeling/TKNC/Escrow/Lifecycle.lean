import TKNC.Escrow.Admission
import TKNC.Escrow.Payer
import TKNC.Escrow.PaymentBook
import TKNC.Lib.EventMachine

/-!
# Lifecycle — every writer of a stored record

Six calls write escrow records: three RPCs of the owner, the charge and the admission of a request,
and the merge of a peer's copy.  `ownCall_effect` says what the calls that know nothing of peers can
do to one record; the merge and the creation are stated on their own.  From this follow two laws
over runs, that an ended record stays ended and that a prepaid record is spent down to its total,
each with the exact class of runs in which it holds.
-/

namespace TKNC.Escrow.Lifecycle

open Consensus Lib Lib.EventMachine Lib.MachineInt Lib.Numeral Wallet OrderedMap Option

/-! ## Calls of the owner -/

def newRecord (args : CreateEscrowArgs) : Except String SpendingLimit :=
  if moneyRange args.amount then createescrow args else .error "Amount out of range"

def suspendescrow (db : Database) (escrowId : Bytes) : Except String Database :=
  match readSpendingLimit db ⟨escrowId⟩ with
  | none => .error "Escrow not found"
  | some escrow =>
      if escrow.state ≠ .created ∧ escrow.state ≠ .active then
        .error "Escrow is not in an active state"
      else
        .ok (writeSpendingLimit db ⟨escrowId⟩ { escrow with state := .suspended })

def closeescrow (db : Database) (escrowId : Bytes) (now : Int) : Except String Database :=
  match readSpendingLimit db ⟨escrowId⟩ with
  | none => .error "Escrow not found"
  | some escrow =>
      if escrow.isExpired now = false then
        .error "Escrow has not expired yet"
      else if escrow.state = .closed then
        .error "Escrow is already closed"
      else
        .ok (writeSpendingLimit db ⟨escrowId⟩ { escrow with state := .closed })

/-! ## Runs -/

inductive OwnCall where
  | checkAndDeduct (node : Node) (apiKey : Bytes) (tokensUsed : Int)
  | canAfford (node : Node) (apiKey : Bytes)
  | suspend (escrowId : Bytes)
  | close (escrowId : Bytes) (now : Int)

inductive Operation where
  | create (args : CreateEscrowArgs)
  | own (call : OwnCall)
  | sync (escrow : SpendingLimit)

def OwnCall.apply (db : Database) : OwnCall → Database
  | .checkAndDeduct node apiKey tokensUsed =>
      (checkAndDeductEscrow node db apiKey tokensUsed).db
  | .canAfford node apiKey => (canAffordInference node db apiKey).2
  | .suspend escrowId => (suspendescrow db escrowId).toOption.getD db
  | .close escrowId now => (closeescrow db escrowId now).toOption.getD db

def step (db : Database) : Operation → Database
  | .create args =>
      match newRecord args with
      | .ok e => writeSpendingLimit db ⟨e.escrowId⟩ e
      | .error _ => db
  | .own call => call.apply db
  | .sync escrow => (writeSpendingLimitFromP2P db escrow).2

/-! ## What a call does to one record -/

/-- What the record `e` can become by a call that knows nothing of peers. -/
inductive Effect (e : SpendingLimit) : SpendingLimit → Prop where
  | same : Effect e e
  | billed {node : Node} {db : Database} {apiKey : Bytes} {tokensUsed : Int} {k : DbKey}
      (h : Charged node db apiKey tokensUsed k e) :
      Effect e (billedRecord node (recoverState e) tokensUsed)
  | settled (confirmed : Int) (pending : Bytes) :
      Effect e { e with confirmedTknc := confirmed, pendingTxids := pending }
  | suspended (h : e.state = .created ∨ e.state = .active) :
      Effect e { e with state := .suspended }
  | closed : Effect e { e with state := .closed }

variable {db : Database} {k : DbKey} {e : SpendingLimit}

variable {e' : SpendingLimit}

theorem get?_write (hget : db.get? k = some e) {k' : DbKey} (heffect : k = k' → Effect e e') :
    ∃ e₁, (writeSpendingLimit db k' e').get? k = some e₁ ∧ Effect e e₁ := by
  by_cases hkey : k = k'
  · subst hkey
    exact ⟨e', get?_insert_self _ _ _, heffect rfl⟩
  · exact ⟨e, (get?_insert_of_ne hkey).trans hget, .same⟩

/-- The write-back of an admission settles transfers of a record and does nothing else. -/
theorem writeBack_effect (hget : db.get? k = some e) (escrow : SpendingLimit)
    (oldPending : Bytes) :
    ∃ e', (writeBack db escrow oldPending).get? k = some e' ∧ Effect e e' := by
  unfold writeBack
  split
  · split
    · rename_i k' stored hfind
      apply get?_write hget
      rintro rfl
      have hstored := get?_eq_some_iff.2 (List.mem_of_find?_eq_some hfind)
      cases some.inj (hget.symm.trans hstored)
      exact .settled _ _
    · exact ⟨e, hget, .same⟩
  · exact ⟨e, hget, .same⟩

theorem canAfford_effect (hget : db.get? k = some e) (node : Node) (apiKey : Bytes) :
    ∃ e', (canAffordInference node db apiKey).2.get? k = some e' ∧ Effect e e' := by
  unfold canAffordInference
  split
  · exact ⟨e, hget, .same⟩
  · simp only [checks_db]
    exact writeBack_effect hget _ _

theorem suspend_effect (hget : db.get? k = some e) (escrowId : Bytes) :
    ∃ e', ((suspendescrow db escrowId).toOption.getD db).get? k = some e' ∧ Effect e e' := by
  unfold suspendescrow
  split
  · exact ⟨e, hget, .same⟩
  · rename_i stored hread
    split
    · exact ⟨e, hget, .same⟩
    · rename_i hactive
      apply get?_write hget
      rintro rfl
      cases some.inj (hget.symm.trans hread)
      exact .suspended (by tauto)

theorem close_effect (hget : db.get? k = some e) (escrowId : Bytes) (now : Int) :
    ∃ e', ((closeescrow db escrowId now).toOption.getD db).get? k = some e' ∧ Effect e e' := by
  unfold closeescrow
  split
  · exact ⟨e, hget, .same⟩
  · rename_i stored hread
    split
    · exact ⟨e, hget, .same⟩
    · split
      · exact ⟨e, hget, .same⟩
      · apply get?_write hget
        rintro rfl
        cases some.inj (hget.symm.trans hread)
        exact .closed

/-- Every call that knows nothing of peers keeps a stored record, up to one of the effects. -/
theorem ownCall_effect (hget : db.get? k = some e) (call : OwnCall) :
    ∃ e', (call.apply db).get? k = some e' ∧ Effect e e' := by
  cases call with
  | checkAndDeduct node apiKey tokensUsed =>
    by_cases hcharged : Charged node db apiKey tokensUsed k e
    · exact ⟨_, hcharged.get?_billed, .billed hcharged⟩
    · exact ⟨e, get?_of_not_charged hget hcharged, .same⟩
  | canAfford node apiKey => exact canAfford_effect hget node apiKey
  | suspend escrowId => exact suspend_effect hget escrowId
  | close escrowId now => exact close_effect hget escrowId now

/-- What the new record says. -/
structure Created (args : CreateEscrowArgs) (e : SpendingLimit) : Prop where
  range : 0 ≤ args.amount ∧ args.amount ≤ maxMoney
  rate : 0 < args.rateTokensPerTknc
  state : e.state = .created
  total : e.totalTknc = args.amount
  consumed : e.consumedTknc = 0
  limit : e.spendingLimit = args.amount
  used : e.usedTokens = 0
  quota : args.amount ≠ 0 →
    e.quotaTokens = (i64 (args.amount * args.rateTokensPerTknc)).tdiv coin
  price : e.rateTkncPerToken = snapshotRate args.rateTokensPerTknc
  miner : e.minerWallet = args.minerWallet

variable {args : CreateEscrowArgs}

theorem created_of_newRecord (h : newRecord args = .ok e) :
    Created args e := by
  unfold newRecord at h
  split at h
  · rename_i hrange
    unfold createescrow at h
    split at h
    · cases h
    · split at h
      · cases h
      · rename_i hrate
        cases h
        exact
          { range := by simpa [moneyRange] using hrange
            rate := Int.not_le.1 hrate
            state := rfl
            total := rfl
            consumed := rfl
            limit := rfl
            used := rfl
            quota := fun hamount => if_neg hamount
            price := rfl
            miner := rfl }
  · cases h

theorem step_create_error {message : String} (db : Database) (h : newRecord args = .error message) :
    step db (.create args) = db := by
  simp only [step, h]

/-- A creation that succeeds writes under its own id, whatever is stored there. -/
theorem get?_create (db : Database) (k : DbKey) (h : newRecord args = .ok e) :
    (step db (.create args)).get? k = if k.id = e.escrowId then some e else db.get? k := by
  rcases k with ⟨id⟩
  simp only [step, h, writeSpendingLimit, get?_insert, DbKey.mk.injEq]

/-- The message of a peer is taken and is about the record under `k`. -/
def Concerns (k : DbKey) (escrow : SpendingLimit) : Prop :=
  escrow.escrowId = k.id ∧ escrow.escrowId ≠ [] ∧ escrow.apiKey ≠ []

instance (k : DbKey) (escrow : SpendingLimit) : Decidable (Concerns k escrow) := by
  unfold Concerns
  infer_instance

theorem get?_sync (hget : db.get? k = some e) (escrow : SpendingLimit) :
    (step db (.sync escrow)).get? k =
      some (if Concerns k escrow then mergeFromPeer e escrow else e) := by
  have hkey : (⟨escrow.escrowId⟩ : DbKey) = k ↔ escrow.escrowId = k.id := by
    rcases k with ⟨id⟩
    exact DbKey.mk.injEq _ _ ▸ Iff.rfl
  simp only [step, writeSpendingLimitFromP2P]
  by_cases hempty : escrow.escrowId = [] ∨ escrow.apiKey = []
  · rw [if_pos hempty, if_neg (fun h => hempty.elim h.2.1 h.2.2), hget]
  · rw [if_neg hempty]
    push Not at hempty
    by_cases hid : escrow.escrowId = k.id
    · rw [if_pos ⟨hid, hempty⟩, hkey.2 hid]
      simp only [readSpendingLimit, hget]
      split
      · rename_i hsame
        rw [hget, hsame]
      · exact get?_insert_self _ _ _
    · -- the record of another id is written, or none
      have hne : k ≠ ⟨escrow.escrowId⟩ := fun h => hid (hkey.1 h.symm)
      rw [if_neg (fun h => hid h.1)]
      split
      · dsimp only
        split
        · exact hget
        · exact (get?_insert_of_ne hne).trans hget
      · exact (get?_insert_of_ne hne).trans hget

/-! ## Ended records -/

/-- The record under `k` is stored in a state in which nothing is charged. -/
def Ended (k : DbKey) (db : Database) : Prop :=
  ∃ e, db.get? k = some e ∧ e.isActive = false

/-- A charge does not increase what the record under `k` has consumed. -/
def Uncharged (k : DbKey) (db : Database) : Operation → Prop
  | .own (.checkAndDeduct node apiKey tokensUsed) =>
      ∀ e e', db.get? k = some e →
        (checkAndDeductEscrow node db apiKey tokensUsed).db.get? k = some e' →
        e'.consumedTknc ≤ e.consumedTknc
  | _ => True

/-- Throughout the run the record under `k` is in none of the states CREATED, ACTIVE and
PAYMENT_PENDING, and no charge increases its consumption. -/
structure StaysEnded (k : DbKey) (db : Database) (ops : List Operation) : Prop where
  ended : Always step (Ended k) db ops
  uncharged : GoodRun step (Uncharged k) db ops

/-- The operation neither creates a record under the id of `k` nor brings a peer's copy of it in
one of the three states. -/
def KeepsEnded (k : DbKey) : Operation → Prop
  | .create args => ∀ e, newRecord args = .ok e → e.escrowId ≠ k.id
  | .own _ => True
  | .sync escrow => Concerns k escrow → escrow.isActive = false

theorem Effect.isActive (h : Effect e e') (hended : e.isActive = false) :
    e'.isActive = false := by
  cases h with
  | same => exact hended
  | billed hcharged =>
    rw [hcharged.isActive] at hended
    cases hended
  | settled confirmed pending => exact hended
  | suspended hstate => rfl
  | closed => rfl

theorem ended_step_iff (hended : Ended k db) (op : Operation) :
    Ended k (step db op) ↔ KeepsEnded k op := by
  rcases hended with ⟨e, hget, hstate⟩
  cases op with
  | create args =>
    cases hnew : newRecord args with
    | error message =>
      rw [step_create_error db hnew]
      refine iff_of_true ⟨e, hget, hstate⟩ ?_
      intro e' hok
      rw [hnew] at hok
      cases hok
    | ok e' =>
      have hkeeps : KeepsEnded k (.create args) ↔ e'.escrowId ≠ k.id := by
        simp only [KeepsEnded, hnew, Except.ok.injEq, forall_eq']
      rw [hkeeps, Ended, get?_create db k hnew]
      by_cases hid : k.id = e'.escrowId
      · rw [if_pos hid]
        refine iff_of_false ?_ (fun hne => hne hid.symm)
        rintro ⟨e₁, hsame, hended⟩
        cases hsame
        simp [SpendingLimit.isActive, (created_of_newRecord hnew).state] at hended
      · rw [if_neg hid]
        exact iff_of_true ⟨e, hget, hstate⟩ (Ne.symm hid)
  | own call =>
    rcases ownCall_effect hget call with ⟨e', hget', heffect⟩
    exact iff_of_true ⟨e', hget', heffect.isActive hstate⟩ trivial
  | sync escrow =>
    simp only [Ended, get?_sync hget, some.injEq, exists_eq_left', KeepsEnded]
    by_cases hconcerns : Concerns k escrow
    · -- the state of the copy is taken as it is
      rw [if_pos hconcerns]
      exact ⟨fun h _ => h, fun h => h hconcerns⟩
    · rw [if_neg hconcerns]
      exact iff_of_true hstate (fun h => absurd h hconcerns)

theorem Ended.uncharged (hended : Ended k db) (op : Operation) : Uncharged k db op := by
  rcases hended with ⟨e, hget, hstate⟩
  cases op with
  | create args => trivial
  | sync escrow => trivial
  | own call =>
    cases call with
    | checkAndDeduct node apiKey tokensUsed =>
      intro e₁ e₂ hget₁ hget₂
      cases some.inj (hget.symm.trans hget₁)
      have hnot : ¬ Charged node db apiKey tokensUsed k e := by
        intro hcharged
        rw [hcharged.isActive] at hstate
        cases hstate
      cases some.inj ((get?_of_not_charged hget hnot).symm.trans hget₂)
      exact Int.le_refl _
    | canAfford node apiKey => trivial
    | suspend escrowId => trivial
    | close escrowId now => trivial

theorem staysEnded_iff (hget : db.get? k = some e)
    (hended : e.state = .closed ∨ e.state = .exhausted) (ops : List Operation) :
    StaysEnded k db ops ↔ ∀ op ∈ ops, KeepsEnded k op := by
  have hstart : Ended k db := by
    refine ⟨e, hget, ?_⟩
    rcases hended with hstate | hstate
    · simp [SpendingLimit.isActive, hstate]
    · simp [SpendingLimit.isActive, hstate]
  have halways : Always step (Ended k) db ops ↔ ∀ op ∈ ops, KeepsEnded k op := by
    rw [← goodRun_iff_forall_mem step db ops]
    exact always_iff_goodRun (fun _ _ _ => trivial)
      (fun _ op (_ : True) hended => ended_step_iff hended op) trivial hstart
  constructor
  · intro h
    exact halways.1 h.ended
  · intro hkeeps
    -- while the record is ended no charge reaches it
    have hrun := (goodRun_iff_forall_mem step db ops).2 hkeeps
    refine ⟨halways.2 hkeeps, hrun.mono ?_ ?_ hstart⟩
    · exact fun _ op hended hkeep => (ended_step_iff hended op).2 hkeep
    · exact fun _ op hended _ => hended.uncharged op

def prepaidArgs : CreateEscrowArgs :=
  { unlimitedArgs with amount := coin }

def prepaidRecord : SpendingLimit :=
  { unlimitedRecord with
    totalTknc := coin
    spendingLimit := coin
    quotaTokens := 1 }

def exhaustingRun : List Operation :=
  [.create prepaidArgs, .own (.checkAndDeduct (payingNode [] 7) (ascii "key") 1)]

def closedDb : Database :=
  writeSpendingLimit OrderedMap.empty unlimitedKey { unlimitedRecord with state := .closed }

theorem staysEnded_iff_closed :
    closedDb.get? unlimitedKey = some { unlimitedRecord with state := .closed } ∧
      (StaysEnded unlimitedKey closedDb exhaustingRun ↔
        ∀ op ∈ exhaustingRun, KeepsEnded unlimitedKey op) := by
  have hget : closedDb.get? unlimitedKey = some { unlimitedRecord with state := .closed } := by
    decide
  exact ⟨hget, staysEnded_iff hget (Or.inl rfl) exhaustingRun⟩

/-- A peer that saw the creation but not the charge sends its copy. -/
theorem not_staysEnded_staleCopy :
    ((run step OrderedMap.empty exhaustingRun).get? unlimitedKey).map (·.state) =
        some .exhausted ∧
      newRecord prepaidArgs = .ok prepaidRecord ∧
      ¬ StaysEnded unlimitedKey (run step OrderedMap.empty exhaustingRun)
        [.sync prepaidRecord] := by
  have hactive : ((run step empty (exhaustingRun ++ [.sync prepaidRecord])).get?
      unlimitedKey).map (·.isActive) = some true := by decide +kernel
  refine ⟨by decide +kernel, by rfl, ?_⟩
  intro hstays
  rcases hstays.ended.last with ⟨e, hget, hended⟩
  have hsame : (run step empty (exhaustingRun ++ [.sync prepaidRecord])).get?
      unlimitedKey = some e := hget
  rw [hsame, Option.map_some, hended] at hactive
  cases hactive

/-! ## Prepaid records -/

/-- The three amounts of a prepaid record describe one balance. -/
structure Balanced (e : SpendingLimit) : Prop where
  nonneg : 0 ≤ e.consumedTknc
  capped : e.consumedTknc ≤ e.totalTknc
  limit : e.spendingLimit = e.totalTknc - e.consumedTknc

def PrepaidBalanced (k : DbKey) (db : Database) : Prop :=
  ∃ e, db.get? k = some e ∧ (0 < e.totalTknc → Balanced e)

/-- A record is stored under `k`, with a total that fits its register. -/
def TotalFits (k : DbKey) (db : Database) : Prop :=
  ∃ e, db.get? k = some e ∧ e.totalTknc ≤ int64Max

/-- A peer's copy of a prepaid record reports no more consumption than is stored. -/
def NoPeerConsumption (k : DbKey) (db : Database) : Operation → Prop
  | .sync escrow => Concerns k escrow → ∀ e, db.get? k = some e → 0 < e.totalTknc →
      escrow.consumedTknc ≤ e.consumedTknc
  | _ => True

theorem Effect.total (h : Effect e e') : e'.totalTknc = e.totalTknc := by
  cases h with
  | same => rfl
  | billed hcharged => rw [totalTknc_billedRecord, totalTknc_recoverState]
  | settled confirmed pending => rfl
  | suspended hstate => rfl
  | closed => rfl

/-- A charge takes at most what is left, and the limit field follows the consumption. -/
theorem Balanced.billed {node : Node} {tokensUsed : Int} (h : Balanced e)
    (hfits : e.totalTknc ≤ int64Max) (hprepaid : 0 < e.totalTknc)
    (hleft : e.isExhausted = false) :
    Balanced (billedRecord node (recoverState e) tokensUsed) := by
  have htotal : e.totalTknc ≠ 0 := by omega
  have hcost := cost_limited (rateTkncPerToken node e) tokensUsed htotal hfits h.nonneg hleft
  have hnonneg := h.nonneg
  simp only [int64Max] at hfits
  have hconsumed : (billedRecord node (recoverState e) tokensUsed).consumedTknc =
      e.consumedTknc + (chargeFor e (rateTkncPerToken node e) tokensUsed).cost := by
    rw [consumedTknc_billedRecord]
    exact consumedTknc_charged_recovered (fits64_iff.2 (by omega))
  refine ⟨?_, ?_, ?_⟩
  · omega
  · rw [totalTknc_billedRecord, totalTknc_recoverState]
    omega
  · rw [spendingLimit_billedRecord, totalTknc_billedRecord, totalTknc_recoverState,
      if_neg htotal]
    exact i64_of_fits (fits64_iff.2 (by omega))

theorem Effect.balanced (h : Effect e e') (hfits : e.totalTknc ≤ int64Max)
    (hbalanced : 0 < e.totalTknc → Balanced e) (hprepaid : 0 < e'.totalTknc) : Balanced e' := by
  rw [h.total] at hprepaid
  have hold := hbalanced hprepaid
  cases h with
  | same => exact hold
  | billed hcharged => exact hold.billed hfits hprepaid hcharged.not_exhausted
  | settled confirmed pending => exact ⟨hold.nonneg, hold.capped, hold.limit⟩
  | suspended hstate => exact ⟨hold.nonneg, hold.capped, hold.limit⟩
  | closed => exact ⟨hold.nonneg, hold.capped, hold.limit⟩

/-- A merge leaves the limit field as it is, so it must leave the consumption too. -/
theorem balanced_merge_iff (h : Balanced e) (escrow : SpendingLimit) :
    Balanced (mergeFromPeer e escrow) ↔ escrow.consumedTknc ≤ e.consumedTknc := by
  have hmerged : (mergeFromPeer e escrow).consumedTknc =
      if escrow.consumedTknc > e.consumedTknc then escrow.consumedTknc
      else e.consumedTknc := rfl
  constructor
  · intro hbalanced
    have hlimit := hbalanced.limit
    change e.spendingLimit = e.totalTknc - (mergeFromPeer e escrow).consumedTknc at hlimit
    rw [h.limit, hmerged] at hlimit
    split at hlimit <;> omega
  · intro hle
    have hsame : (mergeFromPeer e escrow).consumedTknc = e.consumedTknc := by
      rw [hmerged, if_neg (Int.not_lt.2 hle)]
    refine ⟨?_, ?_, ?_⟩
    · rw [hsame]
      exact h.nonneg
    · rw [hsame]
      exact h.capped
    · rw [hsame]
      exact h.limit

theorem Created.balanced (h : Created args e) : Balanced e := by
  have hrange := h.range
  exact
    { nonneg := by rw [h.consumed]
      capped := by rw [h.consumed, h.total]; exact hrange.1
      limit := by rw [h.limit, h.total, h.consumed, Int.sub_zero] }

theorem Created.fits (h : Created args e) : e.totalTknc ≤ int64Max := by
  have hrange := h.range
  rw [h.total]
  simp only [maxMoney_eq, int64Max] at hrange ⊢
  omega

theorem totalFits_step (hfits : TotalFits k db) (op : Operation) : TotalFits k (step db op) := by
  rcases hfits with ⟨e, hget, hle⟩
  cases op with
  | create args =>
    cases hnew : newRecord args with
    | error message =>
      rw [step_create_error db hnew]
      exact ⟨e, hget, hle⟩
    | ok e' =>
      rw [TotalFits, get?_create db k hnew]
      split
      · exact ⟨e', rfl, (created_of_newRecord hnew).fits⟩
      · exact ⟨e, hget, hle⟩
  | own call =>
    rcases ownCall_effect hget call with ⟨e', hget', heffect⟩
    exact ⟨e', hget', heffect.total ▸ hle⟩
  | sync escrow =>
    refine ⟨_, get?_sync hget escrow, ?_⟩
    split
    · exact hle
    · exact hle

theorem prepaidBalanced_step_iff (hfits : TotalFits k db) (hprepaid : PrepaidBalanced k db)
    (op : Operation) : PrepaidBalanced k (step db op) ↔ NoPeerConsumption k db op := by
  rcases hprepaid with ⟨e, hget, hbalanced⟩
  rcases hfits with ⟨e₁, hget₁, hle⟩
  cases some.inj (hget.symm.trans hget₁)
  cases op with
  | create args =>
    refine iff_of_true ?_ trivial
    cases hnew : newRecord args with
    | error message =>
      rw [step_create_error db hnew]
      exact ⟨e, hget, hbalanced⟩
    | ok e' =>
      rw [PrepaidBalanced, get?_create db k hnew]
      split
      · exact ⟨e', rfl, fun _ => (created_of_newRecord hnew).balanced⟩
      · exact ⟨e, hget, hbalanced⟩
  | own call =>
    rcases ownCall_effect hget call with ⟨e', hget', heffect⟩
    exact iff_of_true ⟨e', hget', heffect.balanced hle hbalanced⟩ trivial
  | sync escrow =>
    simp only [PrepaidBalanced, get?_sync hget, some.injEq, exists_eq_left',
      NoPeerConsumption, hget, forall_eq']
    by_cases hconcerns : Concerns k escrow
    · simp only [true_implies, hconcerns]
      constructor
      · intro h hpos
        exact (balanced_merge_iff (hbalanced hpos) escrow).1 (h hpos)
      · intro h hpos
        exact (balanced_merge_iff (hbalanced hpos) escrow).2 (h hpos)
    · rw [if_neg hconcerns]
      exact iff_of_true hbalanced (fun h => absurd h hconcerns)

theorem prepaidBalanced_iff {args : CreateEscrowArgs} (db : Database)
    (hnew : newRecord args = .ok e) (ops : List Operation) :
    Always step (PrepaidBalanced ⟨e.escrowId⟩) (step db (.create args)) ops ↔
      GoodRun step (NoPeerConsumption ⟨e.escrowId⟩) (step db (.create args)) ops := by
  have hcreated := created_of_newRecord hnew
  have hget : (step db (.create args)).get? ⟨e.escrowId⟩ = some e := by
    rw [get?_create db _ hnew, if_pos rfl]
  apply always_iff_goodRun (fun _ op hfits => totalFits_step hfits op)
    (fun _ op hfits hprepaid => prepaidBalanced_step_iff hfits hprepaid op)
  · exact ⟨e, hget, hcreated.fits⟩
  · exact ⟨e, hget, fun _ => hcreated.balanced⟩

def overspentCopy : SpendingLimit :=
  { prepaidRecord with consumedTknc := 2 * coin }

theorem prepaidBalanced_iff_prepaid :
    newRecord prepaidArgs = .ok prepaidRecord ∧
      (Always step (PrepaidBalanced unlimitedKey) (step OrderedMap.empty (.create prepaidArgs))
          exhaustingRun ↔
        GoodRun step (NoPeerConsumption unlimitedKey)
          (step OrderedMap.empty (.create prepaidArgs)) exhaustingRun) := by
  have hnew : newRecord prepaidArgs = .ok prepaidRecord := by rfl
  exact ⟨hnew, prepaidBalanced_iff empty hnew exhaustingRun⟩

theorem not_prepaidBalanced_overspentCopy :
    newRecord prepaidArgs = .ok prepaidRecord ∧
      ¬ Always step (PrepaidBalanced unlimitedKey) (step OrderedMap.empty (.create prepaidArgs))
        [.sync overspentCopy] := by
  have hmerged : ((run step empty [.create prepaidArgs, .sync overspentCopy]).get?
      unlimitedKey).map (fun e => (e.totalTknc, e.consumedTknc)) =
        some (100000000, 200000000) := by decide +kernel
  refine ⟨by rfl, ?_⟩
  intro halways
  rcases halways.last with ⟨e, hget, hbalanced⟩
  have hsame : (run step empty [.create prepaidArgs, .sync overspentCopy]).get?
      unlimitedKey = some e := hget
  rw [hsame, Option.map_some, Option.some.injEq, Prod.mk.injEq] at hmerged
  have hcapped := (hbalanced (by omega)).capped
  omega

end TKNC.Escrow.Lifecycle
