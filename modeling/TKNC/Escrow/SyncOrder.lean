import TKNC.Escrow.PaymentBook
import TKNC.Lib.Replay

/-!
# SyncOrder — copies of a record in any order of delivery

The network delivers the copies of a record in any order and may repeat them.  Four fields of the
stored record are merged by maximum.  The pending list and the state are taken from the last copy,
so the stored record depends on the order unless the copies agree on them.
-/

namespace TKNC.Escrow

open Lib Lib.Numeral Lib.Replay

def receiveSync (db : Database) (escrow : SpendingLimit) : Database :=
  (writeSpendingLimitFromP2P db escrow).2

def receiveAll (db : Database) (messages : List SpendingLimit) : Database :=
  messages.foldl receiveSync db

/-- The message is not dropped for a missing id or key. -/
def Accepted (escrow : SpendingLimit) : Prop :=
  escrow.escrowId ≠ [] ∧ escrow.apiKey ≠ []

instance (escrow : SpendingLimit) : Decidable (Accepted escrow) := by
  unfold Accepted
  infer_instance

/-- Whatever the order and the repetitions, the messages leave the same record under `k`, and one
that was delivered already changes nothing. -/
def OrderIndependent (k : DbKey) (db : Database) (messages : List SpendingLimit) : Prop :=
  ∀ l, (∀ m, m ∈ l ↔ m ∈ messages) →
    (receiveAll db l).get? k = (receiveAll db messages).get? k ∧
      ∀ m ∈ l, (receiveAll db (l ++ [m])).get? k = (receiveAll db l).get? k

/-- The accepted messages name one state, and at most one pending list. -/
structure Agree (messages : List SpendingLimit) : Prop where
  state : ∀ m ∈ messages, ∀ m' ∈ messages, Accepted m → Accepted m' → m.state = m'.state
  pending : ∀ m ∈ messages, ∀ m' ∈ messages, Accepted m → Accepted m' →
    m.pendingTxids ≠ [] → m'.pendingTxids ≠ [] → m.pendingTxids = m'.pendingTxids

def syncRecord (e m : SpendingLimit) : SpendingLimit :=
  if Accepted m then mergeFromPeer e m else e

theorem get?_receiveSync {db : Database} {k : DbKey} {e m : SpendingLimit}
    (hget : db.get? k = some e) (hid : m.escrowId = k.id) :
    (receiveSync db m).get? k = some (syncRecord e m) := by
  have hkey : (⟨m.escrowId⟩ : DbKey) = k := by
    rw [hid]
  unfold receiveSync writeSpendingLimitFromP2P
  split
  · rename_i hdropped
    have hnot : ¬ Accepted m := fun ha => hdropped.elim ha.1 ha.2
    rw [syncRecord, if_neg hnot]
    exact hget
  · rename_i haccepted
    rw [not_or] at haccepted
    rw [syncRecord, if_pos (show Accepted m from haccepted), hkey, readSpendingLimit, hget]
    dsimp only
    split
    · rename_i hsame
      rw [hsame]
      exact hget
    · exact OrderedMap.get?_insert_self _ _ _

variable {messages : List SpendingLimit}

theorem get?_receiveAll {db : Database} {k : DbKey} {e : SpendingLimit} (hget : db.get? k = some e)
    (hid : ∀ m ∈ messages, m.escrowId = k.id) :
    (receiveAll db messages).get? k = some (messages.foldl syncRecord e) := by
  induction messages generalizing db e with
  | nil => exact hget
  | cons m messages ih =>
    exact ih (get?_receiveSync hget (hid m List.mem_cons_self))
      fun m' hm' => hid m' (List.mem_cons_of_mem _ hm')

/-! ## Merging copies that agree -/

theorem mergeFromPeer_eq (e m : SpendingLimit) :
    mergeFromPeer e m =
      { e with
        transferredTknc := max e.transferredTknc m.transferredTknc
        consumedTknc := max e.consumedTknc m.consumedTknc
        confirmedTknc := max e.confirmedTknc m.confirmedTknc
        pendingTxids := if m.pendingTxids ≠ [] then m.pendingTxids else e.pendingTxids
        state := m.state
        lastActivity := max e.lastActivity m.lastActivity } := by
  have hmax : ∀ a b : Int, (if b > a then b else a) = max a b := by
    intro a b
    omega
  have hpending :
      (if m.pendingTxids ≠ e.pendingTxids ∧ m.pendingTxids ≠ [] then m.pendingTxids
        else e.pendingTxids) =
      if m.pendingTxids ≠ [] then m.pendingTxids else e.pendingTxids := by
    by_cases hsame : m.pendingTxids = e.pendingTxids <;> simp [hsame]
  rw [mergeFromPeer, hmax, hmax, hmax, hmax, hpending]

theorem mergeFromPeer_idem (e m : SpendingLimit) :
    mergeFromPeer (mergeFromPeer e m) m = mergeFromPeer e m := by
  have hpending : (if m.pendingTxids ≠ [] then m.pendingTxids
        else if m.pendingTxids ≠ [] then m.pendingTxids else e.pendingTxids) =
      if m.pendingTxids ≠ [] then m.pendingTxids else e.pendingTxids := by
    split <;> rfl
  simp only [mergeFromPeer_eq, max_assoc, max_self, hpending]

theorem mergeFromPeer_comm (e : SpendingLimit) {m m' : SpendingLimit} (hstate : m.state = m'.state)
    (hpending : m.pendingTxids ≠ [] → m'.pendingTxids ≠ [] → m.pendingTxids = m'.pendingTxids) :
    mergeFromPeer (mergeFromPeer e m) m' = mergeFromPeer (mergeFromPeer e m') m := by
  have hlist : (if m'.pendingTxids ≠ [] then m'.pendingTxids
        else if m.pendingTxids ≠ [] then m.pendingTxids else e.pendingTxids) =
      if m.pendingTxids ≠ [] then m.pendingTxids
        else if m'.pendingTxids ≠ [] then m'.pendingTxids else e.pendingTxids := by
    by_cases h : m.pendingTxids = [] <;> by_cases h' : m'.pendingTxids = []
    · simp [h, h']
    · simp [h, h']
    · simp [h, h']
    · simp [h', hpending h h']
  simp only [mergeFromPeer_eq, hlist, hstate, max_right_comm]

theorem mergeable_syncRecord (h : Agree messages) :
    Mergeable syncRecord (· ∈ messages) := by
  constructor
  · intro e m m' hm hm'
    by_cases ha : Accepted m <;> by_cases ha' : Accepted m' <;>
      simp only [syncRecord, ha, ha', if_true, if_false]
    exact mergeFromPeer_comm e (h.state m hm m' hm' ha ha') (h.pending m hm m' hm' ha ha')
  · intro e m _
    by_cases ha : Accepted m <;> simp only [syncRecord, ha, if_true, if_false]
    exact mergeFromPeer_idem e m

/-! ## The equivalence -/

/-- The copy that comes last decides on the state and, if it has a pending list, on that. -/
theorem foldl_append_syncRecord {m : SpendingLimit} (ha : Accepted m) (e : SpendingLimit) :
    ((messages ++ [m]).foldl syncRecord e).state = m.state ∧
      (m.pendingTxids ≠ [] →
        ((messages ++ [m]).foldl syncRecord e).pendingTxids = m.pendingTxids) := by
  rw [List.foldl_append, List.foldl_cons, List.foldl_nil, syncRecord, if_pos ha, mergeFromPeer_eq]
  exact ⟨rfl, fun hpending => if_pos hpending⟩

theorem orderIndependent_iff {k : DbKey} {db : Database} {e : SpendingLimit}
    {messages : List SpendingLimit} (hget : db.get? k = some e)
    (hid : ∀ m ∈ messages, m.escrowId = k.id) :
    OrderIndependent k db messages ↔ Agree messages := by
  constructor
  · intro h
    -- one more delivery of a message, at the end, must not matter
    have hlast : ∀ m ∈ messages, (messages ++ [m]).foldl syncRecord e =
        messages.foldl syncRecord e := by
      intro m hm
      have hagain := (h messages fun _ => Iff.rfl).2 m hm
      rw [get?_receiveAll hget hid, get?_receiveAll hget] at hagain
      · exact Option.some.inj hagain
      · intro m' hm'
        rcases List.mem_append.1 hm' with hm' | hm'
        · exact hid m' hm'
        · exact List.mem_singleton.1 hm' ▸ hid m hm
    constructor
    · intro m hm m' hm' ha ha'
      rw [← (foldl_append_syncRecord ha e).1, ← (foldl_append_syncRecord ha' e).1, hlast m hm,
        hlast m' hm']
    · intro m hm m' hm' ha ha' hne hne'
      rw [← (foldl_append_syncRecord ha e).2 hne, ← (foldl_append_syncRecord ha' e).2 hne',
        hlast m hm, hlast m' hm']
  · intro h l hl
    have hmerge := mergeable_syncRecord h
    have hmem : ∀ m ∈ l, m ∈ messages := fun m hm => (hl m).1 hm
    have hidl : ∀ m ∈ l, m.escrowId = k.id := fun m hm => hid m (hmem m hm)
    refine ⟨?_, ?_⟩
    · rw [get?_receiveAll hget hidl, get?_receiveAll hget hid,
        hmerge.foldl_eq_of_mem_iff hmem hl e]
    · intro m hm
      have hstored := get?_receiveAll hget hidl
      rw [receiveAll, List.foldl_append, List.foldl_cons, List.foldl_nil, ← receiveAll,
        get?_receiveSync hstored (hidl m hm), hmerge.absorb hmem hm, hstored]

def closingCopies : List SpendingLimit :=
  [{ unlimitedRecord with state := .active }, { unlimitedRecord with state := .closed }]

theorem orderIndependent_iff_closing :
    (unlimitedDb.get? unlimitedKey = some unlimitedRecord ∧
      ∀ m ∈ closingCopies, m.escrowId = unlimitedKey.id) ∧
    (OrderIndependent unlimitedKey unlimitedDb closingCopies ↔ Agree closingCopies) :=
  have hget : unlimitedDb.get? unlimitedKey = some unlimitedRecord := by decide
  ⟨⟨hget, by decide⟩, orderIndependent_iff hget (by decide)⟩

/-- The older copy reopens the closed record when it comes last. -/
theorem not_orderIndependent_closing :
    ((receiveAll unlimitedDb closingCopies).get? unlimitedKey).map (·.state) = some .closed ∧
      ((receiveAll unlimitedDb closingCopies.reverse).get? unlimitedKey).map (·.state) =
        some .active ∧
      ¬ OrderIndependent unlimitedKey unlimitedDb closingCopies := by
  have hclosed : ((receiveAll unlimitedDb closingCopies).get? unlimitedKey).map (·.state) =
      some .closed := by decide
  have hactive : ((receiveAll unlimitedDb closingCopies.reverse).get? unlimitedKey).map (·.state) =
      some .active := by decide
  refine ⟨hclosed, hactive, ?_⟩
  intro h
  rw [(h closingCopies.reverse fun _ => List.mem_reverse).1, hclosed] at hactive
  exact absurd hactive (by decide)

end TKNC.Escrow
