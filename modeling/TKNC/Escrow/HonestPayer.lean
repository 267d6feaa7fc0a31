import TKNC.Escrow.Admission
import TKNC.Escrow.BillingRun
import TKNC.Escrow.MinerGate

/-!
# HonestPayer — does the miner accept a client that always pays?

Client and miner keep separate books.  The client bills itself, pays each full TKNC and names its
unconfirmed transfers in a header; the miner adds up what it served and subtracts the transfers that
the header names.  The served counter never shrinks, but confirmed transfers leave the list, so the
two books drift apart by what was confirmed.

Requests overlap: an accepted request is counted by the miner and billed by the client at some later
time each, in either order.
-/

namespace TKNC.Escrow.HonestPayer

open Consensus Lib Lib.AccountBook Lib.EventMachine Lib.MachineInt Lib.Numeral Wallet

structure Request where
  served : Option Int
  billed : Option Int
  deriving DecidableEq, Repr

def Request.ahead (r : Request) : Int :=
  match r.served, r.billed with
  | some cost, none => cost
  | none, some cost => -cost
  | _, _ => 0

structure PaymentState where
  client : Database
  miner : Database
  served : ServedMap
  requests : List Request
  recorded : List PendingEntry

/-- A request; the miner counting and the client billing the tokens of an accepted one; a balance
check on the client; a synchronisation of the client's record to the miner.  The nodes are given as
the event finds them. -/
inductive Event where
  | request (minerNode : NodeContext)
  | serve (i : Nat) (tokensUsed : Int)
  | bill (i : Nat) (clientNode : Node) (tokensUsed : Int)
  | poll (clientNode : Node)
  | sync

def pendingHeader (client : Database) (apiKey : Bytes) : Bytes :=
  match findSpendingLimitByAPIKey client apiKey with
  | some e => e.pendingTxids
  | none => []

def answer (apiKey : Bytes) (s : PaymentState) (minerNode : NodeContext) : Except String Unit :=
  checkMinerReceivedPayment minerNode s.miner s.served apiKey (pendingHeader s.client apiKey)

def step (apiKey : Bytes) (s : PaymentState) : Event → PaymentState
  | .request minerNode =>
      match answer apiKey s minerNode with
      -- A refused request is neither served nor billed.
      | .error _ => s
      | .ok () => { s with requests := s.requests ++ [⟨none, none⟩] }
  | .serve i tokensUsed =>
      match s.requests[i]? with
      | some ⟨none, billed⟩ =>
          { s with
            served := trackMinerServedTokens s.miner s.served apiKey tokensUsed
            requests := s.requests.set i ⟨some (servedCost s.miner apiKey tokensUsed), billed⟩ }
      | _ => s
  | .bill i clientNode tokensUsed =>
      match s.requests[i]? with
      | some ⟨served, none⟩ =>
          let billing := checkAndDeductEscrow clientNode s.client apiKey tokensUsed
          { s with
            client := billing.db
            requests := s.requests.set i ⟨served, billing.receipt.map (·.costTknc)⟩
            recorded := s.recorded ++ billing.transfers.map Transfer.entry }
      | _ => s
  | .poll clientNode => { s with client := (canAffordInference clientNode s.client apiKey).2 }
  | .sync =>
      match findSpendingLimitByAPIKey s.client apiKey with
      | some e => { s with miner := (writeSpendingLimitFromP2P s.miner e).2 }
      | none => s

/-! ## Honest runs -/

/-- The record can be charged for the tokens, the charge stays in its register, and a boundary
transfer that falls due succeeds. -/
def PaysFor (node : Node) (e : SpendingLimit) (tokensUsed : Int) : Prop :=
  tokensUsed ≤ int64Max.tdiv (rateTkncPerToken node e) ∧ ChargeFits node e tokensUsed ∧
    ∀ due ∈ dueAmount node e tokensUsed,
      ∃ w ∈ findWalletByAddress node.toNodeContext e.userWallet,
        (transferFromWallet node.toNodeContext w e.minerWallet due false e.userWallet).isSome

/-- At a request every transfer so far is in the miner's wallet; the client pays; and the side that
charges a request second charges what the first did. -/
def Honest (apiKey address : Bytes) (s : PaymentState) : Event → Prop
  | .request minerNode =>
      ∃ w ∈ findWalletByAddress minerNode address, ∀ t ∈ s.recorded, verifies w t = true
  | .serve i tokensUsed =>
      0 < tokensUsed ∧ s.served apiKey + servedCost s.miner apiKey tokensUsed ≤ int64Max ∧
        ∀ r ∈ s.requests[i]?, ∀ cost ∈ r.billed, servedCost s.miner apiKey tokensUsed = cost
  | .bill i clientNode tokensUsed =>
      ∃ kv ∈ s.client.entries.find? (chargeable clientNode apiKey),
        PaysFor clientNode kv.2 tokensUsed ∧
          ∀ r ∈ s.requests[i]?, ∀ cost ∈ r.served,
            (chargeFor kv.2 (rateTkncPerToken clientNode kv.2) tokensUsed).cost = cost
  | .poll _ | .sync => True

instance (node : Node) (e : SpendingLimit) (tokensUsed : Int) :
    Decidable (PaysFor node e tokensUsed) := by
  unfold PaysFor ChargeFits
  infer_instance

instance (apiKey address : Bytes) (s : PaymentState) (event : Event) :
    Decidable (Honest apiKey address s event) := by
  cases event <;> unfold Honest <;> infer_instance

/-- Confirmed transfers no longer count for the miner: with the TKNC that the client has started and
what the miner is ahead in charging, they may come to less than two TKNC.  A client without
unconfirmed transfers sends no header, and then those of the miner's copy count. -/
def WithinGrace (apiKey : Bytes) (s : PaymentState) : Prop :=
  ∃ e ∈ findSpendingLimitByAPIKey s.client apiKey,
    ∃ e' ∈ findSpendingLimitByAPIKey s.miner apiKey,
      e.confirmedTknc + e.consumedTknc % coin + total Request.ahead s.requests <
        2 * coin +
          if e.pendingTxids = [] then total Prod.snd (parsePendingTxids e'.pendingTxids) else 0

section Invariant

variable (apiKey address : Bytes) (k : DbKey)

/-- The client has paid every full TKNC of its consumption. -/
structure ClientSide (client : Database) (recorded : List PendingEntry) (e : SpendingLimit)
    (b : PaymentBook) : Prop where
  keyed : KeyedById client
  only : OnlyRecord client apiKey k e
  unlimited : e.totalTknc = 0
  address : e.minerWallet = address
  ledger : Ledger e b
  history : b.recorded = recorded
  paid : total Prod.snd b.recorded = e.consumedTknc / coin * coin

/-- The miner's copy lists transfers that were pending at some earlier time. -/
structure MinerSide (miner : Database) (recorded : List PendingEntry) (e : SpendingLimit)
    (b : PaymentBook) : Prop where
  only : OnlyRecord miner apiKey k e
  address : e.minerWallet = address
  pending : parsePendingTxids e.pendingTxids = b.pending
  history : b.recorded <+: recorded

/-- The two counters differ by the requests that only one side has charged. -/
structure Counters (served : Int) (requests : List Request) (consumed : Int) : Prop where
  nonneg : 0 ≤ served
  le : served ≤ int64Max
  ahead : served = consumed + total Request.ahead requests

def Inv (s : PaymentState) : Prop :=
  (∃ e b, ClientSide apiKey address k s.client s.recorded e b ∧
    Counters (s.served apiKey) s.requests e.consumedTknc) ∧
    ∃ e b, MinerSide apiKey address k s.miner s.recorded e b

end Invariant

variable {apiKey address : Bytes} {k : DbKey} {s : PaymentState} {client : Database}
  {recorded : List PendingEntry}

variable {e : SpendingLimit} {b : PaymentBook}

theorem ClientSide.id_eq (h : ClientSide apiKey address k client recorded e b) :
    k.id = e.escrowId :=
  h.keyed _ h.only.stored

/-! ## Billing -/

variable {tokensUsed : Int} {node : Node}

theorem amounts_of_paysFor (h : PaysFor node e tokensUsed) :
    (paymentFor node (recoverState e) tokensUsed).transfers.map (·.amount) =
      (dueAmount node e tokensUsed).toList := by
  rw [paymentFor_eq]
  cases hdue : dueAmount node e tokensUsed with
  | none => rfl
  | some due =>
    rcases h.2.2 due hdue with ⟨w, hw, hsome⟩
    rcases Option.isSome_iff_exists.1 hsome with ⟨txid, htxid⟩
    -- a wallet that can send is not locked
    have hlocked : w.isLocked = false := by
      by_contra hlocked
      rw [Bool.not_eq_false] at hlocked
      simp [transferFromWallet, hlocked] at htxid
    simp [payMiner, Option.mem_def.1 hw, hlocked, htxid]

theorem dueAmount_total (h : Ledger e b) (hleft : e.isExhausted = false)
    (hcharge : ChargeFits node e tokensUsed) (hminer : e.minerWallet ≠ []) :
    (dueAmount node e tokensUsed).toList.sum =
      (e.consumedTknc + (chargeFor e (rateTkncPerToken node e) tokensUsed).cost) / coin * coin -
        e.consumedTknc / coin * coin := by
  have hcost := (h.cost_bounds hleft hcharge).1
  rw [h.dueAmount_eq hleft hcharge]
  dsimp only
  split
  · rw [Option.toList_some, List.sum_singleton]
  · -- no boundary crossed: the consumption stays within the same TKNC
    rename_i hsame
    rw [and_iff_left hminer] at hsame
    simp only [coin, Option.toList_none, List.sum_nil] at hsame ⊢
    omega

theorem ClientSide.charged {kv : DbKey × SpendingLimit}
    (h : ClientSide apiKey address k client recorded e b)
    (hfirst : client.entries.find? (chargeable node apiKey) = some kv)
    (hpays : PaysFor node kv.2 tokensUsed) :
    kv = (k, e) ∧ e.isExhausted = false ∧ Charged node client apiKey tokensUsed k e := by
  have hp := List.find?_some hfirst
  simp only [chargeable, Bool.and_eq_true, decide_eq_true_eq, Bool.not_eq_true'] at hp
  have hkv := h.only.only kv (List.mem_of_find?_eq_some hfirst) hp.1.1.1
  subst hkv
  exact ⟨rfl, hp.1.2, hfirst, hpays.1⟩

theorem ClientSide.bill (h : ClientSide apiKey address k client recorded e b)
    (haddress : address ≠ []) (hleft : e.isExhausted = false)
    (hcharged : Charged node client apiKey tokensUsed k e) (hpays : PaysFor node e tokensUsed) :
    (billedRecord node (recoverState e) tokensUsed).consumedTknc =
        e.consumedTknc + (chargeFor e (rateTkncPerToken node e) tokensUsed).cost ∧
      ∃ b', ClientSide apiKey address k (checkAndDeductEscrow node client apiKey tokensUsed).db
        (recorded ++
          (checkAndDeductEscrow node client apiKey tokensUsed).transfers.map Transfer.entry)
        (billedRecord node (recoverState e) tokensUsed) b' := by
  rcases h.ledger.billed hleft hpays.2.1 with ⟨b', hrecorded, hledger⟩
  have hbilled := h.ledger.consumed_billed hleft hpays.2.1
  have hdue := dueAmount_total h.ledger hleft hpays.2.1 (h.address.symm ▸ haddress)
  have hamounts := amounts_of_paysFor hpays
  have hsnd : ((paymentFor node (recoverState e) tokensUsed).transfers.map Transfer.entry).map
      Prod.snd = (dueAmount node e tokensUsed).toList := by
    rw [← hamounts, List.map_map]
    rfl
  -- the fields of the invariant in their order; only the last one says something about payment
  refine ⟨hbilled, b', ?_, ?_, ?_, ?_, hledger, ?_, ?_⟩
  · rw [hcharged.bills.1]
    exact h.keyed.write (by simpa using h.id_eq)
  · rw [hcharged.bills.1]
    exact h.only.write (by simpa using h.only.key)
  · simpa using h.unlimited
  · simpa using h.address
  · rw [hrecorded, h.history, hcharged.bills.2.1]
  · rw [hrecorded, hbilled, total_append, h.paid, total, hsnd, hdue]
    omega

theorem Request.ahead_serve {billed : Option Int} {cost : Int} (h : ∀ c ∈ billed, cost = c) :
    Request.ahead ⟨some cost, billed⟩ = Request.ahead ⟨none, billed⟩ + cost := by
  cases billed with
  | none => simp [Request.ahead]
  | some c => simp [Request.ahead, h c rfl]

theorem Request.ahead_bill {served : Option Int} {cost : Int} (h : ∀ c ∈ served, cost = c) :
    Request.ahead ⟨served, some cost⟩ = Request.ahead ⟨served, none⟩ - cost := by
  cases served with
  | none => simp [Request.ahead]
  | some c => simp [Request.ahead, h c rfl]

section Counting

variable {requests : List Request} {i : Nat} {servedTknc consumed cost : Int}

theorem Counters.serve {billed : Option Int} (h : Counters servedTknc requests consumed)
    (hr : requests[i]? = some ⟨none, billed⟩) (hsame : ∀ c ∈ billed, cost = c) (hcost : 0 < cost)
    (hmax : servedTknc + cost ≤ int64Max) :
    Counters (servedTknc + cost) (requests.set i ⟨some cost, billed⟩) consumed := by
  have hnonneg := h.nonneg
  refine ⟨by omega, hmax, ?_⟩
  rw [total_set hr, Request.ahead_serve hsame, h.ahead]
  omega

theorem Counters.bill {served : Option Int} (h : Counters servedTknc requests consumed)
    (hr : requests[i]? = some ⟨served, none⟩) (hsame : ∀ c ∈ served, cost = c) :
    Counters servedTknc (requests.set i ⟨served, some cost⟩) (consumed + cost) := by
  refine ⟨h.nonneg, h.le, ?_⟩
  rw [total_set hr, Request.ahead_bill hsame, h.ahead]
  omega

theorem Counters.fits (h : Counters servedTknc requests consumed) : Fits 64 servedTknc := by
  have hnonneg := h.nonneg
  have hle := h.le
  simp only [int64Max] at hle
  exact fits64_iff.2 (by omega)

end Counting

/-! ## Steps -/

theorem inv_request {minerNode : NodeContext} (h : Inv apiKey address k s) :
    Inv apiKey address k (step apiKey s (.request minerNode)) := by
  rw [step]
  split
  · exact h
  · -- A request that nobody has charged yet puts neither side ahead.
    rcases h with ⟨⟨e, b, hclient, hcounters⟩, hminer⟩
    refine ⟨⟨e, b, hclient, hcounters.nonneg, hcounters.le, ?_⟩, hminer⟩
    simpa [Request.ahead] using hcounters.ahead

theorem inv_serve {i : Nat} (hkey : apiKey ≠ []) (h : Inv apiKey address k s)
    (hhonest : Honest apiKey address s (.serve i tokensUsed)) :
    Inv apiKey address k (step apiKey s (.serve i tokensUsed)) := by
  rw [step]
  split
  · rename_i billed hr
    rcases h with ⟨⟨e, b, hclient, hcounters⟩, hminer⟩
    rcases hhonest with ⟨htokens, hmax, hsame⟩
    refine ⟨⟨e, b, hclient, ?_⟩, hminer⟩
    dsimp only
    rw [trackMinerServedTokens_self hkey htokens hcounters.fits hmax]
    exact hcounters.serve hr (hsame _ hr) (servedCost_pos _ _ _) hmax
  · exact h

theorem inv_bill {i : Nat} {clientNode : Node} (haddress : address ≠ [])
    (h : Inv apiKey address k s)
    (hhonest : Honest apiKey address s (.bill i clientNode tokensUsed)) :
    Inv apiKey address k (step apiKey s (.bill i clientNode tokensUsed)) := by
  rw [step]
  split
  · rename_i served hr
    rcases h with ⟨⟨e, b, hclient, hcounters⟩, e', b', hminer⟩
    rcases hhonest with ⟨kv, hfirst, hpays, hsame⟩
    rcases hclient.charged hfirst hpays with ⟨rfl, hleft, hcharged⟩
    rcases hclient.bill haddress hleft hcharged hpays with ⟨hbilled, b₁, hclient₁⟩
    rcases hcharged.bills.2.2 with ⟨receipt, hreceipt, hcost⟩
    refine ⟨⟨_, b₁, hclient₁, ?_⟩, e', b', { hminer with
      history := hminer.history.trans (List.prefix_append _ _) }⟩
    rw [hbilled]
    simp only [hreceipt, Option.map_some, hcost]
    exact hcounters.bill hr (hsame _ hr)
  · exact h

theorem inv_poll {clientNode : Node} (h : Inv apiKey address k s) :
    Inv apiKey address k (step apiKey s (.poll clientNode)) := by
  rcases h with ⟨⟨e, b, hclient, hcounters⟩, hminer⟩
  refine ⟨?_, hminer⟩
  -- the call stores the record with its confirmed transfers settled
  rcases hclient.only.admission hclient.keyed clientNode with ⟨hkeyed, honly⟩
  rcases hclient.ledger.update clientNode.toNodeContext with ⟨b₁, hrecorded, hledger⟩
  rcases updateConfirmedTransfers_frame clientNode.toNodeContext e with ⟨confirmed, pending, hframe⟩
  rw [hframe] at honly hledger
  exact ⟨_, b₁, ⟨hkeyed, honly, hclient.unlimited, hclient.address, hledger,
    hrecorded.trans hclient.history, hrecorded ▸ hclient.paid⟩, hcounters⟩

theorem inv_sync (h : Inv apiKey address k s) : Inv apiKey address k (step apiKey s .sync) := by
  rcases h with ⟨⟨e, b, hclient, hcounters⟩, e', b', hminer⟩
  have hkey : (⟨e.escrowId⟩ : DbKey) = k := by
    rw [← hclient.id_eq]
  have hread : readSpendingLimit s.miner ⟨e.escrowId⟩ = some e' := by
    rw [hkey]
    exact OrderedMap.get?_eq_some_iff.2 hminer.only.stored
  simp only [step, hclient.only.select, writeSpendingLimitFromP2P, hread]
  refine ⟨⟨e, b, hclient, hcounters⟩, ?_⟩
  split
  · exact ⟨e', b', hminer⟩
  · dsimp only
    split
    · exact ⟨e', b', hminer⟩
    · rw [hkey]
      refine ⟨mergeFromPeer e' e, ?_⟩
      -- The merged list is the client's or the one that the miner had.
      by_cases hlist : e.pendingTxids ≠ e'.pendingTxids ∧ e.pendingTxids ≠ []
      · refine ⟨b, hminer.only.write hminer.only.key, hminer.address, ?_, ?_⟩
        · simp only [mergeFromPeer, if_pos hlist]
          exact hclient.ledger.represents.pending
        · exact hclient.history ▸ List.prefix_refl _
      · refine ⟨b', hminer.only.write hminer.only.key, hminer.address, ?_, hminer.history⟩
        simp only [mergeFromPeer, if_neg hlist]
        exact hminer.pending

theorem inv_step {event : Event} (hkey : apiKey ≠ []) (haddress : address ≠ [])
    (h : Inv apiKey address k s) (hhonest : Honest apiKey address s event) :
    Inv apiKey address k (step apiKey s event) := by
  cases event with
  | request minerNode => exact inv_request h
  | serve i tokensUsed => exact inv_serve hkey h hhonest
  | bill i clientNode tokensUsed => exact inv_bill haddress h hhonest
  | poll clientNode => exact inv_poll h
  | sync => exact inv_sync h

/-! ## The answer of the miner -/

theorem receivedTknc_of_verified {w : CWallet} {pendingStr : Bytes}
    (hpending : parsePendingTxids pendingStr = b.pending)
    (hverified : ∀ t ∈ b.recorded, verifies w t = true) :
    receivedTknc w pendingStr = total Prod.snd b.pending := by
  have hall : b.pending.filter (verifies w) = b.pending :=
    List.filter_eq_self.2 fun t ht => hverified t (b.mem_recorded_of_pending ht)
  have hnonneg := b.pending_nonneg
  have hle := b.pending_le
  simp only [int64Max] at hle
  rw [receivedTknc, amountSum64_eq, hpending, hall]
  exact i64_of_fits (fits64_iff.2 (by omega))

theorem ClientSide.confirmed (h : ClientSide apiKey address k client recorded e b) :
    e.confirmedTknc + total Prod.snd b.pending = e.consumedTknc / coin * coin := by
  rw [h.ledger.represents.confirmed, ← b.toBook.total_recorded, h.paid]

theorem answer_ok_iff {minerNode : NodeContext} {w : CWallet} (haddress : address ≠ [])
    (h : Inv apiKey address k s) (hw : findWalletByAddress minerNode address = some w)
    (hverified : ∀ t ∈ s.recorded, verifies w t = true) :
    answer apiKey s minerNode = .ok () ↔ WithinGrace apiKey s := by
  rcases h with ⟨⟨e, b, hclient, hnonneg, hmax, hahead⟩, e', b', hminer⟩
  have hfind := hclient.only.select
  have hfind' := hminer.only.select
  have hgate : GateFound minerNode s.miner apiKey e' w :=
    ⟨hfind', hminer.address.symm ▸ haddress, hminer.address.symm ▸ hw⟩
  have hsum := hclient.confirmed
  have hpending := b.pending_nonneg
  have hle := b.pending_le
  have hpending' := b'.pending_nonneg
  have hle' := b'.pending_le
  have hconsumed := hclient.ledger.consumed_nonneg
  simp only [WithinGrace, hfind, hfind', Option.mem_some_iff, exists_eq_left', hminer.pending]
  simp only [coin, int64Max] at hsum hle hle' hmax ⊢
  by_cases hserved : s.served apiKey ≤ 0
  · -- Nothing was served, so the client is ahead by all that it consumed.
    refine iff_of_true ?_ (by split <;> omega)
    simp only [answer, checkMinerReceivedPayment, if_pos hserved]
  · rw [answer, hgate.accepts_iff _ _ (Int.not_le.1 hserved), pendingHeader, hfind,
      effectivePending]
    by_cases hheader : e.pendingTxids = []
    · -- no header: everything paid is confirmed, and the miner's own list is subtracted
      have hnone : b.pending = [] := by
        rw [← hclient.ledger.represents.pending, hheader]
        rfl
      have hreceived := receivedTknc_of_verified hminer.pending fun t ht =>
        hverified t (hminer.history.subset ht)
      rw [hnone, total_nil] at hsum
      simp only [hheader, ne_eq, not_true_eq_false, if_false, if_true, hreceived, coin]
      rw [i64_of_fits (fits64_iff.2 (by omega))]
      omega
    · have hreceived := receivedTknc_of_verified hclient.ledger.represents.pending fun t ht =>
        hverified t (hclient.history ▸ ht)
      simp only [hheader, ne_eq, not_false_eq_true, if_true, if_false, hreceived, coin]
      rw [i64_of_fits (fits64_iff.2 (by omega))]
      omega

/-- Both sides hold a fresh pay-as-you-go record of the key, and nothing was requested. -/
structure Started (apiKey address : Bytes) (s : PaymentState) (k : DbKey)
    (e e' : SpendingLimit) : Prop where
  keyed : KeyedById s.client
  client : OnlyRecord s.client apiKey k e
  miner : OnlyRecord s.miner apiKey k e'
  clientFresh : Fresh e
  minerFresh : Fresh e'
  unlimited : e.totalTknc = 0
  clientAddress : e.minerWallet = address
  minerAddress : e'.minerWallet = address
  served : s.served apiKey = 0
  requests : s.requests = []
  recorded : s.recorded = []

theorem Started.inv {e e' : SpendingLimit} (h : Started apiKey address s k e e') :
    Inv apiKey address k s := by
  refine ⟨⟨e, PaymentBook.empty, ?_, ?_⟩, e', PaymentBook.empty, ?_⟩
  · exact
      { keyed := h.keyed
        only := h.client
        unlimited := h.unlimited
        address := h.clientAddress
        ledger := h.clientFresh.ledger (by rw [h.unlimited]; decide)
        history := h.recorded.symm
        paid := by simp [h.clientFresh.consumed, PaymentBook.empty, Book.empty] }
  · exact
      { nonneg := h.served.ge
        le := by rw [h.served]; decide
        ahead := by rw [h.served, h.clientFresh.consumed, h.requests]; rfl }
  · exact
      { only := h.miner
        address := h.minerAddress
        pending := h.minerFresh.represents.pending
        history := List.nil_prefix }

/-- At every request of every honest run, the miner accepts exactly while the confirmed transfers
and what is charged ahead are within the grace. -/
theorem honest_accepted_iff {e e' : SpendingLimit} {events : List Event} {minerNode : NodeContext}
    (hkey : apiKey ≠ []) (haddress : address ≠ []) (hstart : Started apiKey address s k e e')
    (hrun : GoodRun (step apiKey) (Honest apiKey address) s events)
    (hrequest : Honest apiKey address (run (step apiKey) s events) (.request minerNode)) :
    answer apiKey (run (step apiKey) s events) minerNode = .ok () ↔
      WithinGrace apiKey (run (step apiKey) s events) := by
  have hinv : Inv apiKey address k (run (step apiKey) s events) :=
    hrun.invariant (fun _ _ => inv_step hkey haddress) hstart.inv
  rcases hrequest with ⟨w, hw, hverified⟩
  exact answer_ok_iff haddress hinv hw hverified

/-! ## Three confirmed payments -/

def receivingNode (received : List Txid) : NodeContext :=
  NodeContext.ofWallets
    [{ CWallet.owning [ascii "miner"] with
        mapWallet := knownTxs received ⟨0, [⟨100000000, ascii "miner"⟩]⟩ }]

def freshState : PaymentState :=
  { client := unlimitedDb
    miner := unlimitedDb
    served := fun _ => 0
    requests := []
    recorded := [] }

theorem started_freshState : Started (ascii "key") (ascii "miner") freshState unlimitedKey
    unlimitedRecord unlimitedRecord := by
  have honly : OnlyRecord unlimitedDb (ascii "key") unlimitedKey unlimitedRecord :=
    ⟨by decide, by decide, by decide⟩
  have hfresh : Fresh unlimitedRecord := ⟨rfl, rfl, rfl, rfl⟩
  exact ⟨unlimitedDb_keyedById, honly, honly, hfresh, hfresh, rfl, rfl, rfl, rfl, rfl, rfl⟩

/-- Requests for one token each, one after the other; before each charge the client finds all
earlier transfers confirmed. -/
def threeRequests : List Event :=
  [.request (receivingNode []), .serve 0 1, .bill 0 (payingNode [] 7) 1,
    .request (receivingNode [7]), .serve 1 1, .bill 1 (payingNode [7] 8) 1,
    .request (receivingNode [7, 8]), .serve 2 1, .bill 2 (payingNode [7, 8] 9) 1]

theorem threeRequests_honest :
    GoodRun (step (ascii "key")) (Honest (ascii "key") (ascii "miner")) freshState
        threeRequests ∧
      Honest (ascii "key") (ascii "miner") (run (step (ascii "key")) freshState threeRequests)
        (.request (receivingNode [7, 8, 9])) := by
  decide +kernel

theorem honest_accepted_iff_three :
    answer (ascii "key") (run (step (ascii "key")) freshState threeRequests)
        (receivingNode [7, 8, 9]) = .ok () ↔
      WithinGrace (ascii "key") (run (step (ascii "key")) freshState threeRequests) :=
  honest_accepted_iff (by decide) (by decide) started_freshState threeRequests_honest.1
    threeRequests_honest.2

/-- No request is under way when the client that has paid everything is refused. -/
theorem honest_refused_three :
    GoodRun (step (ascii "key")) (Honest (ascii "key") (ascii "miner")) freshState
        threeRequests ∧
      Honest (ascii "key") (ascii "miner") (run (step (ascii "key")) freshState threeRequests)
        (.request (receivingNode [7, 8, 9])) ∧
      (∀ r ∈ (run (step (ascii "key")) freshState threeRequests).requests,
        r = ⟨some 100000000, some 100000000⟩) ∧
      answer (ascii "key") (run (step (ascii "key")) freshState threeRequests)
        (receivingNode [7, 8, 9]) = .error (refusalMessage 300000000 100000000) :=
  ⟨threeRequests_honest.1, threeRequests_honest.2, by decide +kernel, by decide +kernel⟩

end TKNC.Escrow.HonestPayer
