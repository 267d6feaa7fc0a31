import Mathlib.Logic.Relation
import TKNC.Escrow.MinerGate

/-!
# UnpaidService — what the gate lets through without payment

A miner node handles requests for any keys while its database changes under it.  Once two TKNC have
been counted for a key, the gate refuses that key until a payment shows up in the wallet, provided
that it finds a record of the key with a miner address and a wallet for it.  Without a record the
gate lets every request through.
-/

namespace TKNC.Escrow

open Consensus Lib.MachineInt Lib.Numeral Wallet

structure GateState where
  db : Database
  served : ServedMap
  fits : ∀ key, Fits 64 (served key)

theorem fits_track {db : Database} {served : ServedMap} (apiKey : Bytes) (tokensUsed : Int)
    (h : ∀ key, Fits 64 (served key)) (key : Bytes) :
    Fits 64 (trackMinerServedTokens db served apiKey tokensUsed key) := by
  unfold trackMinerServedTokens
  split
  · exact h key
  · dsimp only
    split
    · exact fits_i64 _
    · exact h key

def GateState.track (s : GateState) (apiKey : Bytes) (tokensUsed : Int) : GateState :=
  { s with
    served := trackMinerServedTokens s.db s.served apiKey tokensUsed
    fits := fits_track apiKey tokensUsed s.fits }

/-- One event at the miner: an accepted request is served and counted, a refused one changes
nothing, and the database may be changed in any way by other parts of the node.  The wallets are
those of the moment.  No counter leaves the range of its type. -/
inductive ServiceStep : GateState → GateState → Prop where
  | serve {s : GateState} (node : NodeContext) (apiKey override : Bytes) (tokensUsed : Int)
      (accepted : checkMinerReceivedPayment node s.db s.served apiKey override = .ok ())
      (inRange : s.served apiKey + servedCost s.db apiKey tokensUsed ≤ int64Max) :
      ServiceStep s (s.track apiKey tokensUsed)
  | refuse {s : GateState} (node : NodeContext) (apiKey override : Bytes) (message : String)
      (refused : checkMinerReceivedPayment node s.db s.served apiKey override = .error message) :
      ServiceStep s s
  | database {s : GateState} (db : Database) : ServiceStep s { s with db := db }

theorem served_le_step {s s' : GateState} (h : ServiceStep s s') (key : Bytes) :
    s.served key ≤ s'.served key := by
  cases h with
  | serve node apiKey override tokensUsed accepted inRange =>
    -- only the counter of the request's key moves, and by a positive cost
    change s.served key ≤ trackMinerServedTokens s.db s.served apiKey tokensUsed key
    by_cases hcounted : key = apiKey ∧ apiKey ≠ [] ∧ 0 < tokensUsed
    · rcases hcounted with ⟨rfl, hkey, htokens⟩
      have hcost := servedCost_pos s.db key tokensUsed
      rw [trackMinerServedTokens_self hkey htokens (s.fits key) inRange]
      omega
    · rw [trackMinerServedTokens_other hcounted]
  | refuse node apiKey override message refused => exact Int.le_refl _
  | database db => exact Int.le_refl _

theorem served_le_run {s s' : GateState} (h : Relation.ReflTransGen ServiceStep s s')
    (key : Bytes) : s.served key ≤ s'.served key := by
  induction h with
  | refl => exact Int.le_refl _
  | tail _ hstep ih => exact Int.le_trans ih (served_le_step hstep key)

/-! ## Refusal -/

/-- No transaction in the wallet, conflicted ones apart, has an output of the wallet. -/
def Unpaid (w : CWallet) : Prop :=
  ∀ txid tx, w.mapWallet txid = some tx → 0 ≤ tx.depth →
    ∀ txout ∈ tx.vout, w.isMine txout.scriptPubKey = false

theorem verifies_eq_false {w : CWallet} (h : Unpaid w) (e : PendingEntry) : verifies w e = false := by
  unfold verifies
  split
  · rfl
  · split
    · rfl
    · rename_i tx htx
      by_cases hdepth : tx.depth < 0
      · simp [hdepth]
      · have hnone := h _ tx htx (Int.not_lt.1 hdepth)
        simp only [Bool.and_eq_false_iff, List.any_eq_false]
        exact Or.inr fun txout hmem => by simp [hnone txout hmem]

theorem receivedTknc_eq_zero {w : CWallet} (h : Unpaid w) (pendingStr : Bytes) :
    receivedTknc w pendingStr = 0 := by
  have hnone : (parsePendingTxids pendingStr).filter (verifies w) = [] := by
    rw [List.filter_eq_nil_iff]
    intro e _
    simp [verifies_eq_false h e]
  rw [receivedTknc, hnone]
  rfl

/-- Once two TKNC have been counted for a key, no later request for it passes the gate while a
record and a wallet are found and the wallet holds no payment. -/
theorem unpaid_refused {s s' : GateState} (hrun : Relation.ReflTransGen ServiceStep s s')
    {node : NodeContext} {apiKey : Bytes} {escrow : SpendingLimit} {w : CWallet}
    (hserved : 2 * coin ≤ s.served apiKey) (hfound : GateFound node s'.db apiKey escrow w)
    (hunpaid : Unpaid w) (override : Bytes) :
    checkMinerReceivedPayment node s'.db s'.served apiKey override =
      .error (refusalMessage (s'.served apiKey) 0) := by
  have hgrown := served_le_run hrun apiKey
  have hfits := fits64_iff.1 (s'.fits apiKey)
  simp only [coin] at hserved
  have hreceived := receivedTknc_eq_zero hunpaid (effectivePending escrow override)
  -- nothing is received, so the debt is the whole counter
  have hdebt : i64 (s'.served apiKey - 0) ≥ 2 * coin := by
    rw [Int.sub_zero, i64_of_fits (s'.fits apiKey)]
    simp only [coin]
    omega
  have hpos : ¬ s'.served apiKey ≤ 0 := by omega
  simp only [checkMinerReceivedPayment, if_neg hpos, hfound.record, if_neg hfound.address,
    hfound.wallet, hreceived, if_pos hdebt]

def unpaidWallet : CWallet := CWallet.owning [ascii "miner"]

theorem unpaid_unpaidWallet : Unpaid unpaidWallet := by
  intro txid tx htx
  cases htx

def overdue : GateState :=
  { db := Lib.OrderedMap.empty
    served := fun _ => 500000000
    fits := fun _ => by decide }

/-- The record arrives, and the key is refused. -/
theorem unpaid_refused_overdue :
    Relation.ReflTransGen ServiceStep overdue { overdue with db := minerDb } ∧
      checkMinerReceivedPayment (NodeContext.ofWallets [unpaidWallet]) minerDb overdue.served
          (ascii "key") [] = .error (refusalMessage 500000000 0) :=
  ⟨.single (.database minerDb),
    unpaid_refused (.single (.database (s := overdue) minerDb)) (by decide)
      ⟨(by decide : _ = some minerRecord), by decide, rfl⟩ unpaid_unpaidWallet []⟩

/-- Without a record the gate of the same node, with the same counter, lets the key through. -/
theorem unrecorded_accepted :
    2 * coin ≤ overdue.served (ascii "key") ∧
      (NodeContext.ofWallets [unpaidWallet]).Owned (ascii "miner") ∧ Unpaid unpaidWallet ∧
      checkMinerReceivedPayment (NodeContext.ofWallets [unpaidWallet]) overdue.db overdue.served
          (ascii "key") [] = .ok () :=
  ⟨by decide, ⟨unpaidWallet, List.mem_cons_self, by decide⟩, unpaid_unpaidWallet, by decide⟩

end TKNC.Escrow
