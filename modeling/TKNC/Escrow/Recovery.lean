import TKNC.Escrow.Arrears
import TKNC.Escrow.LocalPayer

/-!
# Recovery — can a client that was refused for its debt get out of it?

The debt test refuses a pay-as-you-go client that owes a full TKNC.  Transfers are only made by the
billing of an admitted request, so such a client stays refused, whatever its wallet holds by then.
-/

namespace TKNC.Escrow.Recovery

open Consensus Lib Lib.EventMachine Lib.MachineInt Lib.Numeral Wallet SpendingLimit

structure RequestState where
  db : Database
  outstanding : Nat

inductive Event where
  | admission (node : Node)
  | billing (node : Node) (tokensUsed : Int)

def step (apiKey : Bytes) (s : RequestState) : Event → RequestState
  | .admission node =>
      match canAffordInference node s.db apiKey with
      | (.ok (), db) => ⟨db, s.outstanding + 1⟩
      | (.error _, db) => ⟨db, s.outstanding⟩
  | .billing node tokensUsed =>
      if s.outstanding = 0 then s
      else ⟨(checkAndDeductEscrow node s.db apiKey tokensUsed).db, s.outstanding - 1⟩

def start (db : Database) : RequestState :=
  { db := db
    outstanding := 0 }

structure Request where
  atAdmission : Node
  atBilling : Node
  tokensUsed : Int

def serve (apiKey : Bytes) (db : Database) (r : Request) : Database :=
  match canAffordInference r.atAdmission db apiKey with
  | (.ok (), db) => (checkAndDeductEscrow r.atBilling db apiKey r.tokensUsed).db
  | (.error _, db) => db

def afterRequests (apiKey : Bytes) (db : Database) (future : Nat → Request) (n : Nat) : Database :=
  run (serve apiKey) db ((List.range n).map future)

/-- After some number of further requests the next one is admitted. -/
def Recovers (apiKey : Bytes) (db : Database) (future : Nat → Request) : Prop :=
  ∃ n, (canAffordInference (future n).atAdmission (afterRequests apiKey db future n) apiKey).1 =
    .ok ()

def untransferred (e : SpendingLimit) : Int :=
  i64 (e.consumedTknc - e.transferredTknc)

/-- The user's wallet is loaded and unlocked, holds more than the debt and the fees, not all of it
reserved, and can send what it holds. -/
structure Healthy (apiKey : Bytes) (fees : Int) (e : SpendingLimit) (node : Node) : Prop where
  wallet : ∃ w, findWalletByAddress node.toNodeContext e.userWallet = some w ∧
    Owns node.toNodeContext w e.userWallet ∧ w.isLocked = false ∧
    max 0 (e.consumedTknc - e.transferredTknc) + fees < w.available ∧
    node.pendingCosts apiKey < w.available ∧
    ∀ amount, 0 < amount → amount + fees ≤ w.available →
      (transferFromWallet node.toNodeContext w e.minerWallet amount false e.userWallet).isSome

/-! ## Records of the key -/

/-- The key has one record, which is pay-as-you-go and in use. -/
structure PayAsYouGo (apiKey : Bytes) (k : DbKey) (db : Database) (e : SpendingLimit) : Prop where
  keyed : KeyedById db
  only : OnlyRecord db apiKey k e
  unlimited : e.totalTknc = 0
  active : e.isActive = true

section Steps

variable {apiKey : Bytes} {k : DbKey} {db : Database} {e : SpendingLimit}

theorem PayAsYouGo.admission (h : PayAsYouGo apiKey k db e) (node : Node) :
    PayAsYouGo apiKey k (canAffordInference node db apiKey).2
      (updateConfirmedTransfers node.toNodeContext e) := by
  rcases h.only.admission h.keyed node with ⟨hkeyed, honly⟩
  rcases updateConfirmedTransfers_frame node.toNodeContext e with ⟨_, _, hframe⟩
  refine ⟨hkeyed, honly, ?_, ?_⟩
  · rw [hframe]
    exact h.unlimited
  · rw [hframe]
    exact h.active

theorem isActive_billedRecord (node : Node) (tokensUsed : Int) (htotal : e.totalTknc = 0)
    (hactive : e.isActive = true) :
    (billedRecord node (recoverState e) tokensUsed).isActive = true := by
  rcases billedRecord_frame node (recoverState e) tokensUsed with ⟨_, _, hbilled⟩
  rcases updateConfirmedTransfers_frame node.toNodeContext (recoverState e) with ⟨_, _, hframe⟩
  have hstate : (billedRecord node (recoverState e) tokensUsed).state =
      if (recoverState e).state = .created then .active else (recoverState e).state := by
    rw [hbilled]
    simp [chargedRecord, applyCharge, markExhausted, hframe, isExhausted, htotal]
  have hrecovered : (recoverState e).state =
      if e.state = .paymentPending then .active else e.state := by
    by_cases hpending : e.state = .paymentPending <;> simp [recoverState, hpending]
  simp only [isActive, Bool.or_eq_true, decide_eq_true_eq] at hactive
  simp only [isActive, hstate, hrecovered]
  rcases hactive with (h | h) | h <;> simp [h]

theorem PayAsYouGo.billing (h : PayAsYouGo apiKey k db e) (node : Node) (tokensUsed : Int) :
    ∃ e', PayAsYouGo apiKey k (checkAndDeductEscrow node db apiKey tokensUsed).db e' := by
  by_cases hany : ∃ k' e', Charged node db apiKey tokensUsed k' e'
  · rcases hany with ⟨k', e', hcharged⟩
    have hp := List.find?_some hcharged.first
    simp only [chargeable, Bool.and_eq_true, decide_eq_true_eq] at hp
    cases h.only.only _ (List.mem_of_find?_eq_some hcharged.first) hp.1.1.1
    rw [hcharged.bills.1]
    refine ⟨_, h.keyed.write ?_, h.only.write ?_, ?_, isActive_billedRecord _ _ h.unlimited h.active⟩
    · simpa using h.keyed _ h.only.stored
    · simpa using h.only.key
    · simpa using h.unlimited
  · push Not at hany
    rw [checkAndDeductEscrow_refused hany]
    exact ⟨e, h⟩

theorem PayAsYouGo.step {s : RequestState} (h : ∃ e, PayAsYouGo apiKey k s.db e) (event : Event) :
    ∃ e, PayAsYouGo apiKey k (step apiKey s event).db e := by
  rcases h with ⟨e, h⟩
  cases event with
  | admission node =>
    have hdb : (Recovery.step apiKey s (.admission node)).db =
        (canAffordInference node s.db apiKey).2 := by
      rw [Recovery.step]
      split <;> simp [*]
    rw [hdb]
    exact ⟨_, h.admission node⟩
  | billing node tokensUsed =>
    rw [Recovery.step]
    split
    · exact ⟨e, h⟩
    · exact h.billing node tokensUsed

end Steps

/-! ## Refused requests -/

section Refused

variable {apiKey : Bytes} {k : DbKey} {db : Database} {e : SpendingLimit}

/-- Admission does not depend on the fields that the confirmation of transfers changes. -/
def SameTerms (e e' : SpendingLimit) : Prop :=
  ∃ confirmed pending, e' = { e with confirmedTknc := confirmed, pendingTxids := pending }

theorem SameTerms.refl (e : SpendingLimit) : SameTerms e e :=
  ⟨e.confirmedTknc, e.pendingTxids, rfl⟩

theorem SameTerms.update {e' : SpendingLimit} (h : SameTerms e e') (node : NodeContext) :
    SameTerms e (updateConfirmedTransfers node e') := by
  rcases h with ⟨_, _, rfl⟩
  rcases updateConfirmedTransfers_frame node _ with ⟨confirmed, pending, hframe⟩
  exact ⟨confirmed, pending, hframe⟩

theorem SameTerms.admissible_iff {e' : SpendingLimit} (h : SameTerms e e') (node : Node) :
    Admissible node apiKey e' ↔ Admissible node apiKey e := by
  rcases h with ⟨_, _, rfl⟩
  exact ⟨fun h => ⟨h.debt, h.usable, h.unexpired, h.limit, h.funds⟩,
    fun h => ⟨h.debt, h.usable, h.unexpired, h.limit, h.funds⟩⟩

theorem PayAsYouGo.ok_iff (h : PayAsYouGo apiKey k db e) (node : Node) :
    (canAffordInference node db apiKey).1 = .ok () ↔ Admissible node apiKey e := by
  rw [canAffordInference_ok_iff]
  simp [h.only.select]

theorem PayAsYouGo.serve_refused (h : PayAsYouGo apiKey k db e) {r : Request}
    (hrefused : ¬ Admissible r.atAdmission apiKey e) :
    PayAsYouGo apiKey k (serve apiKey db r)
      (updateConfirmedTransfers r.atAdmission.toNodeContext e) := by
  have hdb : serve apiKey db r = (canAffordInference r.atAdmission db apiKey).2 := by
    rw [← h.ok_iff] at hrefused
    rw [serve]
    split
    · rename_i hok
      exact absurd (congrArg Prod.fst hok) hrefused
    · rename_i herror
      rw [herror]
  rw [hdb]
  exact h.admission r.atAdmission

theorem PayAsYouGo.afterRequests (h : PayAsYouGo apiKey k db e) {future : Nat → Request} {n : Nat}
    (hrefused : ∀ i < n, ¬ Admissible (future i).atAdmission apiKey e) :
    ∃ e', SameTerms e e' ∧ PayAsYouGo apiKey k (afterRequests apiKey db future n) e' := by
  induction n with
  | zero => exact ⟨e, .refl e, h⟩
  | succ n ih =>
    rcases ih fun i hi => hrefused i (Nat.lt_succ_of_lt hi) with ⟨e', hsame, hn⟩
    have hlast : ¬ Admissible (future n).atAdmission apiKey e' := by
      rw [hsame.admissible_iff]
      exact hrefused n (Nat.lt_succ_self n)
    refine ⟨_, hsame.update (future n).atAdmission.toNodeContext, ?_⟩
    have hnext := hn.serve_refused hlast
    rw [Recovery.afterRequests, List.range_succ, List.map_append, run, List.foldl_append]
    exact hnext

/-- The first request that is admitted finds the record as it was at the start. -/
theorem PayAsYouGo.recovers_iff (h : PayAsYouGo apiKey k db e) (future : Nat → Request) :
    Recovers apiKey db future ↔ ∃ n, Admissible (future n).atAdmission apiKey e := by
  have hfirst : ∀ n, (∀ i < n, ¬ Admissible (future i).atAdmission apiKey e) →
      ((canAffordInference (future n).atAdmission (Recovery.afterRequests apiKey db future n)
        apiKey).1 = .ok () ↔ Admissible (future n).atAdmission apiKey e) := by
    intro n hrefused
    rcases h.afterRequests hrefused with ⟨e', hsame, hn⟩
    rw [hn.ok_iff, hsame.admissible_iff]
  constructor
  · rintro ⟨n, hok⟩
    by_contra hnever
    push Not at hnever
    exact hnever n ((hfirst n fun i _ => hnever i).1 hok)
  · intro hsome
    classical
    refine ⟨Nat.find hsome, (hfirst _ fun i hi => Nat.find_min hsome hi).2 (Nat.find_spec hsome)⟩

theorem PayAsYouGo.admissible_iff (h : PayAsYouGo apiKey k db e) {fees : Int} (hfees : 0 ≤ fees)
    {node : Node} (hhealthy : Healthy apiKey fees e node) :
    Admissible node apiKey e ↔
      (0 < e.consumedTknc → untransferred e < coin) ∧ e.isExpired node.getTime = false := by
  rcases hhealthy.wallet with ⟨w, hw, _, _, hfunds, hunreserved, _⟩
  have hactive := h.active
  simp only [isActive, Bool.or_eq_true, decide_eq_true_eq] at hactive
  constructor
  · intro hadmissible
    exact ⟨hadmissible.debt h.unlimited, hadmissible.unexpired⟩
  · rintro ⟨hdebt, hunexpired⟩
    refine ⟨fun _ => hdebt, ?_, hunexpired, ?_, w, hw, by omega, hunreserved⟩
    · rcases hactive with (hstate | hstate) | hstate <;> simp [hstate]
    · intro hlimit
      have := h.unlimited
      omega

end Refused

/-- In every state that requests can lead to, a client whose wallet is in order from then on gets
service again exactly if it was not refused for its debt in the first place, and the record does not
expire before. -/
theorem recovers_iff_of_healthy {apiKey : Bytes} {k : DbKey} {db : Database} {e₀ e : SpendingLimit}
    {events : List Event} {fees : Int} {future : Nat → Request} (hkeyed : KeyedById db)
    (honly : OnlyRecord db apiKey k e₀) (hunlimited : e₀.totalTknc = 0)
    (hactive : e₀.isActive = true)
    (hreached : (run (step apiKey) (start db) events).db.get? k = some e) (hfees : 0 ≤ fees)
    (hhealthy : ∀ n, Healthy apiKey fees e (future n).atAdmission ∧
      Healthy apiKey fees e (future n).atBilling) :
    Recovers apiKey (run (step apiKey) (start db) events).db future ↔
      (0 < e.consumedTknc → untransferred e < coin) ∧
        ∃ n, e.isExpired (future n).atAdmission.getTime = false := by
  have hstart : ∃ e, PayAsYouGo apiKey k (start db).db e :=
    ⟨e₀, hkeyed, honly, hunlimited, hactive⟩
  have hinv : ∃ e, PayAsYouGo apiKey k (run (step apiKey) (start db) events).db e :=
    run_invariant (fun (s : RequestState) event (h : ∃ e, PayAsYouGo apiKey k s.db e) =>
      PayAsYouGo.step h event) hstart events
  rcases hinv with ⟨e', h⟩
  cases Option.some.inj (hreached.symm.trans (OrderedMap.get?_eq_some_iff.2 h.only.stored))
  rw [h.recovers_iff future]
  simp only [h.admissible_iff hfees (hhealthy _).1, exists_and_left]

/-! ## A locked wallet, unlocked too late -/

def richNode : Node :=
  { NodeContext.ofWallets
      [{ CWallet.owning [ascii "user"] with
          mineTrusted := 10000000000
          createTransaction := fun _ _ => some 7 }] with
    tokenRates := ⟨[], []⟩
    pendingCosts := fun _ => 0 }

def lockedRun : List Event :=
  [.admission lockedNode, .billing lockedNode 1]

def lockedDb : Database :=
  (run (step (ascii "key")) (start unlimitedDb) lockedRun).db

def unpaidRecord : SpendingLimit :=
  { unlimitedRecord with
    consumedTknc := 100000000
    usedTokens := 1
    state := .active }

theorem healthy_richNode : Healthy (ascii "key") 1000 unpaidRecord richNode :=
  ⟨⟨_, rfl, ⟨ascii "user", rfl, by decide⟩, rfl, by decide, by decide, fun _ _ _ => rfl⟩⟩

theorem unlimitedDb_only : OnlyRecord unlimitedDb (ascii "key") unlimitedKey unlimitedRecord :=
  ⟨by decide, by decide, by decide⟩

theorem lockedDb_payAsYouGo : PayAsYouGo (ascii "key") unlimitedKey lockedDb unpaidRecord :=
  { keyed := by
      unfold KeyedById
      decide
    only := ⟨by decide, by decide, by decide⟩
    unlimited := rfl
    active := rfl }

theorem recovers_iff_of_healthy_locked :
    (lockedDb.get? unlimitedKey = some unpaidRecord ∧
      Healthy (ascii "key") 1000 unpaidRecord richNode) ∧
    (Recovers (ascii "key") (run (step (ascii "key")) (start unlimitedDb) lockedRun).db
        (fun _ => ⟨richNode, richNode, 1⟩) ↔
      (0 < unpaidRecord.consumedTknc → untransferred unpaidRecord < coin) ∧
        ∃ _ : Nat, unpaidRecord.isExpired richNode.getTime = false) := by
  have hget : (run (step (ascii "key")) (start unlimitedDb) lockedRun).db.get? unlimitedKey =
      some unpaidRecord := by decide
  exact ⟨⟨hget, healthy_richNode⟩, recovers_iff_of_healthy unlimitedDb_keyedById unlimitedDb_only
    rfl rfl hget (by decide) (fun _ => ⟨healthy_richNode, healthy_richNode⟩)⟩

theorem not_recovers_locked :
    createescrow unlimitedArgs = .ok unlimitedRecord ∧
      (canAffordInference lockedNode unlimitedDb (ascii "key")).1 = .ok () ∧
      lockedDb.get? unlimitedKey = some unpaidRecord ∧
      Healthy (ascii "key") 1000 unpaidRecord richNode ∧
      unpaidRecord.isExpired richNode.getTime = false ∧
      ¬ Recovers (ascii "key") lockedDb (fun _ => ⟨richNode, richNode, 1⟩) := by
  refine ⟨by rfl, by rfl, by decide, healthy_richNode, by decide, ?_⟩
  rw [lockedDb_payAsYouGo.recovers_iff]
  rintro ⟨_, hadmissible⟩
  exact absurd (hadmissible.debt rfl (by decide)) (by decide)

end TKNC.Escrow.Recovery
