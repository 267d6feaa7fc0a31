import TKNC.Escrow.KeyGate
import TKNC.Escrow.PaymentBook

/-!
# Reservation — costs of requests in flight

`ReserveEscrowCost` and `ReleaseEscrowCost` keep the sum of the estimated costs of the requests in
flight, for each API key; the balance test of an admission looks at that sum.  Admission and
reservation are two critical sections, so any number of admitted requests can stand between them.
The result says that the test holds the sum below the balance in the runs where no request is
overtaken between its two steps.
-/

namespace TKNC.Escrow.Reservation

open Consensus KeyGate Lib Lib.AccountBook Lib.EventMachine Lib.MachineInt Lib.Numeral Wallet List

/-! ## The table of reserved costs -/

abbrev PendingCosts : Type := Bytes → Int

def reserveEscrowCost (pending : PendingCosts) (apiKey : Bytes) (estimatedCost : Int) :
    PendingCosts :=
  if apiKey = [] ∨ estimatedCost ≤ 0 then pending
  else fun key => if key = apiKey then i64 (pending apiKey + estimatedCost) else pending key

def releaseEscrowCost (pending : PendingCosts) (apiKey : Bytes) (reservedCost : Int) :
    PendingCosts :=
  if apiKey = [] ∨ reservedCost ≤ 0 then pending
  else
    fun key =>
      if key = apiKey then
        if pending apiKey ≥ reservedCost then pending apiKey - reservedCost else 0
      else pending key

def getPendingCost (pending : PendingCosts) (apiKey : Bytes) : Int :=
  pending apiKey

/-- What a request reserves: the estimated tokens at the rate of the local miner or else of the
selected record, and at least one TKNC. -/
def reservedCost (gw : Gateway) (db : Database) (apiKey : Bytes) (estimatedTokens : Int) : Int :=
  let tokensPerTknc := getTokensPerTknc gw.tokenRates gw.minerWalletAddress
  let tokensPerTknc :=
    if tokensPerTknc ≤ 0 ∧ apiKey ≠ [] then
      match findSpendingLimitByAPIKey db apiKey with
      | some e => if e.rateTokensPerTknc > 0 then e.rateTokensPerTknc else tokensPerTknc
      | none => tokensPerTknc
    else tokensPerTknc
  let rate := if tokensPerTknc > 0 then coin.tdiv tokensPerTknc else 1
  let rate := if rate ≤ 0 then 1 else rate
  let cost := i64 (estimatedTokens * rate)
  if cost < coin then coin else cost

def estimatedTokens (maxTokens : Int) (prompt : Bytes) : Int :=
  (if maxTokens > 0 then maxTokens else 100) + (prompt.length / 4 : Nat)

theorem coin_le_reservedCost (gw : Gateway) (db : Database) (apiKey : Bytes)
    (estimatedTokens : Int) : coin ≤ reservedCost gw db apiKey estimatedTokens := by
  unfold reservedCost
  dsimp only
  split <;> omega

section Table

variable {pending : PendingCosts} {apiKey : Bytes} {cost : Int}

theorem getPendingCost_reserve (hkey : apiKey ≠ []) (hcost : 0 < cost)
    (hnonneg : 0 ≤ pending apiKey) (hmax : pending apiKey + cost ≤ int64Max) :
    getPendingCost (reserveEscrowCost pending apiKey cost) apiKey = pending apiKey + cost := by
  simp only [int64Max] at hmax
  simp only [getPendingCost, reserveEscrowCost, hkey, Int.not_le.2 hcost, or_self, if_false,
    if_true]
  exact i64_of_fits (fits64_iff.2 (by omega))

theorem getPendingCost_release (hkey : apiKey ≠ []) (hcost : 0 < cost)
    (hle : cost ≤ pending apiKey) :
    getPendingCost (releaseEscrowCost pending apiKey cost) apiKey = pending apiKey - cost := by
  simp only [getPendingCost, releaseEscrowCost, hkey, Int.not_le.2 hcost, or_self, if_false,
    if_true]
  exact if_pos hle

end Table

/-! ## Runs -/

/-- The requests of one key.  A request that was admitted and has not reserved yet is represented by
the number of reservations made before its admission; `made` counts them and is not part of the
node. -/
structure FloodState where
  pending : PendingCosts
  waiting : List Nat
  inFlight : List Int
  made : Nat

/-- Steps of gateway and proxy threads; the later steps of a request name it by its position. -/
inductive Event where
  | canAfford (node : Node) (db : Database)
  | reserve (i : Nat) (gw : Gateway) (db : Database) (estimatedTokens : Int)
  | release (i : Nat)

def step (apiKey : Bytes) (s : FloodState) : Event → FloodState
  | .canAfford node db =>
      match (canAffordInference { node with pendingCosts := s.pending } db apiKey).1 with
      | .ok () => { s with waiting := s.waiting ++ [s.made] }
      | .error _ => s
  | .reserve i gw db estimatedTokens =>
      match s.waiting[i]? with
      | some _ =>
          { pending :=
              reserveEscrowCost s.pending apiKey (reservedCost gw db apiKey estimatedTokens)
            waiting := s.waiting.eraseIdx i
            inFlight := s.inFlight ++ [reservedCost gw db apiKey estimatedTokens]
            made := s.made + 1 }
      | none => s
  | .release i =>
      match s.inFlight[i]? with
      | some cost =>
          { s with
            pending := releaseEscrowCost s.pending apiKey cost
            inFlight := s.inFlight.eraseIdx i }
      | none => s

def start : FloodState :=
  { pending := fun _ => 0
    waiting := []
    inFlight := []
    made := 0 }

/-- Whenever an admission looks at the payer's wallet, it shows the balance. -/
def Steady (balance : Int) (apiKey : Bytes) : Event → Prop
  | .canAfford node db => ∀ e w, findSpendingLimitByAPIKey db apiKey = some e →
      findWalletByAddress node.toNodeContext e.userWallet = some w → w.available = balance
  | _ => True

/-- When a request reserves, less than the balance is reserved by the others. -/
def BelowBalance (balance : Int) (s : FloodState) : Event → Prop
  | .reserve i _ _ _ => s.waiting[i]? ≠ none → total id s.inFlight < balance
  | _ => True

/-- A request that reserves was not overtaken by another reservation since its admission, and the
sum stays in the register. -/
def NotOvertaken (apiKey : Bytes) (s : FloodState) : Event → Prop
  | .reserve i gw db estimatedTokens => ∀ stamp ∈ s.waiting[i]?, stamp = s.made ∧
      total id s.inFlight + reservedCost gw db apiKey estimatedTokens ≤ int64Max
  | _ => True

instance (balance : Int) (s : FloodState) (event : Event) :
    Decidable (BelowBalance balance s event) := by
  cases event <;> unfold BelowBalance <;> infer_instance

instance (apiKey : Bytes) (s : FloodState) (event : Event) :
    Decidable (NotOvertaken apiKey s event) := by
  cases event <;> unfold NotOvertaken <;> infer_instance

/-! ## Invariant -/

/-- The table holds the sum of what is in flight, and a request that nobody overtook was admitted
below the balance. -/
structure Inv (balance : Int) (apiKey : Bytes) (s : FloodState) : Prop where
  pending : getPendingCost s.pending apiKey = total id s.inFlight
  positive : ∀ cost ∈ s.inFlight, 0 < cost
  stamps : ∀ stamp ∈ s.waiting, stamp ≤ s.made
  newest : s.made ∈ s.waiting → total id s.inFlight < balance

variable {balance : Int} {apiKey : Bytes} {s : FloodState}

theorem inv_start (balance : Int) (apiKey : Bytes) : Inv balance apiKey start :=
  { pending := rfl
    positive := nofun
    stamps := nofun
    newest := nofun }

theorem Inv.total_nonneg (h : Inv balance apiKey s) : 0 ≤ total id s.inFlight :=
  AccountBook.total_nonneg fun cost hmem => Int.le_of_lt (h.positive cost hmem)

theorem Inv.canAfford {node : Node} {db : Database} (h : Inv balance apiKey s)
    (hsteady : Steady balance apiKey (.canAfford node db)) :
    Inv balance apiKey (step apiKey s (.canAfford node db)) := by
  simp only [step]
  split
  · rename_i hok
    rcases (canAffordInference_ok_iff _ _ _).1 hok with ⟨e, hfind, hadmissible⟩
    rcases hadmissible.funds with ⟨w, hw, _, hbelow⟩
    have hbalance := hsteady e w hfind hw
    have hpending := h.pending
    simp only [getPendingCost] at hpending
    refine ⟨h.pending, h.positive, ?_, ?_⟩
    · intro stamp hmem
      rcases mem_append.1 hmem with hmem | hmem
      · exact h.stamps stamp hmem
      · exact Nat.le_of_eq (mem_singleton.1 hmem)
    · intro _
      calc
        total id s.inFlight = s.pending apiKey := hpending.symm
        _ < w.available := hbelow
        _ = balance := hbalance
  · exact h

theorem Inv.belowBalance {event : Event} (h : Inv balance apiKey s)
    (hkept : NotOvertaken apiKey s event) : BelowBalance balance s event := by
  cases event with
  | canAfford node db => trivial
  | release i => trivial
  | reserve i gw db estimatedTokens =>
    intro hwaits
    rcases Option.ne_none_iff_exists'.1 hwaits with ⟨stamp, hget⟩
    have hmem := mem_of_getElem? hget
    rw [(hkept stamp hget).1] at hmem
    exact h.newest hmem

theorem Inv.reserve {i : Nat} {gw : Gateway} {db : Database} {estimatedTokens : Int}
    (hkey : apiKey ≠ []) (h : Inv balance apiKey s)
    (hkept : NotOvertaken apiKey s (.reserve i gw db estimatedTokens)) :
    Inv balance apiKey (step apiKey s (.reserve i gw db estimatedTokens)) := by
  simp only [step]
  split
  · rename_i stamp hget
    have hmax := (hkept stamp hget).2
    have hcost : 0 < reservedCost gw db apiKey estimatedTokens :=
      Int.lt_of_lt_of_le (by decide) (coin_le_reservedCost gw db apiKey estimatedTokens)
    have hnonneg := h.total_nonneg
    have hpending : s.pending apiKey = total id s.inFlight := h.pending
    refine ⟨?_, ?_, ?_, ?_⟩
    · rw [getPendingCost_reserve hkey hcost (by omega) (by omega), hpending, total_append]
      simp
    · intro cost hmem
      rcases mem_append.1 hmem with hmem | hmem
      · exact h.positive cost hmem
      · exact mem_singleton.1 hmem ▸ hcost
    · intro stamp' hmem
      exact Nat.le_succ_of_le (h.stamps stamp' (mem_of_mem_eraseIdx hmem))
    · -- all the other admissions are older than this reservation
      intro hmem
      exact absurd (h.stamps _ (mem_of_mem_eraseIdx hmem)) (Nat.not_succ_le_self _)
  · exact h

theorem Inv.release {i : Nat} (hkey : apiKey ≠ []) (h : Inv balance apiKey s) :
    Inv balance apiKey (step apiKey s (.release i)) := by
  simp only [step]
  split
  · rename_i cost hget
    have hcost := h.positive cost (List.mem_of_getElem? hget)
    -- the others hold the rest of the sum
    have hsplit : total id s.inFlight = cost + total id (s.inFlight.eraseIdx i) := by
      rcases List.getElem?_eq_some_iff.1 hget with ⟨hi, rfl⟩
      exact (total_perm (List.getElem_cons_eraseIdx_perm hi)).symm.trans (total_cons _ _)
    have hpositive : ∀ c ∈ s.inFlight.eraseIdx i, 0 < c := fun c hmem =>
      h.positive c (List.mem_of_mem_eraseIdx hmem)
    have hrest : 0 ≤ total id (s.inFlight.eraseIdx i) :=
      AccountBook.total_nonneg fun c hmem => Int.le_of_lt (hpositive c hmem)
    have hpending : s.pending apiKey = total id s.inFlight := h.pending
    refine ⟨?_, hpositive, h.stamps, ?_⟩
    · rw [getPendingCost_release hkey hcost (by omega)]
      change s.pending apiKey - cost = total id (s.inFlight.eraseIdx i)
      omega
    · intro hmem
      have hbelow := h.newest hmem
      change total id (s.inFlight.eraseIdx i) < balance
      omega
  · exact h

theorem inv_step {event : Event} (hkey : apiKey ≠ []) (h : Inv balance apiKey s)
    (hsteady : Steady balance apiKey event) (hkept : NotOvertaken apiKey s event) :
    Inv balance apiKey (step apiKey s event) := by
  cases event with
  | canAfford node db => exact h.canAfford hsteady
  | reserve i gw db estimatedTokens => exact h.reserve hkey hkept
  | release i => exact h.release hkey

theorem belowBalance_of_notOvertaken (hkey : apiKey ≠ []) {events : List Event}
    (hsteady : ∀ event ∈ events, Steady balance apiKey event)
    (hkept : GoodRun (step apiKey) (NotOvertaken apiKey) start events) :
    GoodRun (step apiKey) (BelowBalance balance) start events := by
  have hrun : GoodRun (step apiKey)
      (fun s event => Steady balance apiKey event ∧ NotOvertaken apiKey s event) start events :=
    goodRun_and.2 ⟨(goodRun_iff_forall_mem (step apiKey) start events).2 hsteady, hkept⟩
  exact hrun.mono (fun _ _ h hgood => inv_step hkey h hgood.1 hgood.2)
    (fun _ _ h hgood => h.belowBalance hgood.2) (inv_start balance apiKey)

def admission : Event :=
  .canAfford fundedGateway.toNode unlimitedDb

def reserveFirst (tokens : Int) : Event :=
  .reserve 0 fundedGateway unlimitedDb tokens

theorem steady_admission : Steady 500000000 (ascii "key") admission := by
  intro e w hfind hw
  have hselect : findSpendingLimitByAPIKey unlimitedDb (ascii "key") = some unlimitedRecord := by
    decide
  cases hselect.symm.trans hfind
  have hwallet : (findWalletByAddress fundedGateway.toNodeContext unlimitedRecord.userWallet).map
      (·.available) = some 500000000 := by decide
  rw [show fundedGateway.toNode.toNodeContext = fundedGateway.toNodeContext from rfl] at hw
  rw [hw] at hwallet
  exact Option.some.inj hwallet

def serialRun : List Event :=
  [admission, reserveFirst 2, admission, reserveFirst 2, .release 0]

theorem belowBalance_serial :
    ((∀ event ∈ serialRun, Steady 500000000 (ascii "key") event) ∧
      GoodRun (step (ascii "key")) (NotOvertaken (ascii "key")) start serialRun) ∧
    GoodRun (step (ascii "key")) (BelowBalance 500000000) start serialRun := by
  have hsteady : ∀ event ∈ serialRun, Steady 500000000 (ascii "key") event := by
    simp only [serialRun, List.forall_mem_cons]
    exact ⟨steady_admission, trivial, steady_admission, trivial, trivial, nofun⟩
  have hkept : GoodRun (step (ascii "key")) (NotOvertaken (ascii "key")) start serialRun := by
    decide +kernel
  exact ⟨⟨hsteady, hkept⟩, belowBalance_of_notOvertaken (by decide) hsteady hkept⟩

def floodRun : List Event :=
  [admission, admission, reserveFirst 5, reserveFirst 5]

theorem not_belowBalance_flood :
    (∀ event ∈ floodRun, Steady 500000000 (ascii "key") event) ∧
      getPendingCost (run (step (ascii "key")) start floodRun).pending (ascii "key") =
        1000000000 ∧
      ¬ GoodRun (step (ascii "key")) (BelowBalance 500000000) start floodRun := by
  refine ⟨?_, by decide +kernel, by decide +kernel⟩
  simp only [floodRun, List.forall_mem_cons]
  exact ⟨steady_admission, steady_admission, trivial, trivial, nofun⟩

end TKNC.Escrow.Reservation
