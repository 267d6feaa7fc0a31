import TKNC.Lib.ArgMax
import TKNC.Net.RemoteBackend

/-!
# BackendRouter — the backend that a request is dispatched to

`SelectBackend` picks a backend by the routing strategy; `Dispatch` asks it, and then the other
available backends in turn until one succeeds.  Two of the four strategies are to fall back to the
local-first rule, and for that the function calls itself.  The call is made with the strategy that
led to it, so `selectBackend` takes fuel, and `none` is a call that is not finished.

The clock is left out, and with it the latency of a response.
-/

namespace TKNC.Net

open Lib Lib.Numeral
open RemoteBackend (ComputeRequest)
open List Option

inductive HealthStatus where
  | unknown
  | healthy
  | degraded
  | unhealthy
  | offline
  deriving DecidableEq

structure BackendResponse extends RemoteBackend.ComputeResponse where
  health : HealthStatus
  backendId : Bytes
  deriving DecidableEq

namespace BackendResponse

def initial : BackendResponse where
  success := false
  content := []
  tokensUsed := 0
  cost := 0
  errorMessage := []
  health := .unknown
  backendId := []

def fail (response : BackendResponse) (errorMessage : Bytes) (health : HealthStatus) :
    BackendResponse :=
  { response with success := false, errorMessage, health }

end BackendResponse

structure ComputeBackend where
  id : Bytes
  isAvailable : Bool
  priority : Int
  supportsModel : Bytes → Bool
  infer : ComputeRequest → BackendResponse

namespace ComputeBackend

def answer (b : ComputeBackend) (request : ComputeRequest) : BackendResponse :=
  { b.infer request with backendId := b.id }

end ComputeBackend

/-! ## Router -/

inductive RoutingStrategy where
  | localFirst
  | roundRobin
  | latencyBased
  | scoreBased
  deriving DecidableEq

structure BackendRouter where
  backends : List ComputeBackend
  strategy : RoutingStrategy
  roundRobinCounter : UInt64

namespace BackendRouter

def setStrategy (router : BackendRouter) (strategy : RoutingStrategy) : BackendRouter :=
  { router with strategy }

def register (router : BackendRouter) (backend : ComputeBackend) : BackendRouter :=
  { router with
    backends := router.backends.filter (fun b => ¬b.id = backend.id) ++ [backend] }

def unregister (router : BackendRouter) (id : Bytes) : BackendRouter :=
  { router with backends := router.backends.eraseP fun b => decide (b.id = id) }

def ids (router : BackendRouter) : List Bytes :=
  router.backends.map (·.id)

theorem nodup_ids_register {router : BackendRouter} (h : router.ids.Nodup)
    (backend : ComputeBackend) : (router.register backend).ids.Nodup := by
  rw [ids, register, map_append, map_singleton, nodup_append]
  refine ⟨h.sublist (filter_sublist.map _), pairwise_singleton _ _, ?_⟩
  intro id hid other hother
  obtain ⟨b, hb, rfl⟩ := mem_map.1 hid
  rw [mem_singleton.1 hother]
  exact of_decide_eq_true (mem_filter.1 hb).2

def selectLocalFirst (backends : List ComputeBackend) (model : Bytes) : Option Nat :=
  (ArgMax.scan (fun entry : ComputeBackend × Nat => entry.1.priority) (-1)
    (backends.zipIdx.filter fun entry =>
      entry.1.isAvailable && entry.1.supportsModel model)).1.map (·.2)

def selectRoundRobin (backends : List ComputeBackend) (counter : UInt64) : Option Nat :=
  let start := counter.toNat % backends.length
  ((List.range backends.length).map fun i => (start + i) % backends.length).find? fun idx =>
    backends[idx]?.any (·.isAvailable)

def selectBackend (router : BackendRouter) (request : ComputeRequest) :
    Nat → Option (Option Nat × UInt64)
  | 0 => none
  | fuel + 1 =>
      if router.backends.isEmpty then some (none, router.roundRobinCounter)
      else
        match router.strategy with
        | .localFirst =>
            some (selectLocalFirst router.backends request.model, router.roundRobinCounter)
        | .roundRobin =>
            match selectRoundRobin router.backends router.roundRobinCounter with
            | some idx => some (some idx, router.roundRobinCounter + 1)
            | none => some (none, router.roundRobinCounter)
        -- both leave the switch for "Default fallback: LOCAL_FIRST"
        | .latencyBased | .scoreBased => selectBackend router request fuel

/-- The loop passes over the primary backend, "Already tried", and over those that are not
available. -/
def Skips (primary : Option Nat) (entry : ComputeBackend × Nat) : Prop :=
  some entry.2 = primary ∨ entry.1.isAvailable = false

instance (primary : Option Nat) (entry : ComputeBackend × Nat) : Decidable (Skips primary entry) :=
  inferInstanceAs (Decidable (_ ∨ _))

/-- The loop over the other backends: what it returns, or else the response it is left with, and
the places that were asked. -/
def fallback (request : ComputeRequest) (primary : Option Nat) :
    List (ComputeBackend × Nat) → BackendResponse →
      Except BackendResponse BackendResponse × List Nat
  | [], response => (.error response, [])
  | (b, idx) :: rest, response =>
      if Skips primary (b, idx) then fallback request primary rest response
      else if (b.answer request).success then (.ok (b.answer request), [idx])
      else
        let r := fallback request primary rest (b.answer request)
        (r.1, idx :: r.2)

structure Dispatched where
  response : BackendResponse
  asked : List Nat
  router : BackendRouter

def exhausted (router : BackendRouter) (response : BackendResponse) : BackendResponse :=
  if router.backends.isEmpty then
    response.fail (ascii "No compute backends registered in router") .offline
  else
    response.fail (ascii "All compute backends exhausted or unavailable") .unhealthy

def tryOthers (router : BackendRouter) (request : ComputeRequest) (primary : Option Nat)
    (response : BackendResponse) : BackendResponse × List Nat :=
  match fallback request primary router.backends.zipIdx response with
  | (.ok response, asked) => (response, asked)
  | (.error response, asked) => (router.exhausted response, asked)

def dispatchFrom (router : BackendRouter) (request : ComputeRequest) (primary : Option Nat) :
    BackendResponse × List Nat :=
  match primary.bind fun idx => router.backends[idx]?.map (·, idx) with
  | some (b, idx) =>
      if (b.answer request).success then (b.answer request, [idx])
      else
        let r := router.tryOthers request primary (b.answer request)
        (r.1, idx :: r.2)
  | none => router.tryOthers request primary .initial

def dispatch (router : BackendRouter) (request : ComputeRequest) (fuel : Nat) :
    Option Dispatched :=
  (router.selectBackend request fuel).map fun (primary, counter) =>
    let r := router.dispatchFrom request primary
    ⟨r.1, r.2, { router with roundRobinCounter := counter }⟩

/-! ## Selection -/

variable {router : BackendRouter} {request : ComputeRequest}

/-- The place is that of an available backend. -/
def AvailableAt (backends : List ComputeBackend) (idx : Nat) : Prop :=
  ∃ b, backends[idx]? = some b ∧ b.isAvailable = true

variable {backends : List ComputeBackend} {idx : Nat}

theorem availableAt_selectLocalFirst {model : Bytes}
    (h : selectLocalFirst backends model = some idx) : AvailableAt backends idx := by
  obtain ⟨⟨b, place⟩, hscan, rfl⟩ := map_eq_some_iff.1 h
  obtain ⟨hmem, hpass⟩ := mem_filter.1 (ArgMax.mem_of_scan hscan)
  exact ⟨b, mem_zipIdx_iff_getElem?.1 hmem, (Bool.and_eq_true_iff.1 hpass).1⟩

theorem availableAt_selectRoundRobin {counter : UInt64}
    (h : selectRoundRobin backends counter = some idx) : AvailableAt backends idx := by
  rw [selectRoundRobin, find?_eq_some_iff_append] at h
  exact (any_eq_true _ _).1 h.1

theorem availableAt_selectBackend {fuel idx : Nat} {counter : UInt64}
    (h : router.selectBackend request fuel = some (some idx, counter)) :
    AvailableAt router.backends idx := by
  induction fuel with
  | zero => cases h
  | succ fuel ih =>
    rw [selectBackend] at h
    split at h
    · cases h
    · split at h
      · simp only [some.injEq, Prod.mk.injEq] at h
        exact availableAt_selectLocalFirst h.1
      · split at h
        · rename_i place hplace
          simp only [some.injEq, Prod.mk.injEq] at h
          exact availableAt_selectRoundRobin (h.1 ▸ hplace)
        · simp at h
      · exact ih h
      · exact ih h

/-- A router whose strategy is implemented, or that has nothing to select from. -/
def Selects (router : BackendRouter) : Prop :=
  router.backends = [] ∨ router.strategy = .localFirst ∨ router.strategy = .roundRobin

theorem selectBackend_terminates (h : router.Selects) (request : ComputeRequest) :
    ∃ selected, router.selectBackend request 1 = some selected := by
  rw [selectBackend]
  split
  · exact ⟨_, rfl⟩
  · rename_i hne
    rcases h with hnil | hlocal | hround
    · rw [hnil] at hne
      exact absurd rfl hne
    · rw [hlocal]
      exact ⟨_, rfl⟩
    · rw [hround]
      dsimp only
      split
      · exact ⟨_, rfl⟩
      · exact ⟨_, rfl⟩

theorem selectBackend_diverges (h : ¬router.Selects) (request : ComputeRequest) (fuel : Nat) :
    router.selectBackend request fuel = none := by
  obtain ⟨hne, hstrategy⟩ := not_or.1 h
  induction fuel with
  | zero => rfl
  | succ fuel ih =>
    rw [selectBackend, if_neg (by simpa using hne)]
    cases hs : router.strategy with
    | localFirst => exact absurd (Or.inl hs) hstrategy
    | roundRobin => exact absurd (Or.inr hs) hstrategy
    | latencyBased => exact ih
    | scoreBased => exact ih

/-! ## The loop over the other backends -/

def others (primary : Option Nat) (entries : List (ComputeBackend × Nat)) :
    List (ComputeBackend × Nat) :=
  entries.filter fun entry => decide ¬Skips primary entry

variable {primary : Option Nat}

theorem others_cons_of_skips {entry : ComputeBackend × Nat} (h : Skips primary entry)
    (entries : List (ComputeBackend × Nat)) :
    others primary (entry :: entries) = others primary entries :=
  filter_cons_of_neg (by simpa using h)

theorem others_cons_of_asks {entry : ComputeBackend × Nat} (h : ¬Skips primary entry)
    (entries : List (ComputeBackend × Nat)) :
    others primary (entry :: entries) = entry :: others primary entries :=
  filter_cons_of_pos (by simpa using h)

theorem mem_others {b : ComputeBackend} :
    (b, idx) ∈ others primary backends.zipIdx ↔
      backends[idx]? = some b ∧ some idx ≠ primary ∧ b.isAvailable = true := by
  rw [others, mem_filter, mem_zipIdx_iff_getElem?, decide_eq_true_iff, Skips, not_or,
    Bool.not_eq_false]

theorem asked_fallback (request : ComputeRequest) (primary : Option Nat)
    (entries : List (ComputeBackend × Nat)) (response : BackendResponse) :
    (fallback request primary entries response).2.Sublist
      ((others primary entries).map (·.2)) := by
  induction entries generalizing response with
  | nil => exact List.Sublist.slnil
  | cons entry entries ih =>
    rw [fallback]
    by_cases hskip : Skips primary entry
    · rw [if_pos hskip, others_cons_of_skips hskip]
      exact ih response
    · rw [if_neg hskip, others_cons_of_asks hskip, map_cons]
      split
      · exact (nil_sublist _).cons_cons _
      · exact (ih _).cons_cons _

/-- The loop returns a response if one of the backends it has to ask succeeds, and is left with one
otherwise. -/
theorem fallback_cases (entries : List (ComputeBackend × Nat)) (response : BackendResponse) :
    (∃ r, (fallback request primary entries response).1 = .ok r ∧ r.success = true ∧
      ∃ entry ∈ others primary entries, (entry.1.infer request).success = true) ∨
    ∃ r, (fallback request primary entries response).1 = .error r ∧
      ∀ entry ∈ others primary entries, ¬(entry.1.infer request).success = true := by
  induction entries generalizing response with
  | nil => exact Or.inr ⟨response, rfl, forall_mem_nil _⟩
  | cons entry entries ih =>
    rw [fallback]
    by_cases hskip : Skips primary entry
    · rw [if_pos hskip, others_cons_of_skips hskip]
      exact ih response
    · rw [if_neg hskip, others_cons_of_asks hskip]
      by_cases hsuccess : (entry.1.answer request).success = true
      · rw [if_pos hsuccess]
        exact Or.inl ⟨_, rfl, hsuccess, entry, mem_cons_self, hsuccess⟩
      · rw [if_neg hsuccess]
        rcases ih (entry.1.answer request) with ⟨r, hr, hs, other, hmem, hother⟩ | ⟨r, hr, hall⟩
        · exact Or.inl ⟨r, hr, hs, other, mem_cons_of_mem _ hmem, hother⟩
        · exact Or.inr ⟨r, hr, forall_mem_cons.2 ⟨hsuccess, hall⟩⟩

theorem success_exhausted (response : BackendResponse) :
    ¬(router.exhausted response).success = true := by
  rw [exhausted]
  split <;> exact Bool.false_ne_true

theorem tryOthers_success_iff (response : BackendResponse) :
    (router.tryOthers request primary response).1.success = true ↔
      ∃ entry ∈ others primary router.backends.zipIdx, (entry.1.infer request).success = true := by
  rw [tryOthers]
  rcases fallback_cases router.backends.zipIdx response with ⟨r, hr, hs, hsome⟩ | ⟨r, hr, hall⟩
  · generalize fallback request primary router.backends.zipIdx response = outcome at hr
    obtain ⟨_, asked⟩ := outcome
    cases hr
    exact ⟨fun _ => hsome, fun _ => hs⟩
  · generalize fallback request primary router.backends.zipIdx response = outcome at hr
    obtain ⟨_, asked⟩ := outcome
    cases hr
    refine ⟨fun h => absurd h (success_exhausted r), ?_⟩
    rintro ⟨entry, hmem, hs⟩
    exact absurd hs (hall entry hmem)

theorem asked_tryOthers (response : BackendResponse) :
    (router.tryOthers request primary response).2.Sublist
      ((others primary router.backends.zipIdx).map (·.2)) := by
  have hasked := asked_fallback request primary router.backends.zipIdx response
  rw [tryOthers]
  split
  · rename_i heq
    rw [heq] at hasked
    exact hasked
  · rename_i heq
    rw [heq] at hasked
    exact hasked

/-! ## Dispatch -/

/-- Every backend is asked at most once and only if it is available, and the response is a success
exactly if an available backend has one. -/
structure Complete (backends : List ComputeBackend) (request : ComputeRequest)
    (response : BackendResponse) (asked : List Nat) : Prop where
  once : asked.Nodup
  available : ∀ idx ∈ asked, AvailableAt backends idx
  success_iff : response.success = true ↔
    ∃ b ∈ backends, b.isAvailable = true ∧ (b.infer request).success = true

theorem nodup_others (primary : Option Nat) (backends : List ComputeBackend) :
    ((others primary backends.zipIdx).map (·.2)).Nodup := by
  have hplaces : (backends.zipIdx.map (·.2)).Nodup := by
    rw [zipIdx_map_snd]
    exact nodup_range'
  exact hplaces.sublist (filter_sublist.map _)

theorem complete_tryOthers (response : BackendResponse) :
    Complete router.backends request (router.tryOthers request none response).1
      (router.tryOthers request none response).2 where
  once := (nodup_others none router.backends).sublist (asked_tryOthers response)
  available idx hmem := by
    obtain ⟨⟨b, place⟩, hentry, rfl⟩ := mem_map.1 ((asked_tryOthers response).subset hmem)
    obtain ⟨hb, -, havailable⟩ := mem_others.1 hentry
    exact ⟨b, hb, havailable⟩
  success_iff := by
    rw [tryOthers_success_iff]
    constructor
    · rintro ⟨⟨b, idx⟩, hentry, hs⟩
      obtain ⟨hb, -, havailable⟩ := mem_others.1 hentry
      exact ⟨b, mem_of_getElem? hb, havailable, hs⟩
    · rintro ⟨b, hmem, havailable, hs⟩
      obtain ⟨idx, hb⟩ := mem_iff_getElem?.1 hmem
      exact ⟨(b, idx), mem_others.2 ⟨hb, by simp, havailable⟩, hs⟩

theorem complete_tryOthers_of_failed {b : ComputeBackend} (hb : router.backends[idx]? = some b)
    (havailable : b.isAvailable = true) (hfailed : ¬(b.infer request).success = true)
    (response : BackendResponse) :
    Complete router.backends request (router.tryOthers request (some idx) response).1
      (idx :: (router.tryOthers request (some idx) response).2) where
  once := by
    refine nodup_cons.2
      ⟨?_, (nodup_others _ router.backends).sublist (asked_tryOthers response)⟩
    intro hmem
    obtain ⟨⟨b', place⟩, hentry, rfl⟩ := mem_map.1 ((asked_tryOthers response).subset hmem)
    exact (mem_others.1 hentry).2.1 rfl
  available place hmem := by
    rcases mem_cons.1 hmem with rfl | hmem
    · exact ⟨b, hb, havailable⟩
    · obtain ⟨⟨b', place⟩, hentry, rfl⟩ := mem_map.1 ((asked_tryOthers response).subset hmem)
      obtain ⟨hb', -, havailable'⟩ := mem_others.1 hentry
      exact ⟨b', hb', havailable'⟩
  success_iff := by
    rw [tryOthers_success_iff]
    constructor
    · rintro ⟨⟨b', place⟩, hentry, hs⟩
      obtain ⟨hb', -, havailable'⟩ := mem_others.1 hentry
      exact ⟨b', mem_of_getElem? hb', havailable', hs⟩
    · rintro ⟨b', hmem, havailable', hs⟩
      obtain ⟨place, hb'⟩ := mem_iff_getElem?.1 hmem
      refine ⟨(b', place), mem_others.2 ⟨hb', ?_, havailable'⟩, hs⟩
      -- the backend that has failed is not the one that succeeds
      rintro ⟨⟩
      rw [hb, some.injEq] at hb'
      exact hfailed (hb' ▸ hs)

theorem complete_dispatchFrom (h : ∀ idx, primary = some idx → AvailableAt router.backends idx) :
    Complete router.backends request (router.dispatchFrom request primary).1
      (router.dispatchFrom request primary).2 := by
  cases primary with
  | none => exact complete_tryOthers .initial
  | some idx =>
    obtain ⟨b, hb, havailable⟩ := h idx rfl
    rw [dispatchFrom, bind_some, hb, map_some]
    dsimp only
    by_cases hs : (b.answer request).success = true
    · rw [if_pos hs]
      exact
        { once := pairwise_singleton _ idx
          available := by
            intro place hmem
            rw [mem_singleton.1 hmem]
            exact ⟨b, hb, havailable⟩
          success_iff := ⟨fun _ => ⟨b, mem_of_getElem? hb, havailable, hs⟩, fun _ => hs⟩ }
    · rw [if_neg hs]
      exact complete_tryOthers_of_failed hb havailable hs _

theorem complete_of_dispatch (router : BackendRouter) {fuel : Nat} {d : Dispatched}
    (h : router.dispatch request fuel = some d) :
    Complete router.backends request d.response d.asked := by
  obtain ⟨⟨primary, counter⟩, hselected, rfl⟩ := map_eq_some_iff.1 h
  apply complete_dispatchFrom
  rintro idx rfl
  exact availableAt_selectBackend hselected

/-- A request is dispatched, completely, exactly if the strategy is one of the two that are
implemented or there is no backend. -/
theorem dispatch_complete_iff (router : BackendRouter) (strategy : RoutingStrategy)
    (request : ComputeRequest) :
    ((∃ fuel selected, (router.setStrategy strategy).selectBackend request fuel = some selected) ∧
      (∃ fuel d, (router.setStrategy strategy).dispatch request fuel = some d) ∧
      ∀ fuel d, (router.setStrategy strategy).dispatch request fuel = some d →
        Complete router.backends request d.response d.asked) ↔
    router.backends = [] ∨ strategy = .localFirst ∨ strategy = .roundRobin := by
  constructor
  · rintro ⟨⟨fuel, selected, hselected⟩, -, -⟩
    by_contra hnot
    have hselects : ¬(router.setStrategy strategy).Selects := hnot
    have hnone := selectBackend_diverges hselects request fuel
    rw [hselected] at hnone
    cases hnone
  · intro h
    have hselects : (router.setStrategy strategy).Selects := h
    obtain ⟨selected, hselected⟩ := selectBackend_terminates hselects request
    exact ⟨⟨1, selected, hselected⟩, ⟨1, _, congrArg (Option.map _) hselected⟩,
      fun fuel d hd => complete_of_dispatch (router.setStrategy strategy) hd⟩

/-- One available backend that always succeeds, under a strategy that is not implemented yet: the
selection does not end. -/
theorem selectBackend_latencyBased_diverges :
    ¬∃ fuel selected,
      (({ backends := [{ id := ascii "local", isAvailable := true, priority := 100,
                         supportsModel := fun _ => true,
                         infer := fun _ => { BackendResponse.initial with success := true } }],
          strategy := .localFirst, roundRobinCounter := 0 } : BackendRouter).setStrategy
        .latencyBased).selectBackend ⟨[], [], [], 0⟩ fuel = some selected := by
  rintro ⟨fuel, selected, hselected⟩
  rw [selectBackend_diverges (by simp [Selects, setStrategy])] at hselected
  cases hselected

inductive RouterCall where
  | register (backend : ComputeBackend)
  | unregister (id : Bytes)
  | setStrategy (strategy : RoutingStrategy)
  | dispatch (request : ComputeRequest)

def new : BackendRouter :=
  ⟨[], .localFirst, 0⟩

def call (router : BackendRouter) : RouterCall → BackendRouter
  | .register backend => router.register backend
  | .unregister id => router.unregister id
  | .setStrategy strategy => router.setStrategy strategy
  -- a selection that does not end changes nothing
  | .dispatch request => (router.dispatch request 1).elim router (·.router)

theorem nodup_ids_call (h : router.ids.Nodup) (c : RouterCall) : (router.call c).ids.Nodup := by
  cases c with
  | register backend => exact nodup_ids_register h backend
  | unregister id => exact h.sublist (eraseP_sublist.map _)
  | setStrategy strategy => exact h
  | dispatch request =>
    rw [call, dispatch]
    cases router.selectBackend request 1 <;> exact h

/-- `Unregister` stops at the first backend of the id, and yet nothing else has that id. -/
theorem ids_unregister_run (calls : List RouterCall) (id : Bytes) :
    ((EventMachine.run call new calls).unregister id).ids =
      (EventMachine.run call new calls).ids.filter (· ≠ id) := by
  have hstep : ∀ router c, router.ids.Nodup → (call router c).ids.Nodup :=
    fun _ c h => nodup_ids_call h c
  have hnodup := EventMachine.run_invariant hstep (s := new) nodup_nil calls
  have herase := hnodup.erase_eq_filter id
  rw [erase_eq_eraseP', ids, eraseP_map, Function.comp_def] at herase
  grind [ids, unregister]

end BackendRouter

end TKNC.Net
