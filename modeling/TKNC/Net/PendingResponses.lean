import TKNC.Lib.EventMachine
import TKNC.Lib.Registry
import TKNC.Net.ApiProtocol

/-!
# PendingResponses — who completes a request to a peer

`m_pending_api_responses` holds the promises of the requests that were sent to peers, by request id:
those of `SendInferenceRequest` and those that the handler of APIREQ forwards for other peers.  An
APIRESP completes the promise under its id, whoever sent it; a failed send completes the promise
that is found under its own id, and a forwarded request that timed out erases its own id.

The machine interleaves the critical sections of any number of such requests in any order.  As a
history it keeps who caused a completion and whose entry was replaced; `isolated_iff_noCollision`
says in which runs the requests do not disturb each other.
-/

namespace TKNC.Net.PendingResponses

open Lib Lib.EventMachine Lib.Numeral Lib.Registry

/-! ## Requests and their promises -/

inductive Origin where
  | apiResp (peer : Int)
  | sendFailed (i : Nat)
  deriving DecidableEq

structure Completion where
  origin : Origin
  response : APIResponse
  deriving DecidableEq

inductive Phase where
  | sending
  | waiting
  | expired
  | timedOut
  deriving DecidableEq

structure Caller where
  forwarded : Bool
  peer : Int
  requestId : UInt64
  phase : Phase
  completion : Option Completion
  replaced : Bool
  deriving DecidableEq

def Caller.GaveUp (caller : Caller) : Prop :=
  caller.phase = .expired ∨ caller.phase = .timedOut

instance (caller : Caller) : Decidable caller.GaveUp :=
  inferInstanceAs (Decidable (_ ∨ _))

structure Table where
  pending : UInt64 → Option Nat
  callers : List Caller

def Table.initial : Table where
  pending := fun _ => none
  callers := []

inductive Event where
  /-- `SendInferenceRequest`, or the forwarding of an APIREQ, up to the registered promise. -/
  | register (forwarded : Bool) (peer : Int) (requestId : UInt64)
  /-- The peer of the request is connected and the message is pushed, or it is not. -/
  | push (i : Nat) (connected : Bool)
  | expire (i : Nat)
  | erase (i : Nat)
  | apiResp (peer : Int) (response : APIResponse)

def notConnected (requestId : UInt64) : APIResponse where
  content := ascii "Error: Peer not found or not connected"
  promptTokens := 0
  completionTokens := 0
  tokensUsed := 0
  cost := 0
  requestId
  signature := []

namespace Table

def setPhase (s : Table) (i : Nat) (phase : Phase) : Table :=
  { s with callers := s.callers.modify i fun caller => { caller with phase } }

def eraseId (s : Table) (requestId : UInt64) : Table :=
  { s with pending := Function.update s.pending requestId none }

def modifyHolder (s : Table) (requestId : UInt64) (f : Caller → Caller) : List Caller :=
  match s.pending requestId with
  | some i => s.callers.modify i f
  | none => s.callers

def complete (s : Table) (requestId : UInt64) (completion : Completion) : Table :=
  { s.eraseId requestId with
    callers := s.modifyHolder requestId fun caller =>
      { caller with completion := some completion } }

def step (s : Table) : Event → Table
  | .register forwarded peer requestId =>
      -- `m_pending_api_responses[request_id] = promise` writes over an entry that is there
      { pending := Function.update s.pending requestId (some s.callers.length)
        callers :=
          (s.modifyHolder requestId fun caller => { caller with replaced := true }) ++
            [{ forwarded
               peer
               requestId
               phase := .sending
               completion := none
               replaced := false }] }
  | .push i connected =>
      match s.callers[i]? with
      | some caller =>
          if caller.phase ≠ .sending then s
          -- the handler of APIREQ does not look at the result of the send
          else if connected ∨ caller.forwarded then s.setPhase i .waiting
          else
            (s.complete caller.requestId
              { origin := .sendFailed i, response := notConnected caller.requestId }).setPhase i
                .waiting
      | none => s
  | .expire i =>
      match s.callers[i]? with
      | some caller =>
          -- a caller of `SendInferenceRequest` gives up without erasing its id
          if caller.phase = .waiting ∧ caller.completion = none then
            s.setPhase i (if caller.forwarded then .expired else .timedOut)
          else s
      | none => s
  | .erase i =>
      match s.callers[i]? with
      | some caller =>
          if caller.phase = .expired then (s.eraseId caller.requestId).setPhase i .timedOut else s
      | none => s
  | .apiResp peer response =>
      -- the sender is not compared with the peer of the caller
      if response.requestId ≠ 0 then
        s.complete response.requestId { origin := .apiResp peer, response }
      else s

end Table

/-! ## Isolation -/

/-- The completion comes from the peer of the request, or from its own failed send. -/
def Completion.OwnedBy (completion : Completion) (i : Nat) (caller : Caller) : Prop :=
  completion.origin = .apiResp caller.peer ∨ completion.origin = .sendFailed i

/-- Nobody but its own peer completed the caller, and nobody replaced its entry, while it waited. -/
def Caller.IsolatedAs (i : Nat) (caller : Caller) : Prop :=
  ¬caller.GaveUp → caller.replaced = false ∧
    ∀ completion, caller.completion = some completion → completion.OwnedBy i caller

def Table.Isolated (s : Table) : Prop :=
  ∀ (i : Nat) (caller : Caller), s.callers[i]? = some caller → caller.IsolatedAs i

/-- A caller that has not given up is registered under the id. -/
def Table.Holds (s : Table) (requestId : UInt64) (i : Nat) (caller : Caller) : Prop :=
  s.pending requestId = some i ∧ s.callers[i]? = some caller ∧ ¬caller.GaveUp

/-- A new request brings an id that nobody is registered under; a send fails while nobody else is
registered under its id; and an APIRESP comes from the peer of the request under its id. -/
def NoCollision (s : Table) : Event → Prop
  | .register _ _ requestId => ∀ j caller, ¬s.Holds requestId j caller
  | .push i connected =>
      ∀ (caller : Caller), s.callers[i]? = some caller → caller.phase = .sending →
        connected = false → caller.forwarded = false →
        ∀ j other, s.Holds caller.requestId j other → j = i
  | .apiResp peer response =>
      response.requestId ≠ 0 →
        ∀ j caller, s.Holds response.requestId j caller → caller.peer = peer
  | _ => True

/-! ## What the table holds -/

def Caller.RegisteredAs (requestId : UInt64) (caller : Caller) : Prop :=
  caller.requestId = requestId ∧ caller.completion = none

def Table.Valid (s : Table) : Prop :=
  Owned Caller.RegisteredAs s.pending s.callers

namespace Table

variable {s : Table} {i : Nat} {caller : Caller}

theorem Valid.setPhase (h : s.Valid) (i : Nat) (phase : Phase) : (s.setPhase i phase).Valid :=
  Owned.modify h fun _ _ _ _ hregistered => hregistered

theorem Valid.eraseId (h : s.Valid) (requestId : UInt64) : (s.eraseId requestId).Valid :=
  Owned.erase h requestId

@[simp]
theorem length_modifyHolder (requestId : UInt64) (f : Caller → Caller) :
    (s.modifyHolder requestId f).length = s.callers.length := by
  unfold modifyHolder
  split
  · exact List.length_modify _ _ _
  · rfl

theorem getElem?_modifyHolder_eq_some {requestId : UInt64} {f : Caller → Caller} :
    (s.modifyHolder requestId f)[i]? = some caller ↔
      ∃ before, s.callers[i]? = some before ∧
        (if s.pending requestId = some i then f before else before) = caller := by
  unfold modifyHolder
  split
  · rename_i j hj
    rw [getElem?_modify_eq_some, hj]
    simp only [Option.some.injEq]
  · rename_i hnone
    simp [hnone]

/-- A change of the holder that keeps the phases leaves the course of all callers as it is. -/
theorem exists_modifyHolder (hcaller : s.callers[i]? = some caller) (requestId : UInt64)
    {f : Caller → Caller}
    (hf : ∀ caller, (f caller).forwarded = caller.forwarded ∧ (f caller).phase = caller.phase) :
    ∃ caller', (s.modifyHolder requestId f)[i]? = some caller' ∧
      caller'.forwarded = caller.forwarded ∧ caller'.phase = caller.phase := by
  refine ⟨_, getElem?_modifyHolder_eq_some.2 ⟨caller, hcaller, rfl⟩, ?_⟩
  split
  · exact hf caller
  · exact ⟨rfl, rfl⟩

theorem exists_complete (hcaller : s.callers[i]? = some caller) (requestId : UInt64)
    (completion : Completion) :
    ∃ caller', (s.complete requestId completion).callers[i]? = some caller' ∧
      caller'.forwarded = caller.forwarded ∧ caller'.phase = caller.phase :=
  exists_modifyHolder hcaller requestId fun _ => ⟨rfl, rfl⟩

theorem Valid.complete (h : s.Valid) (requestId : UInt64) (completion : Completion) :
    (s.complete requestId completion).Valid := by
  have herased := h.eraseId requestId
  unfold Table.complete modifyHolder
  split
  · rename_i i hi
    refine Owned.modify herased fun key caller hentry hcaller hregistered => ?_
    -- the caller is registered under its own id only, and that entry is gone
    obtain ⟨hne, _⟩ := update_none_eq_some.1 hentry
    have hid : caller.requestId = requestId := (Owned.fits h hi hcaller).1
    exact absurd (hregistered.1.symm.trans hid) hne
  · exact herased

theorem Valid.replaced (h : s.Valid) (requestId : UInt64) :
    Owned Caller.RegisteredAs s.pending
      (s.modifyHolder requestId fun caller => { caller with replaced := true }) := by
  unfold modifyHolder
  split
  · exact Owned.modify h fun _ _ _ _ hregistered => hregistered
  · exact h

theorem valid_register (h : s.Valid) (forwarded : Bool) (peer : Int) (requestId : UInt64) :
    (s.step (.register forwarded peer requestId)).Valid := by
  have hnew (f : Caller → Caller) (new : Caller) :
      (s.modifyHolder requestId f ++ [new])[s.callers.length]? = some new := by
    rw [← s.length_modifyHolder requestId f, List.getElem?_concat_length]
  exact Owned.insert ((h.replaced requestId).append _) (hnew _ _) ⟨rfl, rfl⟩

theorem valid_step (h : s.Valid) (event : Event) : (s.step event).Valid := by
  cases event with
  | register forwarded peer requestId => exact valid_register h forwarded peer requestId
  | push i connected =>
    simp only [step]
    split
    · split_ifs
      · exact h
      · exact h.setPhase i .waiting
      · exact (h.complete _ _).setPhase i .waiting
    · exact h
  | expire i =>
    simp only [step]
    split
    · split_ifs
      · exact h.setPhase i .expired
      · exact h.setPhase i .timedOut
      · exact h
    · exact h
  | erase i =>
    simp only [step]
    split
    · split_ifs
      · exact (h.eraseId _).setPhase i .timedOut
      · exact h
    · exact h
  | apiResp peer response =>
    simp only [step]
    split_ifs
    · exact h.complete _ _
    · exact h

/-! ## Which events keep the callers isolated -/

theorem forall_modifyHolder_iff (hvalid : s.Valid) (h : s.Isolated) (requestId : UInt64)
    (f : Caller → Caller) :
    (∀ (i : Nat) (caller : Caller), (s.modifyHolder requestId f)[i]? = some caller →
        caller.IsolatedAs i) ↔
      ∀ (i : Nat) (caller : Caller), s.pending requestId = some i → s.callers[i]? = some caller →
        (f caller).IsolatedAs i := by
  unfold modifyHolder
  split
  · rename_i j hj
    obtain ⟨caller, hcaller, _⟩ := hvalid requestId j hj
    rw [forall_getElem?_modify_iff h hcaller]
    constructor
    · intro hisolated i other hi hother
      obtain rfl : j = i := Option.some.inj (hj.symm.trans hi)
      obtain rfl : caller = other := Option.some.inj (hcaller.symm.trans hother)
      exact hisolated
    · intro hall
      exact hall j caller hj hcaller
  · rename_i hnone
    refine iff_of_true h fun i caller hi => ?_
    rw [hnone] at hi
    cases hi

theorem isolated_complete_iff (hvalid : s.Valid) (h : s.Isolated) (requestId : UInt64)
    (completion : Completion) :
    (s.complete requestId completion).Isolated ↔
      ∀ i caller, s.Holds requestId i caller → completion.OwnedBy i caller := by
  refine (forall_modifyHolder_iff hvalid h requestId _).trans ?_
  constructor
  · rintro hall i caller ⟨hentry, hcaller, hwaits⟩
    exact (hall i caller hentry hcaller hwaits).2 completion rfl
  · intro hheld i caller hentry hcaller hwaits
    refine ⟨(h i caller hcaller hwaits).1, ?_⟩
    rintro _ ⟨⟩
    exact hheld i caller ⟨hentry, hcaller, hwaits⟩

theorem isolated_register_iff (hvalid : s.Valid) (h : s.Isolated) (forwarded : Bool) (peer : Int)
    (requestId : UInt64) :
    (s.step (.register forwarded peer requestId)).Isolated ↔
      ∀ i caller, ¬s.Holds requestId i caller := by
  refine forall_getElem?_concat_iff.trans (Iff.trans (and_iff_left ?_) ?_)
  · exact fun _ => ⟨rfl, by rintro _ ⟨⟩⟩
  refine (forall_modifyHolder_iff hvalid h requestId _).trans ?_
  constructor
  · rintro hall i caller ⟨hentry, hcaller, hwaits⟩
    cases (hall i caller hentry hcaller hwaits).1
  · intro hfree i caller hentry hcaller hwaits
    exact absurd ⟨hentry, hcaller, hwaits⟩ (hfree i caller)

theorem isolated_setPhase (h : s.Isolated) (hcaller : s.callers[i]? = some caller) {phase : Phase}
    (hphase : caller.GaveUp → Caller.GaveUp { caller with phase }) :
    (s.setPhase i phase).Isolated :=
  (forall_getElem?_modify_iff h hcaller).2 fun hwaits =>
    h i caller hcaller fun hgaveUp => hwaits (hphase hgaveUp)

theorem isolated_waiting_iff (hcaller : s.callers[i]? = some caller)
    (hphase : caller.phase = .sending) : (s.setPhase i .waiting).Isolated ↔ s.Isolated := by
  constructor
  · intro h j other hother hwaits
    have hisolated := h j _ (getElem?_modify_eq_some.2 ⟨other, hother, rfl⟩)
    split at hisolated
    · exact hisolated (by simp [Caller.GaveUp])
    · exact hisolated hwaits
  · intro h
    exact isolated_setPhase h hcaller (by simp [Caller.GaveUp, hphase])

theorem isolated_sendFailed_iff (hvalid : s.Valid) (h : s.Isolated)
    (hcaller : s.callers[i]? = some caller) (hphase : caller.phase = .sending)
    (requestId : UInt64) (response : APIResponse) :
    ((s.complete requestId { origin := .sendFailed i, response }).setPhase i .waiting).Isolated ↔
      ∀ j other, s.Holds requestId j other → j = i := by
  obtain ⟨caller', hcaller', _, hphase'⟩ :=
    exists_complete hcaller requestId { origin := .sendFailed i, response }
  rw [isolated_waiting_iff hcaller' (hphase'.trans hphase), isolated_complete_iff hvalid h]
  refine forall_congr' fun j => forall_congr' fun other => imp_congr_right fun _ => ?_
  simp only [Completion.OwnedBy, reduceCtorEq, false_or, Origin.sendFailed.injEq, eq_comm]

theorem isolated_push_iff (hvalid : s.Valid) (h : s.Isolated) (i : Nat) (connected : Bool) :
    (s.step (.push i connected)).Isolated ↔ NoCollision s (.push i connected) := by
  simp only [step]
  split
  · rename_i caller hcaller
    have hsame {other : Caller} (hother : s.callers[i]? = some other) : caller = other :=
      Option.some.inj (hcaller.symm.trans hother)
    split_ifs with hphase hsent
    -- sent before
    · refine iff_of_true h fun other hother hsending => ?_
      exact absurd (hsame hother ▸ hsending) hphase
    -- the message went out, or the request is a forwarded one
    · have hsending : caller.phase = .sending := not_not.1 hphase
      refine iff_of_true ((isolated_waiting_iff hcaller hsending).2 h) ?_
      intro other hother _ hfailed hlocal
      rw [← hsame hother] at hlocal
      simp [hfailed, hlocal] at hsent
    -- the send of a local request failed
    · have hsending : caller.phase = .sending := not_not.1 hphase
      obtain ⟨rfl, hlocal⟩ : connected = false ∧ caller.forwarded = false := by simpa using hsent
      rw [isolated_sendFailed_iff hvalid h hcaller hsending]
      constructor
      · intro hown other hother _ _ _
        rwa [← hsame hother]
      · intro hcollision
        exact hcollision caller hcaller hsending rfl hlocal
  · rename_i hnone
    refine iff_of_true h fun caller hcaller => ?_
    rw [hnone] at hcaller
    cases hcaller

theorem isolated_step_iff (hvalid : s.Valid) (h : s.Isolated) (event : Event) :
    (s.step event).Isolated ↔ NoCollision s event := by
  cases event with
  | register forwarded peer requestId =>
    exact isolated_register_iff hvalid h forwarded peer requestId
  | push i connected => exact isolated_push_iff hvalid h i connected
  | expire i =>
    refine iff_of_true ?_ trivial
    simp only [step]
    split
    · rename_i caller hcaller
      split_ifs
      · exact isolated_setPhase h hcaller fun _ => Or.inl rfl
      · exact isolated_setPhase h hcaller fun _ => Or.inr rfl
      · exact h
    · exact h
  | erase i =>
    refine iff_of_true ?_ trivial
    simp only [step]
    split
    · rename_i caller hcaller
      split_ifs
      · exact isolated_setPhase (s := s.eraseId caller.requestId) h hcaller fun _ => Or.inr rfl
      · exact h
    · exact h
  | apiResp peer response =>
    simp only [step]
    split_ifs with hid
    · rw [isolated_complete_iff hvalid h]
      simp [NoCollision, Completion.OwnedBy, hid, eq_comm]
    · exact iff_of_true h fun hid' => absurd hid' hid

end Table

/-- In any interleaving, callers are completed by their own peers only and keep their entries if and
only if the ids never collide and every APIRESP comes from the peer that was asked. -/
theorem isolated_iff_noCollision (events : List Event) :
    Always Table.step Table.Isolated Table.initial events ↔
      GoodRun Table.step NoCollision Table.initial events := by
  have hstep (s : Table) (event : Event) (h : s.Valid) : (s.step event).Valid :=
    Table.valid_step h event
  have hkeep (s : Table) (event : Event) (hvalid : s.Valid) (h : s.Isolated) :
      (s.step event).Isolated ↔ NoCollision s event :=
    Table.isolated_step_iff hvalid h event
  have hinitial : Table.initial.Isolated := by
    rintro _ _ ⟨⟩
  exact always_iff_goodRun hstep hkeep (owned_empty : Table.initial.Valid) hinitial

def asked : List Event :=
  [.register false 5 1700000000000000, .push 0 true]

def forged : APIResponse where
  content := ascii "forged"
  promptTokens := 0
  completionTokens := 0
  tokensUsed := 1
  cost := 1
  requestId := 1700000000000000
  signature := []

/-- Peer 9 completes a request that went to peer 5; and an APIREQ that is forwarded to peer 6 takes
the entry of that request. -/
theorem asked_hijacked :
    ((run Table.step Table.initial (asked ++ [.apiResp 9 forged])).callers =
        [{ forwarded := false
           peer := 5
           requestId := 1700000000000000
           phase := .waiting
           completion := some { origin := .apiResp 9, response := forged }
           replaced := false }] ∧
      ¬Always Table.step Table.Isolated Table.initial (asked ++ [.apiResp 9 forged])) ∧
    ((run Table.step Table.initial (asked ++ [.register true 6 1700000000000000])).pending
        1700000000000000 = some 1 ∧
      ¬Always Table.step Table.Isolated Table.initial
        (asked ++ [.register true 6 1700000000000000])) := by
  refine ⟨⟨by decide, fun h => ?_⟩, by decide, fun h => ?_⟩
  · have hisolated := (h.last 0 _ rfl (by decide)).2 _ rfl
    revert hisolated
    simp [Completion.OwnedBy]
  · exact absurd (h.last 0 _ rfl (by decide)).1 (by decide)

end TKNC.Net.PendingResponses
