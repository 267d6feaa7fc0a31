import TKNC.Net.PendingResponses

/-!
# MessageThread — forwarding on the thread that processes messages

One thread takes the messages of all peers from their queues.  When it forwards an APIREQ to a miner
it waits on the promise of that request inside the handler, and the APIRESP that would complete the
promise is a message in a queue.  Other threads of the node go on meanwhile: messages arrive, time
passes, and `SendInferenceRequest` registers and completes promises of its own.

`Node.table_run` says that the table goes through a run of the machine of `PendingResponses`.
`answer_never_relayed` says that no run relays the answer of a miner, and `Node.Valid.replies` what
the requester gets instead.
-/

namespace TKNC.Net.MessageThread

open Lib Lib.EventMachine Lib.Numeral Lib.Registry
open PendingResponses (Caller Completion Origin Table)

inductive Message where
  | apiReq (request : APIRequest)
  | apiResp (response : APIResponse)
  | other
  deriving DecidableEq

inductive Thread where
  | idle
  | sending (i : Nat) (requester : Int) (requestId : UInt64)
  | waiting (i : Nat) (requester : Int) (requestId : UInt64) (since : Nat)
  | expired (i : Nat) (requester : Int) (requestId : UInt64) (since : Nat)
  deriving DecidableEq

/-- An APIRESP of the forwarding handler to its requester; `origin` is that of the completion it
relays, and `none` for the text about a timeout. -/
structure Reply where
  requester : Int
  response : APIResponse
  origin : Option Origin
  waited : Nat
  deriving DecidableEq

structure Node where
  table : Table
  inbox : Int → List Message
  thread : Thread
  /-- Seconds of the steady clock. -/
  now : Nat
  replies : List Reply

def Node.initial : Node where
  table := Table.initial
  inbox := fun _ => []
  thread := .idle
  now := 0
  replies := []

inductive Event where
  | arrive (peer : Int) (message : Message)
  /-- The thread takes the next message of a peer.  For an APIREQ, `route` is the peer that
  `SelectBestMinerPeer` names, or `none` if the request was served or refused before. -/
  | process (peer : Int) (route : Option Int)
  | startWait
  | wake
  | timeout
  | giveUp
  | elapse (seconds : Nat)
  /-- `SendInferenceRequest` on another thread, and the result of its send. -/
  | send (peer : Int) (requestId : UInt64)
  | push (i : Nat) (connected : Bool)

def minerTimeout (requestId : UInt64) : APIResponse where
  content := ascii "Error: Miner inference timeout"
  promptTokens := 0
  completionTokens := 0
  tokensUsed := 0
  cost := 0
  requestId
  signature := []

def timeoutSeconds : Nat := 86400

namespace Node

def completion (s : Node) (i : Nat) : Option Completion :=
  s.table.callers[i]?.bind Caller.completion

def handle (s : Node) (peer : Int) (route : Option Int) : Message → Node
  | .apiReq request =>
      match route with
      | some target =>
          if 0 ≤ target ∧ target ≠ peer then
            { s with
              table := s.table.step (.register true target request.requestId)
              thread := .sending s.table.callers.length peer request.requestId }
          else s
      | none => s
  | .apiResp response => { s with table := s.table.step (.apiResp peer response) }
  | .other => s

def step (s : Node) : Event → Node
  | .arrive peer message =>
      { s with inbox := Function.update s.inbox peer (s.inbox peer ++ [message]) }
  | .process peer route =>
      -- while the thread is inside a handler it takes no message of any peer
      match s.thread, s.inbox peer with
      | .idle, message :: rest =>
          { s with inbox := Function.update s.inbox peer rest }.handle peer route message
      | _, _ => s
  | .startWait =>
      match s.thread with
      | .sending i requester requestId =>
          -- whether the miner was connected is not looked at
          { s with
            table := s.table.step (.push i true)
            thread := .waiting i requester requestId s.now }
      | _ => s
  | .wake =>
      match s.thread with
      | .waiting i requester _ since =>
          match s.completion i with
          | some completion =>
              { s with
                thread := .idle
                replies := s.replies ++
                  [{ requester
                     response := completion.response
                     origin := some completion.origin
                     waited := s.now - since }] }
          | none => s
      | _ => s
  | .timeout =>
      match s.thread with
      | .waiting i requester requestId since =>
          if s.completion i = none ∧ since + timeoutSeconds ≤ s.now then
            { s with
              table := s.table.step (.expire i)
              thread := .expired i requester requestId since }
          else s
      | _ => s
  | .giveUp =>
      match s.thread with
      | .expired i requester requestId since =>
          { s with
            table := s.table.step (.erase i)
            thread := .idle
            replies := s.replies ++
              [{ requester
                 response := minerTimeout requestId
                 origin := none
                 waited := s.now - since }] }
      | _ => s
  | .elapse seconds => { s with now := s.now + seconds }
  | .send peer requestId => { s with table := s.table.step (.register false peer requestId) }
  | .push i connected =>
      match s.table.callers[i]? with
      | some caller =>
          if caller.forwarded then s else { s with table := s.table.step (.push i connected) }
      | none => s

end Node

/-! ## The thread drives the table -/

theorem Node.table_handle (s : Node) (peer : Int) (route : Option Int) (message : Message) :
    (s.handle peer route message).table = s.table ∨
      ∃ tableEvent, (s.handle peer route message).table = s.table.step tableEvent := by
  cases message with
  | apiReq request =>
    simp only [handle]
    split
    · rename_i target
      split_ifs
      · exact Or.inr ⟨.register true target request.requestId, rfl⟩
      · exact Or.inl rfl
    · exact Or.inl rfl
  | apiResp response => exact Or.inr ⟨.apiResp peer response, rfl⟩
  | other => exact Or.inl rfl

theorem Node.table_step (s : Node) (event : Event) :
    (s.step event).table = s.table ∨
      ∃ tableEvent, (s.step event).table = s.table.step tableEvent := by
  cases event with
  | arrive peer message => exact Or.inl rfl
  | process peer route =>
    simp only [step]
    split
    · rename_i message rest _ _
      exact table_handle { s with inbox := Function.update s.inbox peer rest } peer route message
    · exact Or.inl rfl
  | startWait =>
    simp only [step]
    split
    · rename_i i _ _ _
      exact Or.inr ⟨.push i true, rfl⟩
    · exact Or.inl rfl
  | wake =>
    simp only [step]
    split
    · split <;> exact Or.inl rfl
    · exact Or.inl rfl
  | timeout =>
    simp only [step]
    split
    · rename_i i _ _ _ _
      split_ifs
      · exact Or.inr ⟨.expire i, rfl⟩
      · exact Or.inl rfl
    · exact Or.inl rfl
  | giveUp =>
    simp only [step]
    split
    · rename_i i _ _ _ _
      exact Or.inr ⟨.erase i, rfl⟩
    · exact Or.inl rfl
  | elapse seconds => exact Or.inl rfl
  | send peer requestId => exact Or.inr ⟨.register false peer requestId, rfl⟩
  | push i connected =>
    simp only [step]
    split
    · split_ifs
      · exact Or.inl rfl
      · exact Or.inr ⟨.push i connected, rfl⟩
    · exact Or.inl rfl

theorem Node.table_run (events : List Event) :
    ∃ tableEvents, (run step initial events).table = run Table.step Table.initial tableEvents := by
  have hstep (s : Node) (event : Event)
      (h : ∃ tableEvents, s.table = run Table.step Table.initial tableEvents) :
      ∃ tableEvents, (s.step event).table = run Table.step Table.initial tableEvents := by
    obtain ⟨tableEvents, htable⟩ := h
    rcases s.table_step event with hsame | ⟨tableEvent, hnext⟩
    · exact ⟨tableEvents, hsame.trans htable⟩
    · refine ⟨tableEvents ++ [tableEvent], ?_⟩
      rw [hnext, htable, run, run, List.foldl_append]
      rfl
  exact run_invariant hstep ⟨[], rfl⟩ events

/-! ## The requests of the thread -/

def Thread.current : Thread → Option (Nat × PendingResponses.Phase)
  | .idle => none
  | .sending i _ _ => some (i, .sending)
  | .waiting i _ _ _ => some (i, .waiting)
  | .expired i _ _ _ => some (i, .expired)

/-- The thread has at most one forwarded request in the table, the one it works on, and no forwarded
request was ever completed by an APIRESP. -/
structure Settled (t : Table) (thread : Thread) : Prop where
  valid : t.Valid
  current : ∀ i phase, thread.current = some (i, phase) →
    ∃ caller, t.callers[i]? = some caller ∧ caller.forwarded = true ∧ caller.phase = phase
  registered : ∀ requestId (i : Nat) (caller : Caller), t.pending requestId = some i →
    t.callers[i]? = some caller → caller.forwarded = true →
    ∃ phase, thread.current = some (i, phase)
  completed : ∀ (i : Nat) (caller : Caller), t.callers[i]? = some caller →
    caller.forwarded = true →
    ∀ completion, caller.completion = some completion → ∃ j, completion.origin = .sendFailed j

section Settled

variable {t : Table} {thread thread' : Thread} {i : Nat} {caller : Caller}

variable {requestId : UInt64}

theorem Settled.complete (h : Settled t thread) {completion : Completion}
    (horigin : ∀ (i : Nat) (caller : Caller), t.pending requestId = some i →
      t.callers[i]? = some caller → caller.forwarded = true →
      ∃ j, completion.origin = .sendFailed j) :
    Settled (t.complete requestId completion) thread where
  valid := h.valid.complete requestId completion
  current := by
    intro i phase hcurrent
    obtain ⟨caller, hcaller, hforwarded, hphase⟩ := h.current i phase hcurrent
    obtain ⟨caller', hcaller', hforwarded', hphase'⟩ :=
      Table.exists_complete hcaller requestId completion
    exact ⟨caller', hcaller', hforwarded'.trans hforwarded, hphase'.trans hphase⟩
  registered := by
    intro requestId' i caller hentry hcaller hforwarded
    obtain ⟨before, hbefore, rfl⟩ := Table.getElem?_modifyHolder_eq_some.1 hcaller
    refine h.registered requestId' i before (update_none_eq_some.1 hentry).2 hbefore ?_
    split at hforwarded <;> exact hforwarded
  completed := by
    intro i caller hcaller hforwarded
    obtain ⟨before, hbefore, rfl⟩ := Table.getElem?_modifyHolder_eq_some.1 hcaller
    split at hforwarded
    · rename_i hentry
      rw [if_pos hentry]
      rintro _ ⟨⟩
      exact horigin i before hentry hbefore hforwarded
    · rename_i hentry
      rw [if_neg hentry]
      exact h.completed i before hbefore hforwarded

theorem Settled.setPhase (h : Settled t thread) (hcaller : t.callers[i]? = some caller)
    {phase : PendingResponses.Phase}
    (hcurrent : ∀ j phase', thread'.current = some (j, phase') →
      i = j ∧ caller.forwarded = true ∧ phase = phase' ∨
        i ≠ j ∧ thread.current = some (j, phase'))
    (hregistered : ∀ j phase', thread.current = some (j, phase') →
      ∃ phase'', thread'.current = some (j, phase'')) :
    Settled (t.setPhase i phase) thread' where
  valid := h.valid.setPhase i phase
  current := by
    intro j phase' hj
    rcases hcurrent j phase' hj with ⟨rfl, hfacts⟩ | ⟨hij, hbefore⟩
    · exact ⟨_, getElem?_modify_self hcaller, hfacts⟩
    · obtain ⟨other, hother, hfacts⟩ := h.current j phase' hbefore
      exact ⟨other, getElem?_modify_eq_some.2 ⟨other, hother, if_neg hij⟩, hfacts⟩
  registered := by
    intro requestId j other hentry hother hforwarded
    obtain ⟨before, hbefore, rfl⟩ := getElem?_modify_eq_some.1 hother
    obtain ⟨phase', hphase'⟩ : ∃ phase', thread.current = some (j, phase') := by
      refine h.registered requestId j before hentry hbefore ?_
      split at hforwarded <;> exact hforwarded
    exact hregistered j phase' hphase'
  completed := by
    refine (forall_getElem?_modify_iff h.completed hcaller).2 ?_
    exact h.completed i caller hcaller

theorem Settled.register (h : Settled t thread) {forwarded : Bool} (peer : Int) (requestId : UInt64)
    (hcurrent : ∀ j phase, thread'.current = some (j, phase) →
      thread.current = some (j, phase) ∨
        j = t.callers.length ∧ phase = .sending ∧ forwarded = true)
    (hregistered : ∀ j phase, thread.current = some (j, phase) →
      ∃ phase', thread'.current = some (j, phase'))
    (hnew : forwarded = true → ∃ phase, thread'.current = some (t.callers.length, phase)) :
    Settled (t.step (.register forwarded peer requestId)) thread' where
  valid := Table.valid_register h.valid forwarded peer requestId
  current := by
    intro j phase hj
    rcases hcurrent j phase hj with hbefore | ⟨rfl, rfl, hforwarded⟩
    · obtain ⟨caller, hcaller, hforwarded, hphase⟩ := h.current j phase hbefore
      obtain ⟨caller', hcaller', hforwarded', hphase'⟩ :=
        Table.exists_modifyHolder hcaller requestId
          (f := fun caller => { caller with replaced := true }) fun _ => ⟨rfl, rfl⟩
      exact ⟨caller', getElem?_concat_eq_some.2 (Or.inl hcaller'),
        hforwarded'.trans hforwarded, hphase'.trans hphase⟩
    · refine ⟨_, getElem?_concat_eq_some.2 (Or.inr ⟨?_, rfl⟩), hforwarded, rfl⟩
      rw [Table.length_modifyHolder]
  registered := by
    intro requestId' j caller hentry hcaller hforwarded
    rcases getElem?_concat_eq_some.1 hcaller with hcaller | ⟨rfl, rfl⟩
    · obtain ⟨before, hbefore, rfl⟩ := Table.getElem?_modifyHolder_eq_some.1 hcaller
      have hlt : j < t.callers.length := (List.getElem?_eq_some_iff.1 hbefore).1
      rcases update_some_eq_some.1 hentry with ⟨_, hj⟩ | ⟨_, hentry⟩
      · omega
      · obtain ⟨phase, hphase⟩ : ∃ phase, thread.current = some (j, phase) := by
          refine h.registered requestId' j before hentry hbefore ?_
          split at hforwarded <;> exact hforwarded
        exact hregistered j phase hphase
    · rw [Table.length_modifyHolder]
      exact hnew hforwarded
  completed := by
    intro j caller hcaller hforwarded
    rcases getElem?_concat_eq_some.1 hcaller with hcaller | ⟨_, rfl⟩
    · obtain ⟨before, hbefore, rfl⟩ := Table.getElem?_modifyHolder_eq_some.1 hcaller
      split at hforwarded
      · rename_i hholder
        rw [if_pos hholder]
        exact h.completed j before hbefore hforwarded
      · rename_i hholder
        rw [if_neg hholder]
        exact h.completed j before hbefore hforwarded
    · rintro _ ⟨⟩

theorem Settled.eraseId (h : Settled t thread) (requestId : UInt64) :
    Settled (t.eraseId requestId) thread where
  valid := h.valid.eraseId requestId
  current := h.current
  registered requestId' j caller hentry :=
    h.registered requestId' j caller (update_none_eq_some.1 hentry).2
  completed := h.completed

theorem Settled.finish {phase : PendingResponses.Phase} (h : Settled t thread)
    (hcurrent : thread.current = some (i, phase))
    (habsent : ∀ requestId, t.pending requestId ≠ some i) : Settled t .idle where
  valid := h.valid
  current := by rintro _ _ ⟨⟩
  registered := by
    intro requestId j caller hentry hcaller hforwarded
    obtain ⟨phase', hphase'⟩ := h.registered requestId j caller hentry hcaller hforwarded
    obtain ⟨rfl, _⟩ : i = j ∧ phase = phase' := by simpa [hcurrent] using hphase'
    exact absurd hentry (habsent requestId)
  completed := h.completed

/-! ## Steps of the table -/

theorem settled_apiResp (h : Settled t .idle) (peer : Int) (response : APIResponse) :
    Settled (t.step (.apiResp peer response)) .idle := by
  simp only [Table.step]
  split_ifs
  · refine h.complete fun i caller hentry hcaller hforwarded => ?_
    -- an idle thread has no request in the table
    obtain ⟨_, hcurrent⟩ := h.registered _ i caller hentry hcaller hforwarded
    cases hcurrent
  · exact h

theorem settled_send (h : Settled t thread) (peer : Int) (requestId : UInt64) :
    Settled (t.step (.register false peer requestId)) thread :=
  h.register peer requestId (fun _ _ => Or.inl) (fun _ phase hphase => ⟨phase, hphase⟩)
    (by rintro ⟨⟩)

theorem settled_forward (h : Settled t .idle) (peer requester : Int) (requestId : UInt64) :
    Settled (t.step (.register true peer requestId))
      (.sending t.callers.length requester requestId) := by
  refine h.register peer requestId ?_ (by rintro _ _ ⟨⟩) fun _ => ⟨.sending, rfl⟩
  rintro _ _ ⟨⟩
  exact Or.inr ⟨rfl, rfl, rfl⟩

theorem settled_push (h : Settled t thread) (hcaller : t.callers[i]? = some caller)
    (hlocal : caller.forwarded = false) (connected : Bool) :
    Settled (t.step (.push i connected)) thread := by
  -- the request of the thread is a forwarded one
  have hother (j : Nat) (phase' : PendingResponses.Phase) (hj : thread.current = some (j, phase')) :
      i ≠ j := by
    rintro rfl
    obtain ⟨caller', hcaller', hforwarded, _⟩ := h.current i phase' hj
    obtain rfl : caller = caller' := Option.some.inj (hcaller.symm.trans hcaller')
    exact Bool.false_ne_true (hlocal.symm.trans hforwarded)
  have hset {u : Table} {caller' : Caller} (hu : Settled u thread)
      (hcaller' : u.callers[i]? = some caller') : Settled (u.setPhase i .waiting) thread := by
    refine hu.setPhase hcaller' (fun j phase' hj => ?_) fun _ phase' hphase => ⟨phase', hphase⟩
    exact Or.inr ⟨hother j phase' hj, hj⟩
  simp only [Table.step, hcaller]
  split_ifs
  · exact h
  · exact hset h hcaller
  · obtain ⟨caller', hcaller', _⟩ := Table.exists_complete hcaller caller.requestId _
    exact hset (h.complete fun _ _ _ _ _ => ⟨i, rfl⟩) hcaller'

variable {requester : Int}

theorem settled_startWait (h : Settled t (.sending i requester requestId)) (since : Nat) :
    Settled (t.step (.push i true)) (.waiting i requester requestId since) := by
  obtain ⟨caller, hcaller, hforwarded, hphase⟩ := h.current i .sending rfl
  have hstep : t.step (.push i true) = t.setPhase i .waiting := by
    simp [Table.step, hcaller, hphase]
  rw [hstep]
  refine h.setPhase hcaller ?_ ?_
  · rintro _ _ ⟨⟩
    exact Or.inl ⟨rfl, hforwarded, rfl⟩
  · rintro _ _ ⟨⟩
    exact ⟨.waiting, rfl⟩

theorem settled_expire {since : Nat} (h : Settled t (.waiting i requester requestId since))
    (hcompletion : t.callers[i]?.bind Caller.completion = none) :
    Settled (t.step (.expire i)) (.expired i requester requestId since) := by
  obtain ⟨caller, hcaller, hforwarded, hphase⟩ := h.current i .waiting rfl
  rw [hcaller, Option.bind_some] at hcompletion
  have hstep : t.step (.expire i) = t.setPhase i .expired := by
    simp [Table.step, hcaller, hforwarded, hphase, hcompletion]
  rw [hstep]
  refine h.setPhase hcaller ?_ ?_
  · rintro _ _ ⟨⟩
    exact Or.inl ⟨rfl, hforwarded, rfl⟩
  · rintro _ _ ⟨⟩
    exact ⟨.expired, rfl⟩

theorem settled_giveUp {since : Nat} (h : Settled t (.expired i requester requestId since)) :
    Settled (t.step (.erase i)) .idle := by
  obtain ⟨caller, hcaller, hforwarded, hphase⟩ := h.current i .expired rfl
  have hstep : t.step (.erase i) = (t.eraseId caller.requestId).setPhase i .timedOut := by
    simp [Table.step, hcaller, hphase]
  have hidle : Settled (t.eraseId caller.requestId) .idle := by
    refine (h.eraseId caller.requestId).finish rfl fun requestId' hentry => ?_
    -- its only entry stood under its own id
    obtain ⟨hne, hentry⟩ := update_none_eq_some.1 hentry
    exact hne (Owned.fits h.valid hentry hcaller).1.symm
  rw [hstep]
  exact hidle.setPhase hcaller (by rintro _ _ ⟨⟩) (by rintro _ _ ⟨⟩)

theorem settled_wake {since : Nat} {completion : Completion}
    (h : Settled t (.waiting i requester requestId since))
    (hcompletion : t.callers[i]?.bind Caller.completion = some completion) :
    Settled t .idle ∧ ∃ j, completion.origin = .sendFailed j := by
  obtain ⟨caller, hcaller, hforwarded, _⟩ := h.current i .waiting rfl
  rw [hcaller, Option.bind_some] at hcompletion
  refine ⟨h.finish rfl fun requestId' hentry => ?_, ?_⟩
  · -- a completed promise has left the table
    have hnone := (Owned.fits h.valid hentry hcaller).2
    rw [hcompletion] at hnone
    cases hnone
  · exact h.completed i caller hcaller hforwarded completion hcompletion

end Settled

/-! ## Runs -/

/-- The reply is the error of a send that failed on another thread, or it says that the miner timed
out, after the full wait. -/
def Reply.Late (reply : Reply) : Prop :=
  (∃ j, reply.origin = some (.sendFailed j)) ∨
    reply.origin = none ∧ timeoutSeconds ≤ reply.waited

structure Node.Valid (s : Node) : Prop where
  settled : Settled s.table s.thread
  late : ∀ i requester requestId since, s.thread = .expired i requester requestId since →
    since + timeoutSeconds ≤ s.now
  replies : ∀ reply ∈ s.replies, reply.Late

namespace Node

variable {s : Node}

theorem valid_initial : initial.Valid where
  settled :=
    { valid := owned_empty
      current := by rintro _ _ ⟨⟩
      registered := by rintro _ _ _ ⟨⟩
      completed := by rintro _ _ ⟨⟩ }
  late := by rintro _ _ _ _ ⟨⟩
  replies := List.forall_mem_nil _

/-- Only an idle thread handles messages, so an APIRESP never meets a forwarded request. -/
theorem valid_handle (h : s.Valid) (hidle : s.thread = .idle) (peer : Int) (route : Option Int)
    (message : Message) : (s.handle peer route message).Valid := by
  obtain ⟨hsettled, hlate, hreplies⟩ := h
  rw [hidle] at hsettled
  unfold handle
  split
  · rename_i request
    split
    · split_ifs
      · exact ⟨settled_forward hsettled _ peer request.requestId, by rintro _ _ _ _ ⟨⟩, hreplies⟩
      · exact ⟨hidle ▸ hsettled, hlate, hreplies⟩
    · exact ⟨hidle ▸ hsettled, hlate, hreplies⟩
  · rename_i response
    refine ⟨?_, hlate, hreplies⟩
    change Settled _ s.thread
    rw [hidle]
    exact settled_apiResp hsettled peer response
  · exact ⟨hidle ▸ hsettled, hlate, hreplies⟩

theorem valid_step (h : s.Valid) (event : Event) : (s.step event).Valid := by
  cases event with
  | arrive peer message => exact ⟨h.settled, h.late, h.replies⟩
  | process peer route =>
    simp only [step]
    split
    · rename_i message rest hidle _
      have htaken : { s with inbox := Function.update s.inbox peer rest }.Valid :=
        ⟨h.settled, h.late, h.replies⟩
      exact valid_handle htaken hidle peer route message
    · exact h
  | startWait =>
    simp only [step]
    split
    · rename_i i requester requestId hthread
      have hsettled := hthread ▸ h.settled
      exact ⟨settled_startWait hsettled s.now, by rintro _ _ _ _ ⟨⟩, h.replies⟩
    · exact h
  | wake =>
    simp only [step]
    split
    · rename_i i requester requestId since hthread
      have hsettled := hthread ▸ h.settled
      split
      · rename_i completion hcompletion
        obtain ⟨hidle, j, horigin⟩ := settled_wake hsettled hcompletion
        refine ⟨hidle, by rintro _ _ _ _ ⟨⟩, List.forall_mem_append.2 ⟨h.replies, ?_⟩⟩
        exact List.forall_mem_singleton.2 (Or.inl ⟨j, congrArg some horigin⟩)
      · exact h
    · exact h
  | timeout =>
    simp only [step]
    split
    · rename_i i requester requestId since hthread
      have hsettled := hthread ▸ h.settled
      split_ifs with hexpired
      · refine ⟨settled_expire hsettled hexpired.1, ?_, h.replies⟩
        rintro _ _ _ _ ⟨⟩
        exact hexpired.2
      · exact h
    · exact h
  | giveUp =>
    simp only [step]
    split
    · rename_i i requester requestId since hthread
      have hsettled := hthread ▸ h.settled
      have hlate := h.late i requester requestId since hthread
      refine ⟨settled_giveUp hsettled, by rintro _ _ _ _ ⟨⟩, ?_⟩
      refine List.forall_mem_append.2 ⟨h.replies, List.forall_mem_singleton.2 (Or.inr ⟨rfl, ?_⟩)⟩
      exact Nat.le_sub_of_add_le' hlate
    · exact h
  | elapse seconds =>
    refine ⟨h.settled, fun i requester requestId since hthread => ?_, h.replies⟩
    exact (h.late i requester requestId since hthread).trans (Nat.le_add_right _ _)
  | send peer requestId => exact ⟨settled_send h.settled peer requestId, h.late, h.replies⟩
  | push i connected =>
    simp only [step]
    split
    · rename_i caller hcaller
      split_ifs with hforwarded
      · exact h
      · exact ⟨settled_push h.settled hcaller (Bool.eq_false_iff.2 hforwarded) connected, h.late,
          h.replies⟩
    · exact h

theorem valid_run (events : List Event) : (run step initial events).Valid := by
  have hstep (s : Node) (event : Event) (h : s.Valid) : (s.step event).Valid := valid_step h event
  exact run_invariant hstep valid_initial events

end Node

/-- A forwarding handler has sent its requester the APIRESP of a peer. -/
def Node.RelayedAnswer (s : Node) : Prop :=
  ∃ reply ∈ s.replies, ∃ peer, reply.origin = some (.apiResp peer)

/-- Whatever the peers answer, no forwarding handler relays it. -/
theorem answer_never_relayed (events : List Event) :
    ¬(run Node.step Node.initial events).RelayedAnswer := by
  rintro ⟨reply, hmem, peer, hpeer⟩
  rcases (Node.valid_run events).replies reply hmem with ⟨j, hfailed⟩ | ⟨hnone, _⟩
  · rw [hpeer] at hfailed
    cases hfailed
  · rw [hpeer] at hnone
    cases hnone

def minerAnswer : APIResponse where
  content := ascii "Hello"
  promptTokens := 0
  completionTokens := 0
  tokensUsed := 3
  cost := 30
  requestId := 7
  signature := []

/-- Peer 3 asks, the node forwards to miner 5, which answers at once; the thread never takes the
answer before it gives up. -/
def answeredForward : List Event :=
  [.arrive 3 (.apiReq APIRequest.unsigned), .process 3 (some 5), .startWait,
    .arrive 5 (.apiResp minerAnswer), .process 5 none, .elapse 86400, .process 5 none, .wake,
    .timeout, .giveUp]

theorem answeredForward_times_out :
    (run Node.step Node.initial answeredForward).inbox 5 = [.apiResp minerAnswer] ∧
      (run Node.step Node.initial answeredForward).replies =
        [{ requester := 3
           response := minerTimeout 7
           origin := none
           waited := 86400 }] ∧
      ¬(run Node.step Node.initial answeredForward).RelayedAnswer := by
  have hreplies : (run Node.step Node.initial answeredForward).replies =
      [{ requester := 3, response := minerTimeout 7, origin := none, waited := 86400 }] := by
    decide
  refine ⟨by decide, hreplies, ?_⟩
  rintro ⟨reply, hmem, peer, hpeer⟩
  rw [hreplies, List.mem_singleton] at hmem
  rw [hmem] at hpeer
  cases hpeer

end TKNC.Net.MessageThread
