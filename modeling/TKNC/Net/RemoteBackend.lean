import TKNC.Lib.EventMachine
import TKNC.Lib.Registry
import TKNC.Net.ApiProtocol

/-!
# RemoteBackend — inference calls that a peer answers

A call puts its request on the wire under an id made of the clock and a counter; the send callback
registers a promise under an id of a counter of its own, and an APIRESP completes the promise that
is registered under the id it carries.  Any number of calls may be under way, and every step of a
call may be interleaved with those of the others.

For each call, `answers` is the history of the responses its peer gave to the id found in its
request while it waited; it is not part of the node.  `answered_iff_correlated` says in which runs
every call gets its own answer.
-/

namespace TKNC.Net.RemoteBackend

open Lib Lib.EventMachine Lib.Numeral Lib.Registry List Option

/-! ## Requests and results -/

structure ComputeRequest where
  apiKey : Bytes
  model : Bytes
  messages : List ChatMessage
  maxTokens : Int32

def wireRequest (request : ComputeRequest) (now wireCounter : UInt64) : APIRequest :=
  let requestId := now * 1000000 + wireCounter
  { apiKey := request.apiKey
    model := request.model
    modelHash := []
    messages := request.messages
    nonce := requestId + 1
    requestId
    signature := []
    maxTokens := request.maxTokens }

structure P2PPendingResponse where
  content : Bytes
  tokens : Int64
  cost : Int64
  deriving DecidableEq

structure ComputeResponse where
  success : Bool
  content : Bytes
  tokensUsed : Int64
  cost : Int64
  errorMessage : Bytes
  deriving DecidableEq

def isError (content : Bytes) : Bool :=
  (ascii "Error:").isPrefixOf content

def inferResult (sentOk : Bool) (response : P2PPendingResponse) : ComputeResponse :=
  if sentOk ∧ ¬isError response.content then
    { success := true
      content := response.content
      tokensUsed := response.tokens
      cost := response.cost
      errorMessage := [] }
  else
    { success := false
      content := response.content
      tokensUsed := 0
      cost := 0
      errorMessage := ascii "P2P inference request failed or timed out" }

/-! ## Calls under way -/

inductive Phase where
  | built
  | registered (reqId : UInt64)
  | waiting (reqId : UInt64)
  | returned (result : ComputeResponse)
  deriving DecidableEq

structure Call where
  target : Int
  requestData : Bytes
  phase : Phase
  promise : Option P2PPendingResponse
  answers : List P2PPendingResponse
  deriving DecidableEq

def foundId (requestData : Bytes) : Option UInt64 :=
  match APIRequest.deserialize requestData with
  | .ok request => some request.requestId
  | .error _ => none

def Call.isWaiting (call : Call) : Bool :=
  match call.phase with
  | .waiting _ => true
  | _ => false

def Call.Awaits (call : Call) (peer : Int) (requestId : UInt64) : Prop :=
  call.isWaiting = true ∧ call.target = peer ∧ foundId call.requestData = some requestId

instance (call : Call) (peer : Int) (requestId : UInt64) :
    Decidable (call.Awaits peer requestId) :=
  inferInstanceAs (Decidable (_ ∧ _ ∧ _))

structure Engine where
  wireCounter : UInt64
  nextRequestId : UInt64
  pendingResponses : UInt64 → Option Nat
  calls : List Call

def Engine.initial : Engine where
  wireCounter := 0
  nextRequestId := 1
  pendingResponses := fun _ => none
  calls := []

/-- The steps of a call after its request was built; `send` finds its peer connected or not. -/
inductive Action where
  | register
  | send (connected : Bool)
  | timeout
  | wake

inductive Event where
  | infer (request : ComputeRequest) (target : Int) (now : UInt64)
  | own (i : Nat) (action : Action)
  | apiResp (peer : Int) (response : APIResponse)

def timedOut : P2PPendingResponse where
  content := ascii "Error: Remote inference timed out"
  tokens := 0
  cost := 0

def pendingOf (response : APIResponse) : P2PPendingResponse where
  content := response.content
  tokens := response.tokensUsed.toInt64
  cost := response.cost

namespace Engine

def holder (s : Engine) (requestId : UInt64) : Option Nat :=
  if requestId = 0 then none else s.pendingResponses requestId

def received (s : Engine) (peer : Int) (response : APIResponse) (i : Nat) (call : Call) : Call :=
  { call with
    promise :=
      if s.holder response.requestId = some i then some (pendingOf response) else call.promise
    answers :=
      if call.Awaits peer response.requestId then call.answers ++ [pendingOf response]
      else call.answers }

def store (s : Engine) (reqId : UInt64) (i : Option Nat) : Engine :=
  { s with pendingResponses := Function.update s.pendingResponses reqId i }

def setPhase (s : Engine) (i : Nat) (phase : Phase) : Engine :=
  { s with calls := s.calls.modify i fun call => { call with phase } }

def act (s : Engine) (i : Nat) (call : Call) (action : Action) : Engine :=
  match action, call.phase, call.promise with
  | .register, .built, _ =>
      { (s.setPhase i (.registered s.nextRequestId)).store s.nextRequestId (some i) with
        nextRequestId := s.nextRequestId + 1 }
  | .send true, .registered reqId, _ => s.setPhase i (.waiting reqId)
  | .send false, .registered reqId, _ =>
      (s.store reqId none).setPhase i
        (.returned (inferResult false { content := [], tokens := 0, cost := 0 }))
  | .timeout, .waiting reqId, none =>
      (s.store reqId none).setPhase i (.returned (inferResult true timedOut))
  | .wake, .waiting _, some response => s.setPhase i (.returned (inferResult true response))
  | _, _, _ => s

def step (s : Engine) : Event → Engine
  | .infer request target now =>
      { s with
        wireCounter := s.wireCounter + 1
        calls := s.calls ++
          [{ target
             requestData := (wireRequest request now s.wireCounter).serialize
             phase := .built
             promise := none
             answers := [] }] }
  | .own i action =>
      match s.calls[i]? with
      | some call => s.act i call action
      | none => s
  | .apiResp peer response =>
      -- the sender is not compared with the target of the call that is completed
      let calls := s.calls.mapIdx (s.received peer response)
      match s.holder response.requestId with
      | some _ => { s.store response.requestId none with calls }
      | none => { s with calls }

end Engine

/-! ## Answers -/

/-- The promise holds the first answer, and a call that was answered returns it. -/
def Call.Answered (call : Call) : Prop :=
  call.promise = call.answers.head? ∧
    ∀ result answer, call.phase = .returned result → call.answers.head? = some answer →
      result.content = answer.content ∧ result.tokensUsed = answer.tokens

def Engine.Answered (s : Engine) : Prop :=
  ∀ call ∈ s.calls, call.Answered

/-- Among the calls without an answer, a response answers the one that is registered under its id
and no other; and a response that reads like an error counts no tokens. -/
def Correlated (s : Engine) : Event → Prop
  | .apiResp peer response =>
      ∀ (i : Nat) (call : Call), s.calls[i]? = some call → call.answers = [] →
        (call.Awaits peer response.requestId ↔ s.holder response.requestId = some i)
  | .own i action =>
      action = .wake → ∀ (call : Call) (response : P2PPendingResponse), s.calls[i]? = some call →
        call.isWaiting = true → call.promise = some response →
        isError response.content = true → response.tokens = 0
  | .infer _ _ _ => True

/-! ## What the table holds -/

variable {call : Call}

theorem Call.isWaiting_iff :
    call.isWaiting = true ↔ ∃ reqId, call.phase = .waiting reqId := by
  unfold isWaiting
  split <;> simp_all

theorem Call.Awaits.waiting {peer : Int} {requestId : UInt64} (h : call.Awaits peer requestId) :
    ∃ reqId, call.phase = .waiting reqId :=
  Call.isWaiting_iff.1 h.1

theorem Call.not_awaits {peer : Int} {requestId : UInt64}
    (hphase : ∀ reqId, call.phase ≠ .waiting reqId) : ¬call.Awaits peer requestId := by
  intro hawaits
  obtain ⟨reqId, hwaiting⟩ := hawaits.waiting
  exact hphase reqId hwaiting

/-- The call is under way, was registered under this very id and is not completed. -/
def Call.RegisteredAs (reqId : UInt64) (call : Call) : Prop :=
  call.promise = none ∧ (call.phase = .registered reqId ∨ call.phase = .waiting reqId)

theorem Call.RegisteredAs.unique {reqId reqId' : UInt64} (h : call.RegisteredAs reqId)
    (h' : call.RegisteredAs reqId') : reqId = reqId' := by
  unfold Call.RegisteredAs at h h'
  grind

/-- The table names registered calls, and a call that has not sent its request has no answers. -/
structure Engine.Valid (s : Engine) : Prop where
  owned : Owned Call.RegisteredAs s.pendingResponses s.calls
  built : ∀ call ∈ s.calls, call.phase = .built → call.promise = none ∧ call.answers = []
  unsent : ∀ call ∈ s.calls, ∀ reqId, call.phase = .registered reqId → call.answers = []

namespace Engine

variable {s : Engine} {i : Nat} {call : Call}

theorem valid_initial : initial.Valid where
  owned := owned_empty
  built := forall_mem_nil _
  unsent := forall_mem_nil _

theorem Valid.erase (h : s.Valid) (reqId : UInt64) : (s.store reqId none).Valid :=
  ⟨h.owned.erase reqId, h.built, h.unsent⟩

variable {reqId : UInt64}

theorem Valid.insert (h : s.Valid) (hcall : s.calls[i]? = some call)
    (hregistered : call.RegisteredAs reqId) : (s.store reqId (some i)).Valid :=
  ⟨h.owned.insert hcall hregistered, h.built, h.unsent⟩

theorem Valid.setPhase {phase : Phase} (h : s.Valid) (hcall : s.calls[i]? = some call)
    (howned : ∀ reqId, s.pendingResponses reqId = some i → call.RegisteredAs reqId →
      Call.RegisteredAs reqId { call with phase })
    (hbuilt : phase ≠ .built) (hunsent : ∀ reqId, phase = .registered reqId → call.answers = []) :
    (s.setPhase i phase).Valid where
  owned := by
    refine h.owned.modify fun reqId call' hentry hcall' hregistered => ?_
    obtain rfl : call = call' := some.inj (hcall.symm.trans hcall')
    exact howned reqId hentry hregistered
  built := (forall_mem_modify_iff h.built hcall).2 fun hphase => absurd hphase hbuilt
  unsent := (forall_mem_modify_iff h.unsent hcall).2 hunsent

theorem Valid.setReturned (h : s.Valid) (hcall : s.calls[i]? = some call)
    (habsent : ∀ reqId, s.pendingResponses reqId = some i → ¬call.RegisteredAs reqId)
    (result : ComputeResponse) : (s.setPhase i (.returned result)).Valid := by
  refine h.setPhase hcall ?_ (by rintro ⟨⟩) (by rintro _ ⟨⟩)
  exact fun reqId hentry hregistered => absurd hregistered (habsent reqId hentry)

theorem Valid.give_up (h : s.Valid) (hcall : s.calls[i]? = some call)
    (hphase : call.phase = .registered reqId ∨ call.phase = .waiting reqId)
    (result : ComputeResponse) : ((s.store reqId none).setPhase i (.returned result)).Valid := by
  refine (h.erase reqId).setReturned hcall (fun reqId' hentry hregistered => ?_) result
  -- a call under way is registered under its own id only, and that entry is gone
  have hne := (update_none_eq_some.1 hentry).1
  exact hne (hregistered.unique ⟨hregistered.1, hphase⟩)

theorem valid_infer (h : s.Valid) (request : ComputeRequest) (target : Int) (now : UInt64) :
    (s.step (.infer request target now)).Valid where
  owned := h.owned.append _
  built := forall_mem_append.2 ⟨h.built, forall_mem_singleton.2 fun _ => ⟨rfl, rfl⟩⟩
  unsent := forall_mem_append.2 ⟨h.unsent, forall_mem_singleton.2 fun _ _ => rfl⟩

theorem valid_register (h : s.Valid) (hcall : s.calls[i]? = some call)
    (hphase : call.phase = .built) (reqId : UInt64) :
    ((s.setPhase i (.registered reqId)).store reqId (some i)).Valid := by
  obtain ⟨hpromise, hanswers⟩ := h.built call (mem_of_getElem? hcall) hphase
  have hset : (s.setPhase i (.registered reqId)).Valid := by
    refine h.setPhase hcall (fun reqId' _ hregistered => ?_) (by rintro ⟨⟩) fun _ _ => hanswers
    rcases hregistered.2 with hphase' | hphase' <;> rw [hphase] at hphase' <;> cases hphase'
  exact hset.insert (getElem?_modify_self hcall) ⟨hpromise, Or.inl rfl⟩

theorem valid_act (h : s.Valid) (hcall : s.calls[i]? = some call) (action : Action) :
    (s.act i call action).Valid := by
  unfold act
  split
  · rename_i hphase
    have hregister := valid_register h hcall hphase s.nextRequestId
    exact ⟨hregister.owned, hregister.built, hregister.unsent⟩
  · rename_i reqId hphase
    refine h.setPhase hcall (fun reqId' _ hregistered => ?_) (by rintro ⟨⟩) (by rintro _ ⟨⟩)
    obtain rfl := hregistered.unique ⟨hregistered.1, Or.inl hphase⟩
    exact ⟨hregistered.1, Or.inr rfl⟩
  · rename_i hphase
    exact h.give_up hcall (Or.inl hphase) _
  · rename_i hphase _
    exact h.give_up hcall (Or.inr hphase) _
  · rename_i response _ hpromise
    refine h.setReturned hcall (fun reqId _ hregistered => ?_) _
    have hnone := hregistered.1
    rw [hpromise] at hnone
    cases hnone
  · exact h

@[simp]
theorem calls_apiResp (peer : Int) (response : APIResponse) :
    (s.step (.apiResp peer response)).calls = s.calls.mapIdx (s.received peer response) := by
  simp only [step]
  split <;> rfl

theorem mem_calls_apiResp {peer : Int} {response : APIResponse} {call' : Call} :
    call' ∈ (s.step (.apiResp peer response)).calls ↔
      ∃ i call, s.calls[i]? = some call ∧ s.received peer response i call = call' := by
  rw [calls_apiResp, mem_iff_getElem?]
  simp only [getElem?_mapIdx, map_eq_some_iff]

theorem holder_eq_some {requestId : UInt64} {i : Nat} (h : s.holder requestId = some i) :
    s.pendingResponses requestId = some i := by
  unfold holder at h
  split at h
  · cases h
  · exact h

theorem Valid.registeredAs_holder {requestId : UInt64} (h : s.Valid)
    (hcall : s.calls[i]? = some call) (hholder : s.holder requestId = some i) :
    call.RegisteredAs requestId :=
  h.owned.fits (holder_eq_some hholder) hcall

theorem pendingResponses_apiResp {peer : Int} {response : APIResponse}
    (hentry : (s.step (.apiResp peer response)).pendingResponses reqId = some i) :
    s.pendingResponses reqId = some i ∧
      (s.holder response.requestId = some i → reqId ≠ response.requestId) := by
  simp only [step] at hentry
  split at hentry
  · obtain ⟨hne, hentry⟩ := update_none_eq_some.1 hentry
    exact ⟨hentry, fun _ => hne⟩
  · rename_i hholder
    refine ⟨hentry, fun hsome => ?_⟩
    rw [hholder] at hsome
    cases hsome

theorem owned_apiResp (h : s.Valid) (peer : Int) (response : APIResponse) :
    Owned Call.RegisteredAs (s.step (.apiResp peer response)).pendingResponses
      (s.step (.apiResp peer response)).calls := by
  intro reqId i hentry
  obtain ⟨hbefore, hne⟩ := pendingResponses_apiResp hentry
  obtain ⟨call, hcall, hregistered⟩ := h.owned reqId i hbefore
  refine ⟨s.received peer response i call, ?_, ?_, hregistered.2⟩
  · rw [calls_apiResp, getElem?_mapIdx, hcall, map_some]
  · -- one call is registered under one id only, so this one is not completed
    have hholder : s.holder response.requestId ≠ some i := fun hholder =>
      hne hholder (hregistered.unique (h.registeredAs_holder hcall hholder))
    rw [received, if_neg hholder, hregistered.1]

theorem valid_apiResp (h : s.Valid) (peer : Int) (response : APIResponse) :
    (s.step (.apiResp peer response)).Valid where
  owned := owned_apiResp h peer response
  built := by
    intro call' hmem hphase
    obtain ⟨i, call, hcall, rfl⟩ := mem_calls_apiResp.1 hmem
    replace hphase : call.phase = .built := hphase
    have hholder : s.holder response.requestId ≠ some i := by
      intro hholder
      have hphase' := (h.registeredAs_holder hcall hholder).2
      grind
    have hawaits : ¬call.Awaits peer response.requestId :=
      Call.not_awaits (by rw [hphase]; rintro _ ⟨⟩)
    simp only [received, if_neg hholder, if_neg hawaits]
    exact h.built call (mem_of_getElem? hcall) hphase
  unsent := by
    intro call' hmem reqId hphase
    obtain ⟨i, call, hcall, rfl⟩ := mem_calls_apiResp.1 hmem
    replace hphase : call.phase = .registered reqId := hphase
    have hawaits : ¬call.Awaits peer response.requestId :=
      Call.not_awaits (by rw [hphase]; rintro _ ⟨⟩)
    simp only [received, if_neg hawaits]
    exact h.unsent call (mem_of_getElem? hcall) reqId hphase

theorem valid_step (h : s.Valid) (event : Event) : (s.step event).Valid := by
  cases event with
  | infer request target now => exact valid_infer h request target now
  | own i action =>
    simp only [step]
    split
    · rename_i call hcall
      exact valid_act h hcall action
    · exact h
  | apiResp peer response => exact valid_apiResp h peer response

end Engine

/-! ## Which steps keep the answers -/

section Answers

variable {s : Engine}

variable {call : Call}

theorem Call.answered_of_not_returned {phase : Phase} (h : call.Answered)
    (hphase : ∀ result, phase ≠ .returned result) : { call with phase }.Answered :=
  ⟨h.1, fun result _ hreturned => absurd hreturned (hphase result)⟩

theorem Call.answered_of_unanswered (h : call.Answered) (hanswers : call.answers = [])
    (phase : Phase) : { call with phase }.Answered := by
  refine ⟨h.1, fun _ _ _ hanswer => ?_⟩
  simp only [hanswers, head?_nil] at hanswer
  cases hanswer

theorem Call.answered_wake_iff {response : P2PPendingResponse} (h : call.Answered)
    (hpromise : call.promise = some response) :
    { call with phase := .returned (inferResult true response) }.Answered ↔
      (isError response.content = true → response.tokens = 0) := by
  have hhead : call.answers.head? = some response := by rw [← h.1, hpromise]
  have hresult : (inferResult true response).content = response.content := by
    unfold inferResult
    split <;> rfl
  have htokens : (inferResult true response).tokensUsed = response.tokens ↔
      (isError response.content = true → response.tokens = 0) := by
    unfold inferResult
    split <;> grind
  constructor
  · intro hanswered
    exact htokens.1 (hanswered.2 _ _ rfl hhead).2
  · intro hzero
    refine ⟨h.1, ?_⟩
    rintro result answer ⟨⟩ hanswer
    obtain rfl : response = answer := some.inj (hhead.symm.trans hanswer)
    exact ⟨hresult, htokens.2 hzero⟩

open Engine

theorem Engine.answered_act_iff (hvalid : s.Valid) (h : s.Answered) {i : Nat}
    (hcall : s.calls[i]? = some call) (action : Action) :
    (s.act i call action).Answered ↔ Correlated s (.own i action) := by
  have hmem := mem_of_getElem? hcall
  have hanswered := h call hmem
  have hset (phase : Phase) :
      (∀ call' ∈ s.calls.modify i fun call => { call with phase }, call'.Answered) ↔
        { call with phase }.Answered :=
    forall_mem_modify_iff h hcall
  -- one case for each branch of `act`; of the calls that return, only one that wakes has an answer
  unfold act
  split
  · refine iff_of_true ((hset _).2 ?_) (by rintro ⟨⟩)
    exact call.answered_of_not_returned hanswered (by rintro _ ⟨⟩)
  · refine iff_of_true ((hset _).2 ?_) (by rintro ⟨⟩)
    exact call.answered_of_not_returned hanswered (by rintro _ ⟨⟩)
  · rename_i reqId hphase
    refine iff_of_true ((hset _).2 ?_) (by rintro ⟨⟩)
    exact call.answered_of_unanswered hanswered (hvalid.unsent call hmem reqId hphase) _
  · rename_i hpromise
    refine iff_of_true ((hset _).2 ?_) (by rintro ⟨⟩)
    have hanswers : call.answers = [] := by
      rw [← head?_eq_none_iff, ← hanswered.1, hpromise]
    exact call.answered_of_unanswered hanswered hanswers _
  · rename_i reqId response hphase hpromise
    refine (hset _).trans ((call.answered_wake_iff hanswered hpromise).trans ?_)
    constructor
    · intro hzero _ call' response' hcall' _ hpromise'
      obtain rfl : call = call' := some.inj (hcall.symm.trans hcall')
      obtain rfl : response = response' := some.inj (hpromise.symm.trans hpromise')
      exact hzero
    · intro hcorrelated
      exact hcorrelated rfl call response hcall (Call.isWaiting_iff.2 ⟨reqId, hphase⟩) hpromise
  · rename_i hwake
    refine iff_of_true h fun haction call' response hcall' hwaiting hpromise => ?_
    obtain rfl : call = call' := some.inj (hcall.symm.trans hcall')
    obtain ⟨reqId, hphase⟩ := Call.isWaiting_iff.1 hwaiting
    exact absurd hpromise (hwake reqId response haction hphase)

theorem Engine.answered_received_iff (hvalid : s.Valid) {i : Nat} (hcall : s.calls[i]? = some call)
    (h : call.Answered) (peer : Int) (response : APIResponse) :
    (s.received peer response i call).Answered ↔
      (call.answers = [] →
        (call.Awaits peer response.requestId ↔ s.holder response.requestId = some i)) := by
  cases hanswers : call.answers with
  | nil =>
    -- nothing was answered so far, so the promise and the history must change together
    have hpromise : call.promise = none := by rw [h.1, hanswers, head?_nil]
    by_cases hawaits : call.Awaits peer response.requestId <;>
      by_cases hholder : s.holder response.requestId = some i
    all_goals
      simp [Call.Answered, received, hanswers, hpromise, hawaits, hholder]
    obtain ⟨reqId, hphase⟩ := hawaits.waiting
    rw [hphase]
    rintro _ ⟨⟩
  | cons answer rest =>
    -- the promise holds the first answer, so the table does not name this call any more
    have hholder : s.holder response.requestId ≠ some i := by
      intro hholder
      have hnone := (hvalid.registeredAs_holder hcall hholder).1
      rw [h.1, hanswers] at hnone
      cases hnone
    refine iff_of_true ?_ (by rintro ⟨⟩)
    have hhead : (s.received peer response i call).answers.head? = call.answers.head? := by
      simp only [received, hanswers]
      split <;> rfl
    refine ⟨?_, fun result answer' hphase hanswer => ?_⟩
    · rw [hhead, received, if_neg hholder, h.1]
    · exact h.2 result answer' hphase (hhead.symm.trans hanswer)

theorem Engine.answered_apiResp_iff (hvalid : s.Valid) (h : s.Answered) (peer : Int)
    (response : APIResponse) :
    (s.step (.apiResp peer response)).Answered ↔ Correlated s (.apiResp peer response) := by
  constructor
  · intro hnext i call hcall
    have hanswered := h call (mem_of_getElem? hcall)
    refine (answered_received_iff hvalid hcall hanswered peer response).1 (hnext _ ?_)
    exact mem_calls_apiResp.2 ⟨i, call, hcall, rfl⟩
  · intro hcorrelated call' hmem
    obtain ⟨i, call, hcall, rfl⟩ := mem_calls_apiResp.1 hmem
    have hanswered := h call (mem_of_getElem? hcall)
    exact (answered_received_iff hvalid hcall hanswered peer response).2
      (hcorrelated i call hcall)

theorem Engine.answered_step_iff (hvalid : s.Valid) (h : s.Answered) (event : Event) :
    (s.step event).Answered ↔ Correlated s event := by
  cases event with
  | infer request target now =>
    refine iff_of_true (forall_mem_append.2 ⟨h, forall_mem_singleton.2 ?_⟩) trivial
    exact ⟨rfl, by rintro _ _ ⟨⟩⟩
  | own i action =>
    simp only [step]
    split
    · rename_i call hcall
      exact answered_act_iff hvalid h hcall action
    · rename_i hnone
      refine iff_of_true h fun _ call response hcall => ?_
      rw [hnone] at hcall
      cases hcall
  | apiResp peer response => exact answered_apiResp_iff hvalid h peer response

/-- The answer to a call is lost whenever the id of its request is not the one that it registered,
which is counted elsewhere. -/
theorem not_correlated_of_ids_differ (hvalid : s.Valid) {i : Nat} {reqId : UInt64}
    {response : APIResponse} (hcall : s.calls[i]? = some call) (hphase : call.phase = .waiting reqId)
    (hanswers : call.answers = []) (hfound : foundId call.requestData = some response.requestId)
    (hne : response.requestId ≠ reqId) : ¬Correlated s (.apiResp call.target response) := by
  intro hcorrelated
  have hawaits : call.Awaits call.target response.requestId :=
    ⟨Call.isWaiting_iff.2 ⟨reqId, hphase⟩, rfl, hfound⟩
  have hholder := (hcorrelated i call hcall hanswers).1 hawaits
  -- the table names the call under the id of its request, which is not where it registered
  have hregistered := hvalid.registeredAs_holder hcall hholder
  exact hne (hregistered.unique ⟨hregistered.1, Or.inr hphase⟩)

end Answers

/-- In a run of any number of calls, each gets its own answer throughout if and only if every
response is correlated with the calls that wait. -/
theorem answered_iff_correlated (events : List Event) :
    Always Engine.step Engine.Answered Engine.initial events ↔
      GoodRun Engine.step Correlated Engine.initial events := by
  have hstep (s : Engine) (event : Event) (h : s.Valid) : (s.step event).Valid :=
    Engine.valid_step h event
  have hkeep (s : Engine) (event : Event) (hvalid : s.Valid) (h : s.Answered) :
      (s.step event).Answered ↔ Correlated s event :=
    Engine.answered_step_iff hvalid h event
  exact always_iff_goodRun hstep hkeep Engine.valid_initial (forall_mem_nil _)

def request : ComputeRequest where
  apiKey := ascii "tkn_0"
  model := ascii "llama"
  messages := [{ role := ascii "user", content := ascii "hi" }]
  maxTokens := 16

def answer : APIResponse where
  content := ascii "Hello"
  promptTokens := 0
  completionTokens := 0
  tokensUsed := 3
  cost := 30
  requestId := 1700000000000000
  signature := []

def answeredRun : List Event :=
  [.infer request 5 1700000000, .own 0 .register, .own 0 (.send true), .apiResp 5 answer,
    .own 0 .timeout]

def lostCall : Call where
  target := 5
  requestData := (wireRequest request 1700000000 0).serialize
  phase := .returned (inferResult true timedOut)
  promise := none
  answers := [{ content := ascii "Hello", tokens := 3, cost := 30 }]

/-- The peer answers the one call under the id of its request, and the call times out. -/
theorem answeredRun_times_out :
    (run Engine.step Engine.initial answeredRun).calls = [lostCall] ∧
      ¬Always Engine.step Engine.Answered Engine.initial answeredRun := by
  have hcalls : (run Engine.step Engine.initial answeredRun).calls = [lostCall] := by
    decide +kernel
  refine ⟨hcalls, fun h => ?_⟩
  have hmem : lostCall ∈ (run Engine.step Engine.initial answeredRun).calls :=
    hcalls ▸ mem_singleton_self lostCall
  obtain ⟨hcontent, _⟩ := (h.last lostCall hmem).2 _ _ rfl rfl
  revert hcontent
  decide

end TKNC.Net.RemoteBackend
