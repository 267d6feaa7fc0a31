import Mathlib.Data.Finset.Card
import Mathlib.Logic.Function.Basic
import TKNC.Lib.EventMachine
import TKNC.Lib.OrderedMap

/-!
# ModeSwitcher — the GPU between proof of work and inference

A request moves the GPU to inference when it starts and, if it was the last one, back to proof of
work when it ends.  The counter, the mode and the table of the start times are changed by separate
atomic steps, and only some of them are taken under the mutex.  The mining loop calls a cleanup that
gives up the requests of more than thirty seconds.

An event is one atomic step: of the thread of a request, of the cleanup, or of the clock.  A thread
that waits for the mutex stands still.  Beside the variables of the source, a run keeps where every
call is, the requests that have been started and those that a cleanup has given up.
-/

namespace TKNC.Miner

open Lib Lib.EventMachine List Function Or

/-! ## State -/

inductive MiningMode where
  | task
  | pow
  | llm
  deriving DecidableEq

inductive GPUMode where
  | idle
  | powMining
  | inference
  deriving DecidableEq

structure ModeSwitcher where
  currentMode : MiningMode
  activeRequests : UInt64
  requestMutex : Bool
  requestTimestamps : OrderedMap Nat Nat
  lastSwitched : Option GPUMode

namespace ModeSwitcher

def requestTimeout : Nat := 30000000000

def syncGPUState (s : ModeSwitcher) (mode : MiningMode) : ModeSwitcher :=
  match mode with
  | .llm | .task => { s with lastSwitched := some .inference }
  | .pow => { s with lastSwitched := some .powMining }

end ModeSwitcher

/-- Where the thread of a request is: the last step that it has taken of `OnRequestStart` or of
`OnRequestEnd`.  It is between the two calls when `started`. -/
inductive RequestPhase where
  | notStarted
  | counted
  | modeStored
  | gpuSynced
  | started
  | uncounted
  | erased
  | sawZero
  | modeRestored
  | ended
  deriving DecidableEq

/-- Where `CleanupTimeoutRequests` is.  While it visits the table it knows the time that it read,
the entries that are left, and whether it has given up a request. -/
inductive CleanupPhase where
  | idle
  | visiting (now : Nat) (rest : List (Nat × Nat)) (gaveUp : Bool)
  | sawZero
  deriving DecidableEq

structure SwitcherRun extends ModeSwitcher where
  now : Nat
  phase : Nat → RequestPhase
  cleanup : CleanupPhase
  requests : Finset Nat
  timedOut : Finset Nat

namespace SwitcherRun

def initial : SwitcherRun where
  currentMode := .pow
  activeRequests := 0
  requestMutex := false
  requestTimestamps := .empty
  lastSwitched := none
  now := 0
  phase := fun _ => .notStarted
  cleanup := .idle
  requests := ∅
  timedOut := ∅

/-! ## Steps -/

def setPhase (s : SwitcherRun) (id : Nat) (phase : RequestPhase) : SwitcherRun :=
  { s with phase := Function.update s.phase id phase }

def advance (s : SwitcherRun) (id : Nat) : SwitcherRun :=
  match s.phase id with
  -- OnRequestStart
  | .notStarted =>
      setPhase
        { s with activeRequests := s.activeRequests + 1, requests := insert id s.requests }
        id .counted
  | .counted => setPhase { s with currentMode := .llm } id .modeStored
  | .modeStored => setPhase { s with toModeSwitcher := s.syncGPUState .llm } id .gpuSynced
  | .gpuSynced =>
      if s.requestMutex then s
      else
        setPhase { s with requestTimestamps := s.requestTimestamps.insert id s.now } id .started
  -- OnRequestEnd
  | .started => setPhase { s with activeRequests := s.activeRequests - 1 } id .uncounted
  | .uncounted =>
      if s.requestMutex then s
      else
        setPhase
          { s with requestMutex := true, requestTimestamps := s.requestTimestamps.erase id }
          id .erased
  | .erased =>
      if s.activeRequests = 0 then setPhase s id .sawZero
      else setPhase { s with requestMutex := false } id .ended
  | .sawZero => setPhase { s with currentMode := .pow } id .modeRestored
  | .modeRestored =>
      setPhase { s with toModeSwitcher := { s.syncGPUState .pow with requestMutex := false } }
        id .ended
  | .ended => s

def cleanupTimeoutRequests (s : SwitcherRun) : SwitcherRun :=
  match s.cleanup with
  | .idle =>
      if s.requestMutex then s
      else
        { s with
          requestMutex := true
          cleanup := .visiting s.now s.requestTimestamps.entries false }
  | .visiting now ((id, time) :: rest) gaveUp =>
      if now - time > ModeSwitcher.requestTimeout then
        { s with
          activeRequests := s.activeRequests - 1
          requestTimestamps := s.requestTimestamps.erase id
          timedOut := insert id s.timedOut
          cleanup := .visiting now rest true }
      else
        { s with cleanup := .visiting now rest gaveUp }
  | .visiting _ [] _ =>
      if s.activeRequests = 0 then { s with cleanup := .sawZero }
      else { s with cleanup := .idle, requestMutex := false }
  -- unlike an end, the cleanup does not switch the GPU
  | .sawZero => { s with currentMode := .pow, cleanup := .idle, requestMutex := false }

end SwitcherRun

inductive SwitcherEvent where
  | elapse (nanoseconds : Nat)
  | request (id : Nat)
  | cleanup

namespace SwitcherRun

def step (s : SwitcherRun) : SwitcherEvent → SwitcherRun
  | .elapse nanoseconds => { s with now := s.now + nanoseconds }
  | .request id => s.advance id
  | .cleanup => s.cleanupTimeoutRequests

end SwitcherRun

/-! ## The law -/

def RequestPhase.isOpen : RequestPhase → Bool
  | .counted | .modeStored | .gpuSynced | .started => true
  | _ => false

def RequestPhase.isSwitching : RequestPhase → Bool
  | .sawZero | .modeRestored => true
  | _ => false

namespace SwitcherRun

def outstanding (s : SwitcherRun) : Finset Nat :=
  s.requests.filter fun id => (s.phase id).isOpen = true ∧ id ∉ s.timedOut

/-- No call is in progress. -/
def Quiescent (s : SwitcherRun) : Prop :=
  (∀ id ∈ s.requests, s.phase id = .started ∨ s.phase id = .ended) ∧ s.cleanup = .idle

/-- Where no call is in progress, the counter is the number of the outstanding requests and both
modes follow it.  A GPU that was never switched counts as one at proof of work. -/
def Follows (s : SwitcherRun) : Prop :=
  s.Quiescent →
    s.activeRequests.toNat = s.outstanding.card ∧
      s.currentMode = (if s.outstanding.card = 0 then .pow else .llm) ∧
      s.lastSwitched.getD .powMining =
        (if s.outstanding.card = 0 then .powMining else .inference)

instance : DecidablePred Quiescent := fun s =>
  inferInstanceAs (Decidable ((∀ id ∈ s.requests, s.phase id = .started ∨ s.phase id = .ended) ∧
    s.cleanup = .idle))

instance : DecidablePred Follows := fun s =>
  inferInstanceAs (Decidable (s.Quiescent → _ ∧ _ ∧ _))

/-- A call that has read the counter as zero has not yet switched to proof of work. -/
def Switching (s : SwitcherRun) : Prop :=
  (∃ id ∈ s.requests, (s.phase id).isSwitching = true) ∨ s.cleanup = .sawZero

instance : DecidablePred Switching := fun s =>
  inferInstanceAs (Decidable ((∃ id ∈ s.requests, (s.phase id).isSwitching = true) ∨
    s.cleanup = .sawZero))

/-- What the order of the steps has to spare: no request starts while a call is switching to proof
of work, or beyond the range of the counter; none ends that was given up, and none is given up that
is ending; and a cleanup that has given up a request does not read zero. -/
def Orderly (s : SwitcherRun) : SwitcherEvent → Prop
  | .elapse _ => True
  | .request id =>
      (s.phase id = .notStarted → ¬s.Switching ∧ s.activeRequests.toNat + 1 < UInt64.size) ∧
        (s.phase id = .started → id ∉ s.timedOut)
  | .cleanup =>
      match s.cleanup with
      | .visiting now ((id, time) :: _) _ =>
          now - time > ModeSwitcher.requestTimeout → (s.phase id).isOpen = true
      | .visiting _ [] gaveUp => s.activeRequests = 0 → gaveUp = false
      | _ => True

instance (s : SwitcherRun) : DecidablePred s.Orderly := fun event => by
  unfold Orderly
  split
  · infer_instance
  · infer_instance
  · split <;> infer_instance

end SwitcherRun

/-! ## What the calls in progress still have to do -/

namespace RequestPhase

def isRecorded : RequestPhase → Bool
  | .notStarted | .counted | .modeStored | .gpuSynced => false
  | _ => true

def willStoreLLM (phase : RequestPhase) : Bool :=
  phase = .counted

def willSyncLLM : RequestPhase → Bool
  | .counted | .modeStored => true
  | _ => false

def willStorePoW : RequestPhase → Bool
  | .uncounted | .erased | .sawZero => true
  | _ => false

def willSyncPoW : RequestPhase → Bool
  | .uncounted | .erased | .sawZero | .modeRestored => true
  | _ => false

end RequestPhase

namespace CleanupPhase

def rest : CleanupPhase → List (Nat × Nat)
  | .visiting _ rest _ => rest
  | _ => []

def gaveUp : CleanupPhase → Bool
  | .visiting _ _ gaveUp => gaveUp
  | _ => false

end CleanupPhase

theorem exists_update {P : RequestPhase → Bool} {phase : Nat → RequestPhase} {id : Nat}
    {next : RequestPhase} (hid : P (phase id) = true → P next = true)
    (h : ∃ i, P (phase i) = true) : ∃ i, P (update phase id next i) = true := by
  rcases h with ⟨i, hi⟩
  by_cases heq : i = id
  · subst heq
    exact ⟨i, by rw [update_self]; exact hid hi⟩
  · exact ⟨i, by rwa [update_of_ne heq]⟩

namespace SwitcherRun

/-! ## Requests and their records -/

/-- The tables agree with where the requests are. -/
structure Books (s : SwitcherRun) : Prop where
  known : ∀ id, id ∈ s.requests ↔ s.phase id ≠ .notStarted
  timed : ∀ id ∈ s.timedOut, (s.phase id).isRecorded = true
  stamps : ∀ e ∈ s.requestTimestamps.entries, (s.phase e.1).isRecorded = true ∧ e.1 ∉ s.timedOut
  rest : ∀ e ∈ s.cleanup.rest, (s.phase e.1).isRecorded = true ∧ e.1 ∉ s.timedOut
  nodup : (s.cleanup.rest.map Prod.fst).Nodup

theorem books_initial : initial.Books where
  known _ := by simp [initial]
  timed _ h := by simp [initial] at h
  stamps _ h := by simp [initial, OrderedMap.empty] at h
  rest _ h := by simp [initial, CleanupPhase.rest] at h
  nodup := nodup_nil

variable {id : Nat} {next : RequestPhase}

theorem isRecorded_update {phase : Nat → RequestPhase}
    (hnext : (phase id).isRecorded = true → next.isRecorded = true) {i : Nat}
    (h : (phase i).isRecorded = true) : (update phase id next i).isRecorded = true := by
  by_cases heq : i = id
  · subst heq
    rw [update_self]
    exact hnext h
  · rwa [update_of_ne heq]

variable {s : SwitcherRun} {m : ModeSwitcher}

/-- A step of a request's thread keeps the books if it forgets no record and adds only its own. -/
theorem Books.setPhase (h : s.Books) (hnext : next ≠ .notStarted)
    (hrecord : (s.phase id).isRecorded = true → next.isRecorded = true)
    (hstamps : ∀ e ∈ m.requestTimestamps.entries, e ∈ s.requestTimestamps.entries ∨
      (e.1 = id ∧ next.isRecorded = true ∧ (s.phase id).isRecorded = false)) :
    (SwitcherRun.setPhase { s with toModeSwitcher := m, requests := insert id s.requests }
      id next).Books where
  known i := by
    simp only [SwitcherRun.setPhase, Finset.mem_insert, h.known]
    by_cases heq : i = id
    · subst heq
      simp [hnext]
    · simp [heq]
  timed i hi := isRecorded_update hrecord (h.timed i hi)
  stamps e he := by
    rcases hstamps e he with hold | ⟨heq, hnew, hunrecorded⟩
    · exact ⟨isRecorded_update hrecord (h.stamps e hold).1, (h.stamps e hold).2⟩
    · simp only [SwitcherRun.setPhase, heq]
      refine ⟨by rwa [update_self], fun htimed => ?_⟩
      rw [h.timed id htimed] at hunrecorded
      cases hunrecorded
  rest e he := ⟨isRecorded_update hrecord (h.rest e he).1, (h.rest e he).2⟩
  nodup := h.nodup

/-- The request was known before and still is, and its record is not forgotten. -/
abbrev Moves (prev next : RequestPhase) : Prop :=
  prev ≠ .notStarted ∧ next ≠ .notStarted ∧ (prev.isRecorded = true → next.isRecorded = true)

variable {prev : RequestPhase}

theorem Books.move (h : s.Books) (hprev : s.phase id = prev) (hmoves : Moves prev next)
    (hstamps : ∀ e ∈ m.requestTimestamps.entries, e ∈ s.requestTimestamps.entries ∨
      (e.1 = id ∧ next.isRecorded = true ∧ prev.isRecorded = false))
    :
    (SwitcherRun.setPhase { s with toModeSwitcher := m } id next).Books := by
  subst hprev
  have hknown : insert id s.requests = s.requests :=
    Finset.insert_eq_of_mem ((h.known id).2 hmoves.1)
  have hbooks := h.setPhase hmoves.2.1 hmoves.2.2 hstamps
  rwa [hknown] at hbooks

theorem Books.advance (h : s.Books) (id : Nat) : (s.advance id).Books := by
  unfold SwitcherRun.advance
  split <;> rename_i hphase
  · exact h.setPhase (by decide) (by rw [hphase]; decide) fun _ he => inl he
  · exact h.move hphase (by decide) fun _ he => inl he
  · exact h.move hphase (by decide) fun _ he => inl he
  · split
    · exact h
    · -- the only step that records a time, and the request had none
      refine h.move hphase (by decide) fun e he => ?_
      rcases OrderedMap.mem_entries_insert.1 he with rfl | ⟨_, he⟩
      · exact inr ⟨rfl, rfl, rfl⟩
      · exact inl he
  · exact h.move hphase (by decide) fun _ he => inl he
  · split
    · exact h
    · exact h.move hphase (by decide) fun _ he => inl (mem_of_mem_filter he)
  · split
    · exact h.move hphase (by decide) fun _ he => inl he
    · exact h.move hphase (by decide) fun _ he => inl he
  · exact h.move hphase (by decide) fun _ he => inl he
  · exact h.move hphase (by decide) fun _ he => inl he
  · exact h

theorem Books.cleanupTimeoutRequests (h : s.Books) :
    s.cleanupTimeoutRequests.Books := by
  unfold SwitcherRun.cleanupTimeoutRequests
  split <;> rename_i hcleanup
  · split
    · exact h
    · exact ⟨h.known, h.timed, h.stamps, h.stamps,
        (s.requestTimestamps.sorted.imp fun hlt => hlt.ne).map _ fun _ _ hne => hne⟩
  · rename_i now id time rest gaveUp
    have hrest := h.rest
    have hnodup := h.nodup
    simp only [hcleanup, CleanupPhase.rest, map_cons, nodup_cons] at hrest hnodup
    split
    · -- the request leaves both tables and is given up; the entries behind it are of other requests
      refine ⟨h.known, fun i hi => ?_, fun e he => ?_, fun e he => ?_, hnodup.2⟩
      · rcases Finset.mem_insert.1 hi with rfl | hi
        · exact (hrest _ mem_cons_self).1
        · exact h.timed i hi
      · rcases mem_filter.1 he with ⟨hmem, hne⟩
        refine ⟨(h.stamps e hmem).1, ?_⟩
        rw [Finset.mem_insert, not_or]
        exact ⟨of_decide_eq_true hne, (h.stamps e hmem).2⟩
      · refine ⟨(hrest e (mem_cons_of_mem _ he)).1, ?_⟩
        rw [Finset.mem_insert, not_or]
        refine ⟨?_, (hrest e (mem_cons_of_mem _ he)).2⟩
        rintro rfl
        exact hnodup.1 (mem_map_of_mem he)
    · exact ⟨h.known, h.timed, h.stamps, fun e he => hrest e (mem_cons_of_mem _ he), hnodup.2⟩
  · split
    · exact ⟨h.known, h.timed, h.stamps, by rintro e ⟨⟩, nodup_nil⟩
    · exact ⟨h.known, h.timed, h.stamps, by rintro e ⟨⟩, nodup_nil⟩
  · exact ⟨h.known, h.timed, h.stamps, by rintro e ⟨⟩, nodup_nil⟩

theorem Books.step (h : s.Books) (event : SwitcherEvent) :
    (s.step event).Books := by
  cases event with
  | elapse nanoseconds => exact ⟨h.known, h.timed, h.stamps, h.rest, h.nodup⟩
  | request id => exact h.advance id
  | cleanup => exact h.cleanupTimeoutRequests

/-! ## Outstanding requests -/

open RequestPhase

theorem Books.mem_outstanding (h : s.Books) :
    id ∈ s.outstanding ↔ (s.phase id).isOpen = true ∧ id ∉ s.timedOut := by
  simp only [outstanding, Finset.mem_filter, h.known, and_iff_right_iff_imp]
  rintro ⟨hopen, _⟩ hphase
  simp [hphase, isOpen] at hopen

theorem Books.nonempty_of_starting (h : s.Books) (id : Nat) (hopen : (s.phase id).isOpen = true)
    (hnew : (s.phase id).isRecorded = false) :
    s.outstanding.Nonempty := by
  refine ⟨id, h.mem_outstanding.2 ⟨hopen, fun htimed => ?_⟩⟩
  rw [h.timed id htimed] at hnew
  cases hnew

variable {s s' : SwitcherRun}

theorem Books.outstanding_eq (h : s.Books) (h' : s'.Books) (htimedOut : s'.timedOut = s.timedOut)
    (hopen : ∀ i, (s'.phase i).isOpen = (s.phase i).isOpen) : s'.outstanding = s.outstanding := by
  ext i
  rw [h.mem_outstanding, h'.mem_outstanding, htimedOut, hopen]

theorem Books.outstanding_start (h : s.Books) (h' : s'.Books) (hphase : s.phase id = .notStarted)
    (hphase' : s'.phase = update s.phase id .counted) (htimedOut : s'.timedOut = s.timedOut) :
    s'.outstanding = insert id s.outstanding ∧ id ∉ s.outstanding := by
  refine ⟨?_, fun hmem => ?_⟩
  · ext i
    rw [Finset.mem_insert, h.mem_outstanding, h'.mem_outstanding, htimedOut, hphase']
    by_cases heq : i = id
    · subst heq
      have hnew : i ∉ s.timedOut := fun htimed => by
        simpa [hphase, isRecorded] using h.timed i htimed
      simp [isOpen, hnew]
    · simp [heq]
  · simp [h.mem_outstanding, hphase, isOpen] at hmem

theorem Books.outstanding_end (h : s.Books) (h' : s'.Books)
    (hphase' : s'.phase = update s.phase id .uncounted) (htimedOut : s'.timedOut = s.timedOut)
    : s'.outstanding = s.outstanding.erase id := by
  ext i
  rw [Finset.mem_erase, h.mem_outstanding, h'.mem_outstanding, htimedOut, hphase']
  by_cases heq : i = id
  · subst heq
    simp [isOpen]
  · simp [heq]

theorem Books.outstanding_giveUp (h : s.Books) (h' : s'.Books) (hphase' : s'.phase = s.phase)
    (htimedOut : s'.timedOut = insert id s.timedOut) :
    s'.outstanding = s.outstanding.erase id := by
  ext i
  rw [Finset.mem_erase, h.mem_outstanding, h'.mem_outstanding, htimedOut, hphase',
    Finset.mem_insert]
  tauto

theorem Books.switching_of_phase (h : s.Books) (hid : (s.phase id).isSwitching = true) :
    s.Switching := by
  refine inl ⟨id, (h.known id).2 fun hphase => ?_, hid⟩
  simp [hphase, isSwitching] at hid

/-- After a step of a request's thread, it is the one that is switching, or somebody was. -/
theorem Books.switching_of_setPhase (h : s.Books) (hnext : (s'.setPhase id next).Switching)
    (hphase : s'.phase = s.phase) (hcleanup : s'.cleanup = s.cleanup)
    : next.isSwitching = true ∨ s.Switching := by
  rcases hnext with ⟨i, _, hi⟩ | hnext
  · simp only [SwitcherRun.setPhase, hphase] at hi
    by_cases heq : i = id
    · rw [heq, update_self] at hi
      exact inl hi
    · rw [update_of_ne heq] at hi
      exact inr (h.switching_of_phase hi)
  · exact inr (inr (hcleanup.symm.trans hnext))

/-! ## The modes -/

/-- What holds between any two orderly steps: the counter is right, a call that has read zero still
finds nobody outstanding, and a mode that is not the right one yet is still going to be set. -/
structure Sound (s : SwitcherRun) : Prop extends s.Books where
  count : s.activeRequests.toNat = s.outstanding.card
  switching : s.Switching → s.outstanding = ∅
  llmMode : s.outstanding.Nonempty →
    s.currentMode = .llm ∨ ∃ id, (s.phase id).willStoreLLM = true
  llmGPU : s.outstanding.Nonempty →
    s.lastSwitched = some .inference ∨ ∃ id, (s.phase id).willSyncLLM = true
  powMode : s.outstanding = ∅ →
    s.currentMode = .pow ∨ (∃ id, (s.phase id).willStorePoW = true) ∨ s.cleanup.gaveUp = true
  powGPU : s.outstanding = ∅ →
    s.lastSwitched.getD .powMining = .powMining ∨ (∃ id, (s.phase id).willSyncPoW = true) ∨
      s.cleanup.gaveUp = true

theorem sound_initial : initial.Sound where
  toBooks := books_initial
  count := rfl
  switching _ := rfl
  llmMode h := by simp [outstanding, initial] at h
  llmGPU h := by simp [outstanding, initial] at h
  powMode _ := inl rfl
  powGPU _ := inl rfl

theorem Sound.follows (h : s.Sound) : s.Follows := by
  rintro ⟨hphase, hcleanup⟩
  -- no thread has anything left to do
  have hquiet : ∀ P : RequestPhase → Bool, P .notStarted = false → P .started = false →
      P .ended = false → ¬∃ id, P (s.phase id) = true := by
    rintro P hnot hstarted hended ⟨id, hid⟩
    by_cases hmem : id ∈ s.requests
    · rcases hphase id hmem with heq | heq
      · simp [heq, hstarted] at hid
      · simp [heq, hended] at hid
    · rw [h.known, not_not] at hmem
      simp [hmem, hnot] at hid
  refine ⟨h.count, ?_⟩
  rcases s.outstanding.eq_empty_or_nonempty with hempty | hnonempty
  · have hnotGaveUp : s.cleanup.gaveUp ≠ true := by simp [hcleanup, CleanupPhase.gaveUp]
    have hmode := (h.powMode hempty).resolve_right
      (not_or.2 ⟨hquiet willStorePoW rfl rfl rfl, hnotGaveUp⟩)
    have hgpu := (h.powGPU hempty).resolve_right
      (not_or.2 ⟨hquiet willSyncPoW rfl rfl rfl, hnotGaveUp⟩)
    simp [hempty, hmode, hgpu]
  · have hmode := (h.llmMode hnonempty).resolve_right
      (hquiet willStoreLLM rfl rfl rfl)
    have hgpu := (h.llmGPU hnonempty).resolve_right
      (hquiet willSyncLLM rfl rfl rfl)
    simp [hnonempty.ne_empty, hmode, hgpu]

/-- Each mode is set to what it should be, or left alone with what is still going to set it. -/
structure ModesKept (s : SwitcherRun) (m : ModeSwitcher) (prev next : RequestPhase) : Prop where
  llmMode : s.outstanding.Nonempty → m.currentMode = .llm ∨
    m.currentMode = s.currentMode ∧ (prev.willStoreLLM = true → next.willStoreLLM = true)
  llmGPU : s.outstanding.Nonempty → m.lastSwitched = some .inference ∨
    m.lastSwitched = s.lastSwitched ∧ (prev.willSyncLLM = true → next.willSyncLLM = true)
  powMode : s.outstanding = ∅ → m.currentMode = .pow ∨
    m.currentMode = s.currentMode ∧ (prev.willStorePoW = true → next.willStorePoW = true)
  powGPU : s.outstanding = ∅ → m.lastSwitched = some .powMining ∨
    m.lastSwitched = s.lastSwitched ∧ (prev.willSyncPoW = true → next.willSyncPoW = true)

theorem ModesKept.of_same (hmode : m.currentMode = s.currentMode)
    (hgpu : m.lastSwitched = s.lastSwitched)
    (hwill : ∀ will ∈ [willStoreLLM, willSyncLLM, willStorePoW, willSyncPoW],
      will prev = true → will next = true)
    : s.ModesKept m prev next where
  llmMode _ := inr ⟨hmode, hwill _ (by simp)⟩
  llmGPU _ := inr ⟨hgpu, hwill _ (by simp)⟩
  powMode _ := inr ⟨hmode, hwill _ (by simp)⟩
  powGPU _ := inr ⟨hgpu, hwill _ (by simp)⟩

theorem Sound.setPhase (h : s.Sound) (hprev : s.phase id = prev)
    (h' : (SwitcherRun.setPhase { s with toModeSwitcher := m } id next).Books)
    (hcount : m.activeRequests = s.activeRequests) (hopen : next.isOpen = prev.isOpen)
    (hswitching : next.isSwitching = true → s.outstanding = ∅) (hmodes : s.ModesKept m prev next) :
    (SwitcherRun.setPhase { s with toModeSwitcher := m } id next).Sound := by
  subst hprev
  have hsame : (SwitcherRun.setPhase { s with toModeSwitcher := m } id next).outstanding =
      s.outstanding := by
    refine h.toBooks.outstanding_eq h' rfl fun i => ?_
    simp only [SwitcherRun.setPhase]
    by_cases heq : i = id
    · rw [heq, update_self, hopen]
    · rw [update_of_ne heq]
  refine ⟨h', ?_, fun hnext => ?_, fun hnonempty => ?_, fun hnonempty => ?_, fun hempty => ?_,
    fun hempty => ?_⟩
  · rw [hsame]
    exact (congrArg UInt64.toNat hcount).trans h.count
  · rw [hsame]
    rcases h.switching_of_setPhase hnext rfl rfl with hnext | hbefore
    · exact hswitching hnext
    · exact h.switching hbefore
  · rw [hsame] at hnonempty
    rcases hmodes.llmMode hnonempty with hset | ⟨hkeep, hwill⟩
    · exact inl hset
    · exact (h.llmMode hnonempty).imp hkeep.trans (exists_update hwill)
  · rw [hsame] at hnonempty
    rcases hmodes.llmGPU hnonempty with hset | ⟨hkeep, hwill⟩
    · exact inl hset
    · exact (h.llmGPU hnonempty).imp hkeep.trans (exists_update hwill)
  · rw [hsame] at hempty
    rcases hmodes.powMode hempty with hset | ⟨hkeep, hwill⟩
    · exact inl hset
    · exact (h.powMode hempty).imp hkeep.trans (imp_left (exists_update hwill))
  · rw [hsame] at hempty
    rcases hmodes.powGPU hempty with hset | ⟨hkeep, hwill⟩
    · exact inl (congrArg (·.getD .powMining) hset)
    · exact (h.powGPU hempty).imp (congrArg (·.getD .powMining) hkeep).trans
        (imp_left (exists_update hwill))

theorem Sound.start (h : s.Sound) (hphase : s.phase id = .notStarted)
    (hgood : s.Orderly (.request id)) : (s.advance id).Sound := by
  have h' := h.toBooks.advance id
  rcases hgood.1 hphase with ⟨hnotSwitching, hrange⟩
  simp only [SwitcherRun.advance, hphase] at h' ⊢
  rcases h.toBooks.outstanding_start h' hphase rfl rfl with ⟨hinsert, hnotMem⟩
  refine ⟨h', ?_, fun hswitching => absurd ?_ hnotSwitching, fun _ => inr ⟨id, ?_⟩,
    fun _ => inr ⟨id, ?_⟩, fun hempty => ?_, fun hempty => ?_⟩
  · rw [hinsert, Finset.card_insert_of_notMem hnotMem, ← h.count]
    exact (UInt64.toNat_add _ _).trans (Nat.mod_eq_of_lt hrange)
  · exact (h.switching_of_setPhase hswitching rfl rfl).resolve_left (by rintro ⟨⟩)
  · simp [SwitcherRun.setPhase, willStoreLLM]
  · simp [SwitcherRun.setPhase, willSyncLLM]
  · simp [hinsert] at hempty
  · simp [hinsert] at hempty

/-- An outstanding request leaves, by its end or by a cleanup: whoever takes it away is left to
restore the modes. -/
theorem Sound.leave (h : s.Sound) (h' : s'.Books) (hmem : id ∈ s.outstanding)
    (herase : s'.outstanding = s.outstanding.erase id)
    (hcount : s'.activeRequests = s.activeRequests - 1) (hmode : s'.currentMode = s.currentMode)
    (hgpu : s'.lastSwitched = s.lastSwitched) (hswitching : s'.Switching → s.Switching)
    (hllmMode : (∃ i, (s.phase i).willStoreLLM = true) → ∃ i, (s'.phase i).willStoreLLM = true)
    (hllmGPU : (∃ i, (s.phase i).willSyncLLM = true) → ∃ i, (s'.phase i).willSyncLLM = true)
    (hpowMode : (∃ i, (s'.phase i).willStorePoW = true) ∨ s'.cleanup.gaveUp = true)
    (hpowGPU : (∃ i, (s'.phase i).willSyncPoW = true) ∨ s'.cleanup.gaveUp = true) :
    s'.Sound := by
  have hnonempty : s.outstanding.Nonempty := ⟨id, hmem⟩
  refine ⟨h', ?_, fun hnext => absurd (h.switching (hswitching hnext)) hnonempty.ne_empty,
    fun _ => ?_, fun _ => ?_, fun _ => inr hpowMode, fun _ => inr hpowGPU⟩
  · have hone : (1 : UInt64) ≤ s.activeRequests := by
      rw [UInt64.le_iff_toNat_le, h.count]
      exact Finset.card_pos.2 hnonempty
    rw [hcount, UInt64.toNat_sub_of_le _ _ hone, h.count, herase, Finset.card_erase_of_mem hmem]
    rfl
  · rw [hmode]
    exact (h.llmMode hnonempty).imp_right hllmMode
  · rw [hgpu]
    exact (h.llmGPU hnonempty).imp_right hllmGPU

theorem Sound.finish (h : s.Sound) (hphase : s.phase id = .started)
    (hgood : s.Orderly (.request id)) : (s.advance id).Sound := by
  have h' := h.toBooks.advance id
  have hmem : id ∈ s.outstanding :=
    h.mem_outstanding.2 ⟨by simp [hphase, isOpen], hgood.2 hphase⟩
  simp only [SwitcherRun.advance, hphase] at h' ⊢
  refine h.leave h' hmem (h.toBooks.outstanding_end h' rfl rfl) rfl rfl rfl
    (fun hnext => (h.switching_of_setPhase hnext rfl rfl).resolve_left (by rintro ⟨⟩))
    (exists_update (by simp [hphase, willStoreLLM]))
    (exists_update (by simp [hphase, willSyncLLM])) (inl ⟨id, ?_⟩)
    (inl ⟨id, ?_⟩)
  · simp [SwitcherRun.setPhase, willStorePoW]
  · simp [SwitcherRun.setPhase, willSyncPoW]

theorem Sound.outstanding_eq_empty_iff (h : s.Sound) :
    s.outstanding = ∅ ↔ s.activeRequests = 0 := by
  rw [← Finset.card_eq_zero, ← h.count]
  exact UInt64.toNat_inj (b := 0)

theorem Sound.advance (h : s.Sound) (hgood : s.Orderly (.request id)) : (s.advance id).Sound := by
  have h' := h.toBooks.advance id
  cases hphase : s.phase id with
  | notStarted => exact h.start hphase hgood
  | started => exact h.finish hphase hgood
  | counted =>
    have hnonempty := h.nonempty_of_starting id (by rw [hphase]; rfl) (by rw [hphase]; rfl)
    simp only [SwitcherRun.advance, hphase] at h' ⊢
    exact h.setPhase hphase h' rfl rfl (by rintro ⟨⟩)
      { llmMode := fun _ => inl rfl
        llmGPU := fun _ => inr ⟨rfl, by decide⟩
        powMode := fun hempty => absurd hempty hnonempty.ne_empty
        powGPU := fun hempty => absurd hempty hnonempty.ne_empty }
  | modeStored =>
    have hnonempty := h.nonempty_of_starting id (by rw [hphase]; rfl) (by rw [hphase]; rfl)
    simp only [SwitcherRun.advance, hphase] at h' ⊢
    exact h.setPhase hphase h' rfl rfl (by rintro ⟨⟩)
      { llmMode := fun _ => inr ⟨rfl, by decide⟩
        llmGPU := fun _ => inl rfl
        powMode := fun hempty => absurd hempty hnonempty.ne_empty
        powGPU := fun hempty => absurd hempty hnonempty.ne_empty }
  | gpuSynced =>
    simp only [SwitcherRun.advance, hphase] at h' ⊢
    split_ifs at h' ⊢
    · exact h
    · exact h.setPhase hphase h' rfl rfl (by rintro ⟨⟩) (.of_same rfl rfl (by decide))
  | uncounted =>
    simp only [SwitcherRun.advance, hphase] at h' ⊢
    split_ifs at h' ⊢
    · exact h
    · exact h.setPhase hphase h' rfl rfl (by rintro ⟨⟩) (.of_same rfl rfl (by decide))
  | erased =>
    simp only [SwitcherRun.advance, hphase] at h' ⊢
    split_ifs at h' ⊢ with hzero
    · have hempty := h.outstanding_eq_empty_iff.2 hzero
      exact h.setPhase hphase h' rfl rfl (fun _ => hempty) (.of_same rfl rfl (by decide))
    · have hne := mt h.outstanding_eq_empty_iff.1 hzero
      exact h.setPhase hphase h' rfl rfl (by rintro ⟨⟩)
        { llmMode := fun _ => inr ⟨rfl, by decide⟩
          llmGPU := fun _ => inr ⟨rfl, by decide⟩
          powMode := fun hempty => absurd hempty hne
          powGPU := fun hempty => absurd hempty hne }
  | sawZero =>
    have hempty := h.switching (h.switching_of_phase (by rw [hphase]; rfl))
    simp only [SwitcherRun.advance, hphase] at h' ⊢
    exact h.setPhase hphase h' rfl rfl (fun _ => hempty)
      { llmMode := fun hnonempty => absurd hempty hnonempty.ne_empty
        llmGPU := fun hnonempty => absurd hempty hnonempty.ne_empty
        powMode := fun _ => inl rfl
        powGPU := fun _ => inr ⟨rfl, by decide⟩ }
  | modeRestored =>
    have hempty := h.switching (h.switching_of_phase (by rw [hphase]; rfl))
    simp only [SwitcherRun.advance, hphase] at h' ⊢
    exact h.setPhase hphase h' rfl rfl (by rintro ⟨⟩)
      { llmMode := fun hnonempty => absurd hempty hnonempty.ne_empty
        llmGPU := fun hnonempty => absurd hempty hnonempty.ne_empty
        powMode := fun _ => inr ⟨rfl, by decide⟩
        powGPU := fun _ => inl rfl }
  | ended =>
    simp only [SwitcherRun.advance, hphase]
    exact h

/-- A step of the cleanup that gives nobody up: the modes stay, unless it stores proof of work when
nobody is outstanding. -/
theorem Sound.setCleanup (h : s.Sound) (h' : s'.Books) (hphase : s'.phase = s.phase)
    (htimedOut : s'.timedOut = s.timedOut) (hcount : s'.activeRequests = s.activeRequests)
    (hgpu : s'.lastSwitched = s.lastSwitched)
    (hmode : s'.currentMode = s.currentMode ∨ s'.currentMode = .pow ∧ s.outstanding = ∅)
    (hswitching : s'.cleanup = .sawZero → s.outstanding = ∅)
    (hgaveUp : s.outstanding = ∅ → s.cleanup.gaveUp = true → s'.cleanup.gaveUp = true) :
    s'.Sound := by
  have hsame : s'.outstanding = s.outstanding :=
    h.toBooks.outstanding_eq h' htimedOut fun i => by rw [hphase]
  refine ⟨h', ?_, fun hnext => ?_, fun hnonempty => ?_, fun hnonempty => ?_, fun hempty => ?_,
    fun hempty => ?_⟩
  · rw [hsame, hcount, h.count]
  · rw [hsame]
    rcases hnext with ⟨i, _, hi⟩ | hnext
    · exact h.switching (h.switching_of_phase (by rwa [hphase] at hi))
    · exact hswitching hnext
  · rw [hsame] at hnonempty
    rcases hmode with hmode | ⟨_, hempty⟩
    · rw [hmode, hphase]
      exact h.llmMode hnonempty
    · exact absurd hempty hnonempty.ne_empty
  · rw [hsame] at hnonempty
    rw [hgpu, hphase]
    exact h.llmGPU hnonempty
  · rw [hsame] at hempty
    rcases hmode with hmode | ⟨hmode, _⟩
    · rw [hmode, hphase]
      exact (h.powMode hempty).imp_right (imp_right (hgaveUp hempty))
    · exact inl hmode
  · rw [hsame] at hempty
    rw [hgpu, hphase]
    exact (h.powGPU hempty).imp_right (imp_right (hgaveUp hempty))

theorem Sound.cleanupTimeoutRequests (h : s.Sound) (hgood : s.Orderly .cleanup) :
    s.cleanupTimeoutRequests.Sound := by
  have h' := h.toBooks.cleanupTimeoutRequests
  unfold Orderly at hgood
  unfold SwitcherRun.cleanupTimeoutRequests at h' ⊢
  split at h' <;> rename_i hcleanup <;> simp only [hcleanup] at hgood ⊢
  · split_ifs at h' ⊢
    · exact h
    · exact h.setCleanup h' rfl rfl rfl rfl (inl rfl) (by rintro ⟨⟩)
        (fun _ hbefore => by simp [hcleanup, CleanupPhase.gaveUp] at hbefore)
  · rename_i now id time rest gaveUp
    split_ifs at h' ⊢ with htimeout
    · have hmem : id ∈ s.outstanding := by
        refine h.mem_outstanding.2 ⟨hgood htimeout, (h.rest (id, time) ?_).2⟩
        rw [hcleanup]
        exact mem_cons_self
      exact h.leave h' hmem (h.toBooks.outstanding_giveUp h' rfl rfl) rfl rfl rfl
        (fun hnext => inl (hnext.resolve_right (by rintro ⟨⟩))) (fun hwill => hwill)
        (fun hwill => hwill) (inr rfl) (inr rfl)
    · exact h.setCleanup h' rfl rfl rfl rfl (inl rfl) (by rintro ⟨⟩)
        (fun _ hbefore => by rwa [hcleanup] at hbefore)
  · split_ifs at h' ⊢ with hzero
    · exact h.setCleanup h' rfl rfl rfl rfl (inl rfl)
        (fun _ => h.outstanding_eq_empty_iff.2 hzero)
        (fun _ hbefore => by
          rw [hcleanup] at hbefore
          exact absurd hbefore (by simp [CleanupPhase.gaveUp, hgood hzero]))
    · exact h.setCleanup h' rfl rfl rfl rfl (inl rfl) (by rintro ⟨⟩)
        (fun hempty => absurd (h.outstanding_eq_empty_iff.1 hempty) hzero)
  · exact h.setCleanup h' rfl rfl rfl rfl (inr ⟨rfl, h.switching (inr hcleanup)⟩)
      (by rintro ⟨⟩) (fun _ hbefore => by simp [hcleanup, CleanupPhase.gaveUp] at hbefore)

theorem Sound.step (h : s.Sound) {event : SwitcherEvent} (hgood : s.Orderly event) :
    (s.step event).Sound := by
  cases event with
  | elapse nanoseconds =>
    exact ⟨h.toBooks.step (.elapse nanoseconds), h.count, h.switching, h.llmMode, h.llmGPU,
      h.powMode, h.powGPU⟩
  | request id => exact h.advance hgood
  | cleanup => exact h.cleanupTimeoutRequests hgood

/-- In every run of orderly steps, the counter and both modes follow the outstanding requests
whenever no call is in progress. -/
theorem follows_of_orderly (events : List SwitcherEvent)
    (hrun : GoodRun SwitcherRun.step Orderly initial events) :
    Always SwitcherRun.step Follows initial events :=
  hrun.always (fun _ _ h hgood => h.step hgood) (fun _ h => h.follows) sound_initial

def startOf (id : Nat) : List SwitcherEvent :=
  List.replicate 4 (.request id)

def overlappingRun : List SwitcherEvent :=
  startOf 1 ++ startOf 2 ++ List.replicate 3 (.request 1) ++ List.replicate 4 .cleanup ++
    List.replicate 5 (.request 2)

theorem follows_overlappingRun :
    GoodRun SwitcherRun.step Orderly initial overlappingRun ∧
      Always SwitcherRun.step Follows initial overlappingRun := by
  have hrun : GoodRun SwitcherRun.step Orderly initial overlappingRun := by decide +kernel
  exact ⟨hrun, follows_of_orderly overlappingRun hrun⟩

def timeoutRun : List SwitcherEvent :=
  startOf 1 ++ [.elapse 31000000000] ++ List.replicate 4 .cleanup

def timeoutThenEndRun : List SwitcherEvent :=
  timeoutRun ++ List.replicate 3 (.request 1)

/-- The second request starts between the moment the end of the first reads zero and its switch. -/
def racingRun : List SwitcherEvent :=
  startOf 1 ++ List.replicate 3 (.request 1) ++ List.replicate 3 (.request 2) ++
    List.replicate 2 (.request 1) ++ [.request 2]

theorem not_follows_timeout_race :
    ¬Always SwitcherRun.step Follows initial timeoutRun ∧
      (run SwitcherRun.step initial timeoutThenEndRun).activeRequests = 18446744073709551615 ∧
      ¬Always SwitcherRun.step Follows initial timeoutThenEndRun ∧
      ¬Always SwitcherRun.step Follows initial racingRun := by
  refine ⟨fun h => ?_, by decide +kernel, fun h => ?_, fun h => ?_⟩
  · exact absurd h.last (by decide +kernel)
  · exact absurd h.last (by decide +kernel)
  · exact absurd h.last (by decide +kernel)

end SwitcherRun

end TKNC.Miner
