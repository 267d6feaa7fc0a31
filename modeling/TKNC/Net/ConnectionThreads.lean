import Mathlib.Logic.Function.Basic
import TKNC.Lib.EventMachine
import TKNC.Lib.Numeral

/-!
# ConnectionThreads — the end of a connection and the threads that see it

Every connection has a thread that receives, and its handle is stored under the peer id.
`DisconnectPeer` erases the connection, joins that thread and calls the connection handler.  The
heartbeat thread calls it for a connection that is silent for too long, and the receive thread calls
it when it sees its own connection end; then the thread that is joined is the one that joins.
`std::thread::join` answers that with an exception which nothing catches.

The run of one connection from the point where it has ended interleaves the receive thread, the
thread that opened the connection and has still to store the handle, and another thread that calls
`DisconnectPeer`.  A turn of the receive loop is one step: what the others do during a turn has the
same effect before or after it.  The connection handler is set, and the manager is running.
-/

namespace TKNC.Net

open Lib.EventMachine Lib.Numeral

/-! ## The manager -/

structure PeerThreads where
  /-- The peers with a connection. -/
  connections : Bytes → Bool
  /-- The peers whose receive thread has its handle stored. -/
  receiveThreads : Bytes → Bool
  /-- The peers that the connection handler was called for with `false`, oldest first. -/
  disconnectCalls : List Bytes

def eagain : Int := 11

/-- How a receive thread can see its connection end.  `recv` leaves `errno` alone when the peer has
closed; an error that says only that no data is there is no end. -/
inductive Ending where
  | receiveError (errno : Int) (fatal : errno ≠ eagain)
  | peerClose (errno : Int)
  | invalidLength

structure EndedPeer extends PeerThreads where
  /-- The receive thread is in its loop. -/
  receiving : Bool
  /-- Another thread waits for it in `DisconnectPeer`. -/
  joining : Bool
  /-- The receive thread was asked to join itself, and the process has terminated. -/
  joinedItself : Bool

inductive PeerCaller where
  | receiveThread
  | otherThread
  deriving DecidableEq

inductive PeerStep where
  | storeHandle
  | receive
  | disconnect
  | resume
  deriving DecidableEq

namespace EndedPeer

def eraseConnection (s : EndedPeer) (peerId : Bytes) : EndedPeer :=
  { s with connections := Function.update s.connections peerId false }

def setHandle (s : EndedPeer) (peerId : Bytes) (stored : Bool) : EndedPeer :=
  { s with receiveThreads := Function.update s.receiveThreads peerId stored }

def callHandler (s : EndedPeer) (peerId : Bytes) : EndedPeer :=
  { s with disconnectCalls := s.disconnectCalls ++ [peerId] }

def disconnectPeer (s : EndedPeer) (peerId : Bytes) (caller : PeerCaller) : EndedPeer :=
  if s.connections peerId = false then s
  else
    let s := s.eraseConnection peerId
    if s.receiveThreads peerId then
      match caller with
      | .receiveThread => { s with joinedItself := true }
      | .otherThread =>
          if s.receiving then { s with joining := true }
          else (s.setHandle peerId false).callHandler peerId
    else
      s.callHandler peerId

def receiveFailed (s : EndedPeer) (peerId : Bytes) (errno : Int) : EndedPeer :=
  if errno ≠ eagain then
    let s := s.disconnectPeer peerId .receiveThread
    if s.joinedItself then s else { s with receiving := false }
  else
    s

def receiveTurn (s : EndedPeer) (peerId : Bytes) (ending : Ending) : EndedPeer :=
  if s.receiving = false then s
  else if s.connections peerId = false then { s with receiving := false }
  else
    match ending with
    | .receiveError errno _ => s.receiveFailed peerId errno
    | .peerClose errno => s.receiveFailed peerId errno
    -- the buffer is cleared and the loop goes on to find the connection gone
    | .invalidLength => s.disconnectPeer peerId .receiveThread

def resumeDisconnect (s : EndedPeer) (peerId : Bytes) : EndedPeer :=
  if s.joining && !s.receiving then
    { (s.setHandle peerId false).callHandler peerId with joining := false }
  else
    s

def step (peerId : Bytes) (ending : Ending) (s : EndedPeer) (event : PeerStep) : EndedPeer :=
  if s.joinedItself then s
  else
    match event with
    | .storeHandle => s.setHandle peerId true
    | .receive => s.receiveTurn peerId ending
    | .disconnect => s.disconnectPeer peerId .otherThread
    | .resume => s.resumeDisconnect peerId

def initial (m : PeerThreads) : EndedPeer where
  toPeerThreads := m
  receiving := true
  joining := false
  joinedItself := false

/-- The steps that are still to come whatever has been scheduled: the heartbeat finds the connection
silent, the receive loop goes on, and the heartbeat after it. -/
def lastSteps : List PeerStep :=
  [.disconnect, .receive, .receive, .resume]

def afterSteps (m : PeerThreads) (peerId : Bytes) (ending : Ending) (schedule : List PeerStep) :
    EndedPeer :=
  run (step peerId ending) (initial m) (schedule ++ lastSteps)

/-- The peer is cleaned up, and no other peer is touched. -/
structure CleanedUp (m : PeerThreads) (peerId : Bytes) (s : EndedPeer) : Prop where
  removed : s.connections peerId = false
  handlerOnce : s.disconnectCalls = m.disconnectCalls ++ [peerId]
  notItself : s.joinedItself = false
  terminated : s.receiving = false
  others : ∀ other, other ≠ peerId →
    s.connections other = m.connections other ∧ s.receiveThreads other = m.receiveThreads other

end EndedPeer

/-! ## Phases

open ──receive, handle not stored──▸ cleaned ──receive, handle stored──────▸ terminated
open ──disconnect──────────────────▸ joining or cleaned
joining ──resume behind the loop───▸ cleaned
-/

inductive EndPhase where
  | isOpen (stored : Bool)
  | joining (receiving : Bool)
  | cleaned (stored receiving : Bool)
  | terminated
  deriving DecidableEq

namespace Ending

/-- The receive loop takes the end for a lack of data. -/
def Unseen : Ending → Prop
  | .peerClose errno => errno = eagain
  | _ => False

instance (ending : Ending) : Decidable ending.Unseen :=
  match ending with
  | .receiveError _ _ => .isFalse id
  | .peerClose errno => inferInstanceAs (Decidable (errno = eagain))
  | .invalidLength => .isFalse id

def leaves : Ending → Bool
  | .invalidLength => false
  | _ => true

end Ending

namespace EndPhase

def next (ending : Ending) : EndPhase → PeerStep → EndPhase
  | .isOpen _, .storeHandle => .isOpen true
  | .isOpen stored, .receive =>
      if ending.Unseen then .isOpen stored
      else if stored then .terminated
      else .cleaned false (!ending.leaves)
  | .isOpen stored, .disconnect => if stored then .joining true else .cleaned false true
  | .isOpen stored, .resume => .isOpen stored
  | .joining _, .receive => .joining false
  | .joining false, .resume => .cleaned false false
  | .joining receiving, _ => .joining receiving
  | .cleaned _ receiving, .storeHandle => .cleaned true receiving
  | .cleaned stored _, .receive => .cleaned stored false
  | .cleaned stored receiving, _ => .cleaned stored receiving
  | .terminated, _ => .terminated

def realize (m : PeerThreads) (peerId : Bytes) : EndPhase → EndedPeer
  | .isOpen stored => (EndedPeer.initial m).setHandle peerId stored
  | .joining receiving =>
      { ((EndedPeer.initial m).eraseConnection peerId).setHandle peerId true with
        receiving, joining := true }
  | .cleaned stored receiving =>
      { (((EndedPeer.initial m).eraseConnection peerId).setHandle peerId stored).callHandler
          peerId with
        receiving }
  | .terminated =>
      { ((EndedPeer.initial m).eraseConnection peerId).setHandle peerId true with
        joinedItself := true }

variable {m : PeerThreads} {peerId : Bytes}

open EndedPeer

theorem disconnectPeer_isOpen_false (hconnected : m.connections peerId = true)
    (caller : PeerCaller) :
    (realize m peerId (.isOpen false)).disconnectPeer peerId caller =
      realize m peerId (.cleaned false true) := by
  simp [disconnectPeer, realize, initial, setHandle,
    eraseConnection, callHandler, hconnected]

theorem disconnectPeer_isOpen_true (hconnected : m.connections peerId = true) :
    (realize m peerId (.isOpen true)).disconnectPeer peerId .receiveThread =
        realize m peerId .terminated ∧
      (realize m peerId (.isOpen true)).disconnectPeer peerId .otherThread =
        realize m peerId (.joining true) := by
  simp [disconnectPeer, realize, initial, setHandle,
    eraseConnection, hconnected]

theorem receiveFailed_isOpen (hconnected : m.connections peerId = true) (stored : Bool)
    {errno : Int} (herrno : errno ≠ eagain) :
    (realize m peerId (.isOpen stored)).receiveFailed peerId errno =
      realize m peerId (if stored then .terminated else .cleaned false false) := by
  rw [receiveFailed, if_pos herrno]
  cases stored with
  | false =>
    rw [disconnectPeer_isOpen_false hconnected]
    rfl
  | true =>
    rw [(disconnectPeer_isOpen_true hconnected).1]
    rfl

theorem receiveTurn_isOpen (hconnected : m.connections peerId = true) (ending : Ending)
    (stored : Bool) :
    (realize m peerId (.isOpen stored)).receiveTurn peerId ending =
      realize m peerId (next ending (.isOpen stored) .receive) := by
  have hopen : ¬(realize m peerId (.isOpen stored)).connections peerId = false := by
    simp [realize, initial, setHandle, hconnected]
  unfold receiveTurn
  rw [if_neg (by exact Bool.noConfusion), if_neg hopen]
  cases ending with
  | receiveError errno fatal => exact receiveFailed_isOpen hconnected stored fatal
  | peerClose errno =>
    by_cases hunseen : (Ending.peerClose errno).Unseen
    · rw [next, if_pos hunseen]
      exact if_neg (not_not_intro hunseen)
    · rw [next, if_neg hunseen]
      exact receiveFailed_isOpen hconnected stored hunseen
  | invalidLength =>
    cases stored with
    | false => exact disconnectPeer_isOpen_false hconnected .receiveThread
    | true => exact (disconnectPeer_isOpen_true hconnected).1

theorem receiveTurn_of_erased {s : EndedPeer} (h : s.connections peerId = false)
    (ending : Ending) : s.receiveTurn peerId ending = { s with receiving := false } := by
  unfold receiveTurn
  split
  · rename_i hdone
    rw [← hdone]
  · rfl

theorem disconnectPeer_of_erased {s : EndedPeer} (h : s.connections peerId = false)
    (caller : PeerCaller) : s.disconnectPeer peerId caller = s := by
  rw [disconnectPeer, if_pos h]

theorem erased_joining (receiving : Bool) :
    (realize m peerId (.joining receiving)).connections peerId = false :=
  Function.update_self ..

theorem erased_cleaned (stored receiving : Bool) :
    (realize m peerId (.cleaned stored receiving)).connections peerId = false :=
  Function.update_self ..

theorem step_realize (hconnected : m.connections peerId = true) (ending : Ending)
    (phase : EndPhase) (event : PeerStep) :
    step peerId ending (phase.realize m peerId) event =
      (phase.next ending event).realize m peerId := by
  cases phase with
  | isOpen stored =>
    cases event with
    | storeHandle =>
      simp [step, realize, next, setHandle, initial]
    | receive => exact receiveTurn_isOpen hconnected ending stored
    | disconnect =>
      cases stored with
      | false => exact disconnectPeer_isOpen_false hconnected .otherThread
      | true => exact (disconnectPeer_isOpen_true hconnected).2
    | resume => rfl
  | joining receiving =>
    cases event with
    | storeHandle =>
      cases receiving <;>
        simp [step, realize, next, setHandle, initial]
    | receive => exact receiveTurn_of_erased (erased_joining receiving) ending
    | disconnect =>
      cases receiving <;> exact disconnectPeer_of_erased (erased_joining _) .otherThread
    | resume =>
      cases receiving with
      | false =>
        simp [step, resumeDisconnect, realize, next,
          setHandle, callHandler, eraseConnection,
          initial]
      | true => rfl
  | cleaned stored receiving =>
    cases event with
    | storeHandle =>
      simp [step, realize, next, setHandle, callHandler,
        eraseConnection, initial]
    | receive => exact receiveTurn_of_erased (erased_cleaned stored receiving) ending
    | disconnect => exact disconnectPeer_of_erased (erased_cleaned stored receiving) .otherThread
    | resume => rfl
  | terminated => rfl

theorem run_realize (hconnected : m.connections peerId = true) (ending : Ending)
    (phase : EndPhase) (schedule : List PeerStep) :
    run (step peerId ending) (phase.realize m peerId) schedule =
      (run (next ending) phase schedule).realize m peerId := by
  induction schedule generalizing phase with
  | nil => rfl
  | cons event schedule ih =>
    rw [run, List.foldl_cons, step_realize hconnected, ← run, ih]
    rfl

theorem realize_initial (m : PeerThreads) (peerId : Bytes) :
    realize m peerId (.isOpen (m.receiveThreads peerId)) = initial m := by
  simp [realize, setHandle, initial]

theorem cleanedUp_lastSteps_iff (m : PeerThreads) (peerId : Bytes) (ending : Ending)
    (phase : EndPhase) :
    EndedPeer.CleanedUp m peerId
        ((run (next ending) phase lastSteps).realize m peerId) ↔
      phase ≠ .terminated := by
  have hcleaned : ∀ stored,
      EndedPeer.CleanedUp m peerId (realize m peerId (.cleaned stored false)) := by
    intro stored
    refine ⟨erased_cleaned stored false, rfl, rfl, rfl, fun other hother => ⟨?_, ?_⟩⟩
    · exact Function.update_of_ne hother ..
    · exact Function.update_of_ne hother ..
  cases phase with
  | isOpen stored =>
    cases stored with
    | false => exact iff_of_true (hcleaned false) (by simp)
    | true => exact iff_of_true (hcleaned false) (by simp)
  | joining receiving =>
    cases receiving with
    | false => exact iff_of_true (hcleaned false) (by simp)
    | true => exact iff_of_true (hcleaned false) (by simp)
  | cleaned stored receiving => exact iff_of_true (hcleaned stored) (by simp)
  | terminated => exact iff_of_false (fun h => Bool.noConfusion h.notItself) (by simp)

/-! ## When the receive thread joins itself -/

/-- The connection is erased, and not by a thread that joins itself. -/
def Erased : EndPhase → Prop
  | .joining _ => True
  | .cleaned _ _ => True
  | _ => False

variable {phase : EndPhase}

theorem Erased.next (h : phase.Erased) (ending : Ending) (event : PeerStep) :
    (phase.next ending event).Erased := by
  cases phase with
  | isOpen stored => exact h.elim
  | joining receiving => cases event <;> cases receiving <;> trivial
  | cleaned stored receiving => cases event <;> trivial
  | terminated => exact h.elim

theorem Erased.afterRun (h : phase.Erased) (ending : Ending) (schedule : List PeerStep) :
    (run (EndPhase.next ending) phase schedule).Erased := by
  have hstep : ∀ phase event, Erased phase → Erased (EndPhase.next ending phase event) :=
    fun _ event hphase => hphase.next ending event
  exact run_invariant hstep h schedule

theorem Erased.ne_terminated (h : phase.Erased) : phase ≠ .terminated := by
  rintro rfl
  exact h

theorem run_terminated (ending : Ending) (schedule : List PeerStep) :
    run (next ending) .terminated schedule = .terminated := by
  have hstep : ∀ phase event, phase = EndPhase.terminated →
      next ending phase event = .terminated := by
    rintro phase event rfl
    rfl
  exact run_invariant hstep rfl schedule

/-- Before the first turn of the receive thread, and without another thread that disconnects. -/
theorem run_isOpen (ending : Ending) {before : List PeerStep} (hreceive : .receive ∉ before)
    (hdisconnect : .disconnect ∉ before) (stored : Bool) :
    run (next ending) (.isOpen stored) before =
      .isOpen (stored || decide (PeerStep.storeHandle ∈ before)) := by
  induction before generalizing stored with
  | nil => simp [run]
  | cons event before ih =>
    rw [List.mem_cons, not_or] at hreceive hdisconnect
    have hrest := ih hreceive.2 hdisconnect.2
    cases event with
    | storeHandle =>
      have hstep := hrest true
      rw [Bool.true_or] at hstep
      rw [decide_eq_true List.mem_cons_self, Bool.or_true]
      exact hstep
    | receive => exact absurd rfl hreceive.1
    | disconnect => exact absurd rfl hdisconnect.1
    | resume =>
      have hmem : PeerStep.storeHandle ∈ PeerStep.resume :: before ↔
          PeerStep.storeHandle ∈ before := by simp
      rw [decide_eq_decide.2 hmem]
      exact hrest stored

theorem erased_of_disconnect (ending : Ending) {before : List PeerStep}
    (hreceive : .receive ∉ before) (hdisconnect : .disconnect ∈ before) (stored : Bool) :
    (run (next ending) (.isOpen stored) before).Erased := by
  obtain ⟨first, rest, rfl, hfirst⟩ := List.eq_append_cons_of_mem hdisconnect
  have hopen := run_isOpen ending (fun h => hreceive (List.mem_append_left _ h)) hfirst stored
  rw [run_append_cons, hopen]
  refine Erased.afterRun ?_ ending rest
  rw [next]
  split <;> trivial

/-- An end that the loop does not see is never followed by a join of itself. -/
theorem ne_terminated_of_unseen {ending : Ending} (h : ending.Unseen) (hphase : phase ≠ .terminated)
    (schedule : List PeerStep) :
    run (next ending) phase schedule ≠ .terminated := by
  have hstep : ∀ phase event, phase ≠ EndPhase.terminated →
      next ending phase event ≠ .terminated := by
    intro phase event hphase
    cases phase with
    | isOpen stored => cases event <;> cases stored <;> simp [next, h]
    | joining receiving =>
      have herased : (EndPhase.joining receiving).Erased := trivial
      exact (herased.next ending event).ne_terminated
    | cleaned stored receiving =>
      have herased : (EndPhase.cleaned stored receiving).Erased := trivial
      exact (herased.next ending event).ne_terminated
    | terminated => exact absurd rfl hphase
  exact run_invariant hstep hphase schedule

theorem ne_terminated_without_receive (ending : Ending) {schedule : List PeerStep}
    (h : .receive ∉ schedule) (stored : Bool) :
    run (next ending) (.isOpen stored) schedule ≠ .terminated := by
  by_cases hdisconnect : .disconnect ∈ schedule
  · exact (erased_of_disconnect ending h hdisconnect stored).ne_terminated
  · rw [run_isOpen ending h hdisconnect]
    exact EndPhase.noConfusion

end EndPhase

/-- However the threads are scheduled: the peer is cleaned up exactly if, in its first turn, the
receive thread does not see the end, finds its handle not stored yet, or comes after another thread
that has disconnected the peer. -/
theorem cleanedUp_iff (m : PeerThreads) (peerId : Bytes) (hconnected : m.connections peerId = true)
    (ending : Ending) (schedule : List PeerStep) :
    EndedPeer.CleanedUp m peerId (EndedPeer.afterSteps m peerId ending schedule) ↔
      ∀ before after, schedule = before ++ .receive :: after → .receive ∉ before →
        ending.Unseen ∨ (m.receiveThreads peerId = false ∧ .storeHandle ∉ before) ∨
          .disconnect ∈ before := by
  have hphases : EndedPeer.CleanedUp m peerId (EndedPeer.afterSteps m peerId ending schedule) ↔
      run (EndPhase.next ending) (.isOpen (m.receiveThreads peerId)) schedule ≠ .terminated := by
    rw [EndedPeer.afterSteps, ← EndPhase.realize_initial m peerId,
      EndPhase.run_realize hconnected, run, List.foldl_append]
    exact EndPhase.cleanedUp_lastSteps_iff m peerId ending _
  rw [hphases]
  constructor
  · rintro h before after rfl hreceive
    by_contra hnot
    rw [not_or, not_or] at hnot
    obtain ⟨hunseen, hstored, hdisconnect⟩ := hnot
    -- the turn finds the handle stored and the connection there
    have hhandle : (m.receiveThreads peerId || decide (PeerStep.storeHandle ∈ before)) = true := by
      by_contra hfalse
      rw [Bool.not_eq_true, Bool.or_eq_false_iff, decide_eq_false_iff_not] at hfalse
      exact hstored hfalse
    rw [run_append_cons, EndPhase.run_isOpen ending hreceive hdisconnect, hhandle, EndPhase.next,
      if_neg hunseen] at h
    exact h (EndPhase.run_terminated ending after)
  · intro h
    by_cases hreceive : .receive ∈ schedule
    · obtain ⟨before, after, rfl, hfirst⟩ := List.eq_append_cons_of_mem hreceive
      by_cases hunseen : ending.Unseen
      · exact EndPhase.ne_terminated_of_unseen hunseen EndPhase.noConfusion _
      rw [run_append_cons]
      by_cases hdisconnect : .disconnect ∈ before
      · have herased := EndPhase.erased_of_disconnect ending hfirst hdisconnect
          (m.receiveThreads peerId)
        exact ((herased.next ending .receive).afterRun ending after).ne_terminated
      · obtain ⟨hhandle, hstore⟩ :=
          ((h before after rfl hfirst).resolve_left hunseen).resolve_right hdisconnect
        have hcleaned : (EndPhase.next ending (.isOpen false) .receive).Erased := by
          rw [EndPhase.next, if_neg hunseen]
          trivial
        rw [EndPhase.run_isOpen ending hfirst hdisconnect, hhandle, decide_eq_false hstore]
        exact (hcleaned.afterRun ending after).ne_terminated
    · exact EndPhase.ne_terminated_without_receive ending hreceive _

def onePeer (stored : Bool) : PeerThreads where
  connections := fun peerId => decide (peerId = ascii "p")
  receiveThreads := fun _ => stored
  disconnectCalls := []

/-- A connection reset before the handle is stored. -/
theorem cleanedUp_before_handle_stored :
    EndedPeer.CleanedUp (onePeer false) (ascii "p")
      (EndedPeer.afterSteps (onePeer false) (ascii "p") (.receiveError 104 (by decide))
        [.receive, .storeHandle]) := by
  refine (cleanedUp_iff _ _ (by decide) _ _).2 ?_
  intro before after hschedule hfirst
  cases before with
  | nil => exact Or.inr (Or.inl ⟨rfl, List.not_mem_nil⟩)
  | cons event before =>
    rw [List.cons_append, List.cons.injEq] at hschedule
    exact absurd (hschedule.1 ▸ List.mem_cons_self) hfirst

/-- A connection reset while the handle is stored: the receive thread joins itself. -/
theorem receive_thread_joins_itself :
    (EndedPeer.afterSteps (onePeer true) (ascii "p") (.receiveError 104 (by decide))
        [.receive]).joinedItself = true ∧
      ¬EndedPeer.CleanedUp (onePeer true) (ascii "p")
        (EndedPeer.afterSteps (onePeer true) (ascii "p") (.receiveError 104 (by decide))
          [.receive]) := by
  have hjoined : (EndedPeer.afterSteps (onePeer true) (ascii "p")
      (.receiveError 104 (by decide)) [.receive]).joinedItself = true := by decide
  exact ⟨hjoined, fun h => Bool.noConfusion (hjoined.symm.trans h.notItself)⟩

end TKNC.Net
