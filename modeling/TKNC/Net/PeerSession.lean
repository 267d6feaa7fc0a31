import Mathlib.Data.List.Lex
import TKNC.Lib.EventMachine
import TKNC.Lib.Numeral
import TKNC.Lib.OrderedMap
import TKNC.Lib.PreferenceScan

/-!
# PeerSession — the sessions of `PeerSessionManager` and `SelectBest`

The sessions are kept in a `std::map`, so the loop of `SelectBest` goes through them in the order of
their peer ids.  It means to prefer `ACTIVE` sessions and then recent activity, but a later session
with more recent activity replaces the best one whatever its state.  `selectsPreferred_iff` says for
which sessions the preference holds all the same.

The readings of the clock are parameters.  The callers of `GetSession` hold a pointer into the map;
what they do through it is the call `markError`.
-/

namespace TKNC.Net

open Lib Lib.EventMachine Lib.Numeral PreferenceScan OrderedMap List

inductive SessionState where
  | none
  | established
  | active
  | idle
  | expired
  | fault
  deriving DecidableEq

structure PeerId where
  bytes : Bytes
  deriving DecidableEq

/-- `std::string` compares bytes as unsigned numbers. -/
def PeerId.compared (id : PeerId) : List Nat :=
  id.bytes.map UInt8.toNat

theorem PeerId.compared_injective : Function.Injective PeerId.compared := by
  rintro ⟨a⟩ ⟨b⟩ heq
  exact congrArg PeerId.mk (map_injective_iff.2 (fun _ _ h => UInt8.toNat_inj.1 h) heq)

instance : LinearOrder PeerId :=
  LinearOrder.lift' PeerId.compared PeerId.compared_injective

structure PeerSession where
  peerId : PeerId
  peerEndpoint : Bytes
  udpPunchUsed : Bool
  tcpFallbackUsed : Bool
  state : SessionState
  createdAt : Int
  lastActivity : Int
  lastHeartbeat : Int
  deriving DecidableEq

namespace PeerSession

def init (now : Int) (peerId : PeerId) (peerEndpoint : Bytes) : PeerSession where
  peerId := peerId
  peerEndpoint := peerEndpoint
  udpPunchUsed := false
  tcpFallbackUsed := false
  state := .established
  createdAt := now
  lastActivity := now
  lastHeartbeat := now

def markActive (sess : PeerSession) (now : Int) : PeerSession :=
  { sess with lastActivity := now, state := .active }

def markIdle (sess : PeerSession) : PeerSession :=
  { sess with state := .idle }

def markError (sess : PeerSession) : PeerSession :=
  { sess with state := .fault }

def markExpired (sess : PeerSession) : PeerSession :=
  { sess with state := .expired }

def isAlive (sess : PeerSession) : Bool :=
  sess.state = .active || sess.state = .established || sess.state = .idle

def isUsable (sess : PeerSession) : Bool :=
  sess.state = .established || sess.state = .active || sess.state = .idle

def isActive (sess : PeerSession) : Bool :=
  sess.state = .active

def idleSeconds (sess : PeerSession) (now : Int) : Int :=
  now - sess.lastActivity

theorem isUsable_of_isActive {sess : PeerSession} (h : sess.isActive = true) :
    sess.isUsable = true := by
  simp only [isActive, decide_eq_true_eq] at h
  simp [isUsable, h]

end PeerSession

/-! ## The map -/

abbrev PeerSessions : Type := OrderedMap PeerId PeerSession

namespace PeerSessions

def createSession (sessions : PeerSessions) (now : Int) (peerId : PeerId) (peerEndpoint : Bytes)
    (udpPunch tcpFallback : Bool) : PeerSessions :=
  match sessions.get? peerId with
  | some sess =>
      let sess := { sess with
        peerEndpoint := peerEndpoint, udpPunchUsed := udpPunch, tcpFallbackUsed := tcpFallback }
      sessions.insert peerId (sess.markActive now)
  | none =>
      let sess := PeerSession.init now peerId peerEndpoint
      sessions.insert peerId { sess with udpPunchUsed := udpPunch, tcpFallbackUsed := tcpFallback }

def removeSession (sessions : PeerSessions) (peerId : PeerId) : PeerSessions :=
  sessions.erase peerId

def getOrCreateSession (sessions : PeerSessions) (now : Int) (peerId : PeerId)
    (peerEndpoint : Bytes) (udpPunch tcpFallback : Bool) : PeerSessions :=
  match sessions.get? peerId with
  | some sess =>
      if sess.isUsable then sessions.insert peerId (sess.markActive now)
      else
        (sessions.removeSession peerId).createSession now peerId peerEndpoint udpPunch tcpFallback
  | none => sessions.createSession now peerId peerEndpoint udpPunch tcpFallback

def markError (sessions : PeerSessions) (peerId : PeerId) : PeerSessions :=
  match sessions.get? peerId with
  | some sess => sessions.insert peerId sess.markError
  | none => sessions

def expireIdleSessions (sessions : PeerSessions) (now maxIdleSeconds : Int) : PeerSessions :=
  sessions.mapValues fun sess =>
    if sess.isAlive && decide (sess.idleSeconds now > maxIdleSeconds) then sess.markExpired
    else sess

def heartbeatAll (sessions : PeerSessions) (now : Int) : PeerSessions :=
  sessions.mapValues fun sess =>
    if sess.isActive then
      if sess.idleSeconds now > 30 then sess.markIdle else { sess with lastHeartbeat := now }
    else sess

def selectTurn (acc : Option (PeerId × PeerSession) × Int) (e : PeerId × PeerSession) :
    Option (PeerId × PeerSession) × Int :=
  if e.2.isUsable then
    match acc.1 with
    | none => (some e, e.2.lastActivity)
    | some best =>
        if (e.2.isActive && !best.2.isActive) || decide (e.2.lastActivity > acc.2) then
          (some e, e.2.lastActivity)
        else acc
  else acc

def selectBest (sessions : PeerSessions) : Option (PeerId × PeerSession) :=
  (sessions.entries.foldl selectTurn (none, 0)).1

/-- What the selection is for: nothing if no session is usable, otherwise an `ACTIVE` session if
there is one, with the largest `last_activity` among those of the class. -/
structure SelectsPreferred (sessions : PeerSessions) : Prop where
  none_iff : sessions.selectBest = none ↔ ∀ e ∈ sessions.entries, e.2.isUsable = false
  mem : ∀ e, sessions.selectBest = some e → e ∈ sessions.entries ∧ e.2.isUsable = true
  active : ∀ e, sessions.selectBest = some e →
    (∃ e' ∈ sessions.entries, e'.2.isActive = true) → e.2.isActive = true
  latest : ∀ e, sessions.selectBest = some e → ∀ e' ∈ sessions.entries, e'.2.isUsable = true →
    e'.2.isActive = e.2.isActive → e'.2.lastActivity ≤ e.2.lastActivity

/-! ## The loop is a preference scan -/

abbrev routable (e : PeerId × PeerSession) : Bool :=
  e.2.isUsable

abbrev active (e : PeerId × PeerSession) : Bool :=
  e.2.isActive

abbrev activity (e : PeerId × PeerSession) : Int :=
  e.2.lastActivity

def usable (sessions : PeerSessions) : List (PeerId × PeerSession) :=
  sessions.entries.filter routable

variable {sessions : PeerSessions}

theorem mem_usable {e : PeerId × PeerSession} :
    e ∈ sessions.usable ↔ e ∈ sessions.entries ∧ e.2.isUsable = true :=
  mem_filter

/-- `best_activity` is the activity of `best` from the first usable session on. -/
theorem foldl_selectTurn (l : List (PeerId × PeerSession))
    (acc : Option (PeerId × PeerSession) × Int)
    (hacc : ∀ best, acc.1 = some best → acc.2 = best.2.lastActivity) :
    (l.foldl selectTurn acc).1 =
      (l.filter routable).foldl (keep active activity) acc.1 := by
  induction l generalizing acc with
  | nil => rfl
  | cons e l ih =>
    obtain ⟨best, bestActivity⟩ := acc
    rw [foldl_cons, selectTurn]
    by_cases husable : e.2.isUsable = true
    · rw [if_pos husable, filter_cons_of_pos (p := routable) husable, foldl_cons]
      cases best with
      | none => exact ih _ fun b hb => by rw [← Option.some.inj hb]
      | some b =>
        obtain rfl : bestActivity = b.2.lastActivity := hacc b rfl
        rw [keep, replaces]
        dsimp only
        split
        · exact ih _ fun b' hb => by rw [← Option.some.inj hb]
        · exact ih _ fun b' hb => by rw [← Option.some.inj hb]
    · rw [if_neg husable, filter_cons_of_neg (p := routable) husable]
      exact ih _ hacc

theorem selectBest_eq_scan (sessions : PeerSessions) :
    sessions.selectBest = scan active activity sessions.usable :=
  foldl_selectTurn _ _ fun _ h => nomatch h

theorem selectBest_eq_none_iff (sessions : PeerSessions) :
    sessions.selectBest = none ↔ ∀ e ∈ sessions.entries, e.2.isUsable = false := by
  rw [selectBest_eq_scan, scan_eq_none_iff, usable, filter_eq_nil_iff]
  simp only [Bool.not_eq_true]

theorem selectsPreferred_iff_isBest (sessions : PeerSessions) :
    sessions.SelectsPreferred ↔ ∀ e, sessions.selectBest = some e →
      PreferenceScan.IsBest active activity sessions.usable e := by
  constructor
  · intro h e he
    refine ⟨mem_usable.2 (h.mem e he), ?_, ?_⟩
    · rintro ⟨e', hmem, hactive⟩
      exact h.active e he ⟨e', (mem_usable.1 hmem).1, hactive⟩
    · intro e' hmem hclass
      exact h.latest e he e' (mem_usable.1 hmem).1 (mem_usable.1 hmem).2 hclass
  · intro h
    refine ⟨selectBest_eq_none_iff sessions, fun e he => mem_usable.1 (h e he).mem, ?_, ?_⟩
    · rintro e he ⟨e', hmem, hactive⟩
      exact (h e he).of_exists
        ⟨e', mem_usable.2 ⟨hmem, PeerSession.isUsable_of_isActive hactive⟩, hactive⟩
    · intro e he e' hmem husable hclass
      exact (h e he).score_le e' (mem_usable.2 ⟨hmem, husable⟩) hclass

/-! ## When the preference holds -/

/-- Some latest `ACTIVE` session is followed by no usable session with later activity. -/
def LatestActiveStays (sessions : PeerSessions) : Prop :=
  ∃ before e after, sessions.entries = before ++ e :: after ∧ e.2.isActive = true ∧
    (∀ e' ∈ sessions.entries, e'.2.isActive = true → e'.2.lastActivity ≤ e.2.lastActivity) ∧
    ∀ e' ∈ after, e'.2.isUsable = true → e'.2.lastActivity ≤ e.2.lastActivity

theorem isBest_of_latestActive {e : PeerId × PeerSession} (hmem : e ∈ sessions.entries)
    (hactive : e.2.isActive = true)
    (hlatest : ∀ e' ∈ sessions.entries, e'.2.isActive = true →
      e'.2.lastActivity ≤ e.2.lastActivity) :
    PreferenceScan.IsBest active activity sessions.usable e where
  mem := mem_usable.2 ⟨hmem, PeerSession.isUsable_of_isActive hactive⟩
  of_exists _ := hactive
  score_le e' hmem' hclass := hlatest e' (mem_usable.1 hmem').1 (hclass.trans hactive)

/-- With an `ACTIVE` session the places in the map and among the usable sessions agree. -/
theorem latestActiveStays_iff (hsome : ∃ e ∈ sessions.entries, e.2.isActive = true) :
    sessions.LatestActiveStays ↔ ∃ before e after, sessions.usable = before ++ e :: after ∧
      PreferenceScan.IsBest active activity sessions.usable e ∧
        ∀ e' ∈ after, activity e' ≤ activity e := by
  obtain ⟨e₀, hmem₀, hactive₀⟩ := hsome
  constructor
  · rintro ⟨before, e, after, hentries, hactive, hlatest, hafter⟩
    have husable := PeerSession.isUsable_of_isActive hactive
    have hmem : e ∈ sessions.entries := by
      rw [hentries]
      exact mem_append_right before mem_cons_self
    refine ⟨before.filter routable, e, after.filter routable, ?_,
      isBest_of_latestActive hmem hactive hlatest, ?_⟩
    · rw [usable, hentries, filter_append, filter_cons_of_pos (p := routable) husable]
    · intro e' hmem'
      exact hafter e' (mem_filter.1 hmem').1 (mem_filter.1 hmem').2
  · rintro ⟨before, e, after, husable, hbest, hafter⟩
    have hactive : e.2.isActive = true := hbest.of_exists
      ⟨e₀, mem_usable.2 ⟨hmem₀, PeerSession.isUsable_of_isActive hactive₀⟩, hactive₀⟩
    obtain ⟨front, rest, hentries, -, hrest⟩ := filter_eq_append_iff.1 husable
    obtain ⟨skipped, tail, hsplit, -, -, htail⟩ := filter_eq_cons_iff.1 hrest
    refine ⟨front ++ skipped, e, tail, ?_, hactive, ?_, ?_⟩
    · rw [hentries, hsplit, append_assoc]
    · intro e' hmem' hactive'
      exact hbest.score_le e'
        (mem_usable.2 ⟨hmem', PeerSession.isUsable_of_isActive hactive'⟩)
        (hactive'.trans hactive.symm)
    · intro e' hmem' husable'
      exact hafter e' (htail ▸ mem_filter.2 ⟨hmem', husable'⟩)

theorem selectsPreferred_iff_latestActiveStays
    (hsome : ∃ e ∈ sessions.entries, e.2.isActive = true) :
    sessions.SelectsPreferred ↔ sessions.LatestActiveStays := by
  rw [selectsPreferred_iff_isBest, selectBest_eq_scan, latestActiveStays_iff hsome,
    ← exists_isBest_scan_iff]
  obtain ⟨e, hmem, hactive⟩ := hsome
  have husable := mem_usable.2 ⟨hmem, PeerSession.isUsable_of_isActive hactive⟩
  -- The list is not empty, so the scan has exactly one result.
  cases hscan : scan active activity sessions.usable with
  | none =>
    rw [scan_eq_none_iff] at hscan
    exact absurd (hscan ▸ husable) not_mem_nil
  | some r => simp

theorem selectsPreferred_of_not_active (hnone : ∀ e ∈ sessions.entries, e.2.isActive = false) :
    sessions.SelectsPreferred := by
  rw [selectsPreferred_iff_isBest, selectBest_eq_scan]
  intro r hscan
  have hne : sessions.usable ≠ [] := by
    intro hnil
    have hempty : scan active activity sessions.usable = none :=
      scan_eq_none_iff.2 hnil
    rw [hempty] at hscan
    cases hscan
  have hclass : ∀ e ∈ sessions.usable, active e = false := fun e hmem =>
    hnone e (mem_usable.1 hmem).1
  obtain ⟨r', hscan', hbest⟩ :=
    exists_isBest_scan_of_not_preferred activity hne hclass
  rw [hscan', Option.some.injEq] at hscan
  exact hscan ▸ hbest

theorem selectsPreferred_iff (sessions : PeerSessions) :
    sessions.SelectsPreferred ↔
      (∀ e ∈ sessions.entries, e.2.isActive = false) ∨ sessions.LatestActiveStays := by
  by_cases hsome : ∃ e ∈ sessions.entries, e.2.isActive = true
  · rw [selectsPreferred_iff_latestActiveStays hsome]
    obtain ⟨e, hmem, hactive⟩ := hsome
    exact (or_iff_right fun h => Bool.eq_false_iff.1 (h e hmem) hactive).symm
  · have hnone : ∀ e ∈ sessions.entries, e.2.isActive = false := fun e hmem =>
      Bool.eq_false_iff.2 fun hactive => hsome ⟨e, hmem, hactive⟩
    exact iff_of_true (selectsPreferred_of_not_active hnone) (Or.inl hnone)

end PeerSessions

/-- A call that changes the sessions, with the time at which it reads the clock. -/
inductive SessionCall where
  | createSession (now : Int) (peerId : PeerId) (peerEndpoint : Bytes) (udpPunch tcpFallback : Bool)
  | getOrCreateSession (now : Int) (peerId : PeerId) (peerEndpoint : Bytes)
      (udpPunch tcpFallback : Bool)
  | removeSession (peerId : PeerId)
  | markError (peerId : PeerId)
  | expireIdleSessions (now maxIdleSeconds : Int)
  | heartbeatAll (now : Int)

namespace PeerSessions

def apply (sessions : PeerSessions) : SessionCall → PeerSessions
  | .createSession now peerId peerEndpoint udpPunch tcpFallback =>
      sessions.createSession now peerId peerEndpoint udpPunch tcpFallback
  | .getOrCreateSession now peerId peerEndpoint udpPunch tcpFallback =>
      sessions.getOrCreateSession now peerId peerEndpoint udpPunch tcpFallback
  | .removeSession peerId => sessions.removeSession peerId
  | .markError peerId => sessions.markError peerId
  | .expireIdleSessions now maxIdleSeconds => sessions.expireIdleSessions now maxIdleSeconds
  | .heartbeatAll now => sessions.heartbeatAll now

def reached (calls : List SessionCall) : PeerSessions :=
  run apply OrderedMap.empty calls

def sessionA : PeerId := ⟨ascii "a"⟩
def sessionB : PeerId := ⟨ascii "b"⟩

def laterPeer : List SessionCall :=
  [.createSession 10 sessionA [] true false, .getOrCreateSession 10 sessionA [] true false,
    .createSession 20 sessionB [] true false]

theorem not_selectsPreferred_laterPeer : ¬(reached laterPeer).SelectsPreferred := by
  intro h
  have hselected : (reached laterPeer).selectBest =
      some (sessionB, { PeerSession.init 20 sessionB [] with udpPunchUsed := true }) := by
    decide
  have hactive := h.active _ hselected (by decide)
  exact absurd hactive (by decide)

end PeerSessions
end TKNC.Net
