import TKNC.Lib.Registry
import TKNC.Net.ConnectionManager

/-!
# P2PDiscovery — connections to discovered peers and their heartbeat

Every thirty seconds the heartbeat thread pings each connection and drops those whose last response
is too old.  A response is stamped by `ProcessHeartbeatResponse`, which is not told who sent it: a
PONG of any peer stamps every connection.

The tables are partial functions of the peer id, and a loop over a table acts on each of its
entries. Times are nanoseconds of the steady clock.  The pings and pongs that are written to the
sockets have no effect on the tables and are left out.

`HeartbeatLog` keeps beside the tables when each peer itself, and when another peer, last sent a
PONG.  A PONG behind other bytes of one read is not seen by the code, and does not count.
-/

namespace TKNC.Net

open Lib.ByteOrder Lib.ByteOrder.Word Lib.EventMachine Lib.Numeral Function Option

/-! ## Tables -/

structure PeerInfo where
  nodeId : Bytes := []
  address : Bytes := []
  role : Bytes := []
  publicIp : Bytes := []
  p2pPort : Int := 0
  lastSeen : Int := 0
  connected : Bool := false
  deriving DecidableEq

structure P2PConnection where
  bev : Bool
  lastHeartbeatReceived : Nat
  deriving DecidableEq

structure P2PDiscovery where
  now : Nat
  knownPeers : Bytes → Option PeerInfo
  activeConnections : Bytes → Option P2PConnection

namespace P2PDiscovery

def recordConnection (s : P2PDiscovery) (peer : PeerInfo) : P2PDiscovery :=
  { s with
    activeConnections := Function.update s.activeConnections peer.nodeId
      (some { bev := true, lastHeartbeatReceived := s.now })
    knownPeers := Function.update s.knownPeers peer.nodeId
      (some { (s.knownPeers peer.nodeId).getD {} with connected := true }) }

def connectionClosed (s : P2PDiscovery) (peerId : Bytes) : P2PDiscovery :=
  { s with activeConnections := Function.update s.activeConnections peerId none }

/-! ## Heartbeat -/

def connectionTimeoutSeconds : Nat := 15

def heartbeatMagic : UInt32 := 0x50424b00
def msgPing : UInt8 := 1
def msgPong : UInt8 := 2

structure HeartbeatMessage where
  magic : UInt32
  type : UInt8
  timestamp : UInt64
  deriving DecidableEq

namespace HeartbeatMessage

def serialize (msg : HeartbeatMessage) : Bytes :=
  u32.encode msg.magic ++ (u8.encode msg.type ++ u64.encode msg.timestamp)

def deserialize (data : Bytes) : Option HeartbeatMessage :=
  if data.length < 13 then
    none
  else
    let msg : HeartbeatMessage :=
      { magic := u32.peek data 0
        type := u8.peek data 4
        timestamp := u64.peek data 5 }
    if msg.magic = heartbeatMagic ∧ (msg.type = msgPing ∨ msg.type = msgPong) then some msg
    else none

end HeartbeatMessage

def processHeartbeatResponse (s : P2PDiscovery) (data : Bytes) : P2PDiscovery :=
  match HeartbeatMessage.deserialize data with
  | none => s
  | some msg =>
      if msg.type = msgPong then
        { s with
          activeConnections := fun peerId => (s.activeConnections peerId).map fun conn =>
            { conn with lastHeartbeatReceived := s.now } }
      else
        s

def handleIncomingData (s : P2PDiscovery) (data : Bytes) : P2PDiscovery :=
  match handlerOf data with
  | .llm => s
  | .message => processHeartbeatResponse s data

def readCallback (s : P2PDiscovery) (peerId data : Bytes) : P2PDiscovery :=
  if (s.activeConnections peerId).isSome ∧ peerId ≠ [] then s.handleIncomingData data else s

def timesOut (s : P2PDiscovery) (conn : P2PConnection) : Bool :=
  conn.bev &&
    decide ((s.now - conn.lastHeartbeatReceived) / 1000000000 > connectionTimeoutSeconds * 2)

def disconnectTimedOutPeer (s : P2PDiscovery) (peerId : Bytes) : P2PDiscovery :=
  match s.activeConnections peerId with
  | none => s
  | some _ =>
      { s with
        activeConnections := Function.update s.activeConnections peerId none
        knownPeers := Function.update s.knownPeers peerId
          ((s.knownPeers peerId).map fun info => { info with connected := false }) }

def heartbeatRound (s : P2PDiscovery) : P2PDiscovery :=
  let afterwards (peerId : Bytes) : P2PDiscovery :=
    if (s.activeConnections peerId).any s.timesOut then s.disconnectTimedOutPeer peerId else s
  { s with
    activeConnections := fun peerId => (afterwards peerId).activeConnections peerId
    knownPeers := fun peerId => (afterwards peerId).knownPeers peerId }

def isPong (data : Bytes) : Bool :=
  handlerOf data = .message && (HeartbeatMessage.deserialize data).any (·.type = msgPong)

theorem handleIncomingData_eq (s : P2PDiscovery) (data : Bytes) :
    s.handleIncomingData data =
      if isPong data then
        { s with
          activeConnections := fun peerId => (s.activeConnections peerId).map fun conn =>
            { conn with lastHeartbeatReceived := s.now } }
      else
        s := by
  unfold handleIncomingData isPong
  cases handlerOf data with
  | llm => rfl
  | message =>
    simp only [processHeartbeatResponse]
    cases HeartbeatMessage.deserialize data with
    | none => rfl
    | some msg => simp

theorem activeConnections_heartbeatRound (s : P2PDiscovery) (peerId : Bytes) :
    s.heartbeatRound.activeConnections peerId =
      (s.activeConnections peerId).filter (fun conn => !s.timesOut conn) := by
  simp only [heartbeatRound]
  cases hconn : s.activeConnections peerId with
  | none => simp [hconn]
  | some conn =>
    cases htimeout : s.timesOut conn with
    | true => simp [htimeout, disconnectTimedOutPeer, hconn, Option.filter]
    | false => simp [htimeout, hconn, Option.filter]

theorem connected_heartbeatRound {s : P2PDiscovery} {peerId : Bytes} {conn : P2PConnection}
    {info : PeerInfo} (hconn : s.activeConnections peerId = some conn)
    (htimeout : s.timesOut conn = true)
    (hinfo : s.heartbeatRound.knownPeers peerId = some info) : info.connected = false := by
  simp only [heartbeatRound, hconn, any_some, htimeout, if_true, disconnectTimedOutPeer,
    update_self, map_eq_some_iff] at hinfo
  rcases hinfo with ⟨_, _, rfl⟩
  rfl

end P2PDiscovery

open P2PDiscovery

/-! ## Runs -/

inductive HeartbeatEvent where
  | elapse (nanoseconds : Nat)
  | connect (peer : PeerInfo)
  | closed (peerId : Bytes)
  | incoming (peerId data : Bytes)
  | round

/-- `ownPong` is when the peer itself last sent a PONG, `otherPong` when another one did; both start
when the connection is made. -/
structure HeartbeatLog extends P2PDiscovery where
  ownPong : Bytes → Nat
  otherPong : Bytes → Nat

namespace HeartbeatLog

def initial : HeartbeatLog where
  now := 0
  knownPeers := fun _ => none
  activeConnections := fun _ => none
  ownPong := fun _ => 0
  otherPong := fun _ => 0

def step (s : HeartbeatLog) : HeartbeatEvent → HeartbeatLog
  | .elapse nanoseconds => { s with now := s.now + nanoseconds }
  | .connect peer =>
      { s.recordConnection peer with
        ownPong := Function.update s.ownPong peer.nodeId s.now
        otherPong := Function.update s.otherPong peer.nodeId s.now }
  | .closed peerId => { s with toP2PDiscovery := s.connectionClosed peerId }
  | .incoming peerId data =>
      let heard := (s.activeConnections peerId).isSome ∧ peerId ≠ [] ∧ isPong data
      { s.readCallback peerId data with
        ownPong := if heard then Function.update s.ownPong peerId s.now else s.ownPong
        otherPong :=
          if heard then Function.update (fun _ => s.now) peerId (s.otherPong peerId)
          else s.otherPong }
  | .round => { s with toP2PDiscovery := s.heartbeatRound }

/-- The peer is connected and has not sent a PONG for more than the time that is allowed. -/
def Silent (s : HeartbeatLog) (peerId : Bytes) : Prop :=
  (s.activeConnections peerId).isSome ∧
    connectionTimeoutSeconds * 2 * 1000000000 < s.now - s.ownPong peerId

/-- A round leaves no silent peer connected. -/
def DetectsSilent (s : HeartbeatLog) (event : HeartbeatEvent) : Prop :=
  match event with
  | .round => ∀ peerId, s.Silent peerId →
      (s.step .round).activeConnections peerId = none ∧
        ∀ info, (s.step .round).knownPeers peerId = some info → info.connected = false
  | _ => True

/-- At a round, the silence of a silent peer is a whole second longer than what is allowed, and no
other peer has sent a PONG during that time. -/
def SilentAlone (s : HeartbeatLog) (event : HeartbeatEvent) : Prop :=
  match event with
  | .round => ∀ peerId, s.Silent peerId →
      (connectionTimeoutSeconds * 2 + 1) * 1000000000 ≤ s.now - s.ownPong peerId ∧
        (connectionTimeoutSeconds * 2 + 1) * 1000000000 ≤ s.now - s.otherPong peerId
  | _ => True

/-- The stamp of a connection is the last PONG of anybody. -/
structure Stamped (s : HeartbeatLog) : Prop where
  own : ∀ peerId, s.ownPong peerId ≤ s.now
  other : ∀ peerId, s.otherPong peerId ≤ s.now
  stamp : ∀ peerId conn, s.activeConnections peerId = some conn →
    conn.bev = true ∧ conn.lastHeartbeatReceived = max (s.ownPong peerId) (s.otherPong peerId)

theorem stamped_initial : initial.Stamped where
  own _ := Nat.le_refl 0
  other _ := Nat.le_refl 0
  stamp := by rintro _ _ ⟨⟩

variable {s : HeartbeatLog}

theorem step_incoming_of_not {peerId data : Bytes}
    (h : ¬((s.activeConnections peerId).isSome ∧ peerId ≠ [] ∧ isPong data)) :
    s.step (.incoming peerId data) = s := by
  have hread : s.readCallback peerId data = s.toP2PDiscovery := by
    unfold readCallback
    split
    · rename_i hconn
      rw [handleIncomingData_eq, if_neg fun hpong => h ⟨hconn.1, hconn.2, hpong⟩]
    · rfl
  simp only [step, if_neg h, hread]

theorem step_incoming_pong {peerId data : Bytes}
    (h : (s.activeConnections peerId).isSome ∧ peerId ≠ [] ∧ isPong data) :
    s.step (.incoming peerId data) =
      { s with
        activeConnections := fun peerId => (s.activeConnections peerId).map fun conn =>
          { conn with lastHeartbeatReceived := s.now }
        ownPong := update s.ownPong peerId s.now
        otherPong := update (fun _ => s.now) peerId (s.otherPong peerId) } := by
  simp only [step, if_pos h, readCallback, if_pos (And.intro h.1 h.2.1), handleIncomingData_eq,
    if_pos h.2.2]

theorem Stamped.step (h : s.Stamped) (event : HeartbeatEvent) :
    (s.step event).Stamped := by
  cases event with
  | elapse nanoseconds =>
    exact ⟨fun peerId => Nat.le_add_right_of_le (h.own peerId),
      fun peerId => Nat.le_add_right_of_le (h.other peerId), h.stamp⟩
  | connect peer =>
    refine ⟨?_, ?_, fun peerId conn hconn => ?_⟩
    · exact (forall_update_iff _ fun _ time => time ≤ s.now).2
        ⟨Nat.le_refl _, fun peerId _ => h.own peerId⟩
    · exact (forall_update_iff _ fun _ time => time ≤ s.now).2
        ⟨Nat.le_refl _, fun peerId _ => h.other peerId⟩
    · simp only [HeartbeatLog.step, recordConnection] at hconn ⊢
      rcases Lib.Registry.update_some_eq_some.1 hconn with ⟨rfl, rfl⟩ | ⟨hpeer, hconn⟩
      · simp
      · simp only [update_of_ne hpeer]
        exact h.stamp peerId conn hconn
  | closed peerId =>
    exact ⟨h.own, h.other, fun peerId' conn hconn =>
      h.stamp peerId' conn (Lib.Registry.update_none_eq_some.1 hconn).2⟩
  | incoming peerId data =>
    by_cases hheard : (s.activeConnections peerId).isSome ∧ peerId ≠ [] ∧ isPong data
    · rw [step_incoming_pong hheard]
      refine ⟨?_, ?_, fun peerId' conn hconn => ?_⟩
      · exact (forall_update_iff _ fun _ time => time ≤ s.now).2
          ⟨Nat.le_refl _, fun peerId _ => h.own peerId⟩
      · exact (forall_update_iff _ fun _ time => time ≤ s.now).2
          ⟨h.other peerId, fun _ _ => Nat.le_refl _⟩
      · -- the sender's own time is the present one, and so is everybody else's other time
        rcases map_eq_some_iff.1 hconn with ⟨before, hbefore, rfl⟩
        have hown := h.own peerId'
        have hother := h.other peerId'
        refine ⟨(h.stamp peerId' before hbefore).1, ?_⟩
        by_cases hpeer : peerId' = peerId
        · subst hpeer
          simp only [update_self]
          omega
        · simp only [update_of_ne hpeer]
          omega
    · rw [step_incoming_of_not hheard]
      exact h
  | round =>
    refine ⟨h.own, h.other, fun peerId conn hconn => ?_⟩
    simp only [HeartbeatLog.step, activeConnections_heartbeatRound,
      filter_eq_some_iff] at hconn
    exact h.stamp peerId conn hconn.1

/-- A round drops a silent peer exactly if nobody else's PONG has hidden its silence. -/
theorem Stamped.detectsSilent_iff (h : s.Stamped) (event : HeartbeatEvent) :
    s.DetectsSilent event ↔ s.SilentAlone event := by
  cases event with
  | round =>
    refine forall_congr' fun peerId => forall_congr' fun hsilent => ?_
    rcases Option.isSome_iff_exists.1 hsilent.1 with ⟨conn, hconn⟩
    rcases h.stamp peerId conn hconn with ⟨hbev, hstamp⟩
    have htimeout : s.timesOut conn = true ↔
        (connectionTimeoutSeconds * 2 + 1) * 1000000000 ≤ s.now - s.ownPong peerId ∧
          (connectionTimeoutSeconds * 2 + 1) * 1000000000 ≤ s.now - s.otherPong peerId := by
      simp only [timesOut, hbev, hstamp, Bool.true_and, decide_eq_true_eq]
      omega
    rw [← htimeout]
    simp only [HeartbeatLog.step, activeConnections_heartbeatRound, hconn]
    constructor
    · rintro ⟨hdropped, _⟩
      simpa [Option.filter] using hdropped
    · intro hdrops
      exact ⟨by simp [Option.filter, hdrops],
        fun info hinfo => connected_heartbeatRound hconn hdrops hinfo⟩
  | _ => exact Iff.rfl

def deadPeer : PeerInfo where
  nodeId := ascii "dead"

def livePeer : PeerInfo where
  nodeId := ascii "live"

def pong : Bytes :=
  HeartbeatMessage.serialize ⟨heartbeatMagic, msgPong, 0⟩

/-- Both peers connect; the live one answers after twenty seconds, and after twenty more a round
comes. -/
def maskedRun : List HeartbeatEvent :=
  [.connect deadPeer, .connect livePeer, .elapse 20000000000, .incoming (ascii "live") pong,
    .elapse 20000000000, .round]

end HeartbeatLog

end TKNC.Net
