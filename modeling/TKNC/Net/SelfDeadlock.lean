import TKNC.Lib.Locking
import TKNC.Net.P2PDiscovery
import TKNC.Net.PeerSession

/-!
# SelfDeadlock — methods that lock a mutex they hold

Three methods call, under a `lock_guard`, a method that locks the same `std::mutex`.  For the
sessions and for the GPU list the inner call is unconditional.  For the discovered peers it is made
for a peer that is known, a miner and not connected, if the connection attempt gets as far as its
lock.
-/

namespace TKNC.Net

open Lib.EventMachine Lib.Locking Lib.Numeral

inductive Mutex where
  | peers
  | sessions
  | memory
  deriving DecidableEq

/-! ## P2PDiscovery -/

/-- What the system answers to the calls that `ConnectToPeer` makes before it locks. -/
structure ConnectAttempt where
  inetPton : Bool
  buffereventSocketNew : Bool
  buffereventSocketConnect : Bool
  deriving DecidableEq

/-- A peer in the answer of the seed, the outcome of an attempt to connect to it, and what other
threads do to the tables before each of the locks of its turn. -/
structure FetchedPeer where
  peer : PeerInfo
  attempt : ConnectAttempt
  beforeFind : P2PDiscovery → P2PDiscovery := id
  beforeInsert : P2PDiscovery → P2PDiscovery := id
  beforeConnect : P2PDiscovery → P2PDiscovery := id

namespace P2PDiscovery

def targetAddress (peer : PeerInfo) : Bytes :=
  if peer.publicIp = [] then peer.address else peer.publicIp

def connectToPeer (peer : PeerInfo) (attempt : ConnectAttempt) : Chain Mutex P2PDiscovery Unit :=
  if targetAddress peer = [] then pure ()
  else if attempt.inetPton = false then pure ()
  else if attempt.buffereventSocketNew = false then pure ()
  else if attempt.buffereventSocketConnect = false then pure ()
  else
    -- the handshake and the callback that follow take no mutex
    withLock .peers (modify fun s => s.recordConnection peer)

def findKnown (peer : PeerInfo) (attempt : ConnectAttempt) : Chain Mutex P2PDiscovery Bool := do
  let s ← get
  match s.knownPeers peer.nodeId with
  | none => pure false
  | some info =>
      modify fun s =>
        { s with
          knownPeers := Function.update s.knownPeers peer.nodeId
            (some { info with lastSeen := peer.lastSeen }) }
      if info.connected = false ∧ peer.role = ascii "miner" then
        -- called inside the scope of the lock, unlike the call for a new peer
        connectToPeer peer attempt
      pure true

def queryTurn (role : Bytes) (fetched : FetchedPeer) : Chain Mutex P2PDiscovery Unit := do
  modify fetched.beforeFind
  let isKnown ← withLock .peers (findKnown fetched.peer fetched.attempt)
  if isKnown = false then
    modify fetched.beforeInsert
    withLock .peers (modify fun s =>
      { s with
        knownPeers := Function.update s.knownPeers fetched.peer.nodeId (some fetched.peer) })
    if role = ascii "client" ∧ fetched.peer.role = ascii "miner" then
      modify fetched.beforeConnect
      connectToPeer fetched.peer fetched.attempt

def querySeedForPeers (role : Bytes) (answer : Option (List FetchedPeer)) :
    Chain Mutex P2PDiscovery Unit :=
  match answer with
  | none => pure ()
  | some newPeers => forEach newPeers (queryTurn role)

/-- The attempt to connect gets as far as its lock. -/
def ReachesLock (peer : PeerInfo) (attempt : ConnectAttempt) : Prop :=
  targetAddress peer ≠ [] ∧ attempt.inetPton = true ∧ attempt.buffereventSocketNew = true ∧
    attempt.buffereventSocketConnect = true

/-- The turn finds its peer in the table as not connected; it is a miner and can be dialled. -/
def Redials (s : P2PDiscovery) (fetched : FetchedPeer) : Prop :=
  ((fetched.beforeFind s).knownPeers fetched.peer.nodeId).any (·.connected = false) ∧
    fetched.peer.role = ascii "miner" ∧ ReachesLock fetched.peer fetched.attempt

theorem connectToPeer_of_not_reachesLock {peer : PeerInfo} {attempt : ConnectAttempt}
    (h : ¬ReachesLock peer attempt) : connectToPeer peer attempt = pure () := by
  unfold connectToPeer
  split_ifs with haddress hpton hnew hconnect
  · rfl
  · rfl
  · rfl
  · rfl
  · exact absurd ⟨haddress, by simpa using hpton, by simpa using hnew, by simpa using hconnect⟩ h

theorem connectToPeer_of_reachesLock {peer : PeerInfo} {attempt : ConnectAttempt}
    (h : ReachesLock peer attempt) :
    connectToPeer peer attempt = withLock .peers (modify fun s => s.recordConnection peer) := by
  rcases h with ⟨haddress, hpton, hnew, hconnect⟩
  simp [connectToPeer, haddress, hpton, hnew, hconnect]

theorem completes_connectToPeer (peer : PeerInfo) (attempt : ConnectAttempt) (s : P2PDiscovery) :
    Completes (connectToPeer peer attempt) s := by
  by_cases h : ReachesLock peer attempt
  · rw [connectToPeer_of_reachesLock h]
    rfl
  · rw [connectToPeer_of_not_reachesLock h]
    rfl

/-- Called under the mutex, it waits for itself exactly if it gets as far as its lock. -/
theorem connectToPeer_locked (peer : PeerInfo) (attempt : ConnectAttempt) (s : P2PDiscovery) :
    (connectToPeer peer attempt [.peers] s).isSome ↔ ¬ReachesLock peer attempt := by
  by_cases h : ReachesLock peer attempt
  · rw [connectToPeer_of_reachesLock h, withLock_of_mem _ (List.mem_singleton_self _)]
    simp [h]
  · rw [connectToPeer_of_not_reachesLock h]
    simp [h]

theorem findKnown_locked (peer : PeerInfo) (attempt : ConnectAttempt) (s : P2PDiscovery) :
    (findKnown peer attempt [.peers] s).isSome ↔
      ¬((s.knownPeers peer.nodeId).any (·.connected = false) ∧ peer.role = ascii "miner" ∧
        ReachesLock peer attempt) := by
  unfold findKnown
  cases hknown : s.knownPeers peer.nodeId with
  | none => simp [hknown]
  | some info =>
    by_cases hdial : info.connected = false ∧ peer.role = ascii "miner"
    · simp only [bind_apply, get_apply, modify_apply, pure_apply, Option.bind_some, hknown,
        if_pos hdial, Option.isSome_bind, Option.isSome_some]
      simp [connectToPeer_locked, hdial]
    · simp only [bind_apply, get_apply, modify_apply, pure_apply, Option.bind_some, hknown,
        if_neg hdial]
      simpa using fun hconnected hminer => absurd ⟨hconnected, hminer⟩ hdial

theorem completes_queryTurn_iff (role : Bytes) (s : P2PDiscovery) (fetched : FetchedPeer) :
    Completes (queryTurn role fetched) s ↔ ¬s.Redials fetched := by
  unfold Redials
  rw [← findKnown_locked]
  unfold Completes queryTurn
  simp only [bind_apply, modify_apply, Option.bind_some, withLock_of_not_mem _ List.not_mem_nil]
  cases hfind : findKnown fetched.peer fetched.attempt [.peers] (fetched.beforeFind s) with
  | none => simp
  | some r =>
    rcases r with ⟨isKnown, s'⟩
    -- the mutex is free again, and so the rest of the turn always completes
    cases isKnown with
    | true => simp
    | false =>
      simp only [Option.bind_some, if_true, bind_apply, modify_apply,
        withLock_of_not_mem _ List.not_mem_nil, Option.isSome_some, iff_true]
      split
      · exact completes_connectToPeer _ _ _
      · rfl

theorem completes_querySeedForPeers_iff (role : Bytes) (newPeers : List FetchedPeer)
    (s : P2PDiscovery) :
    Completes (querySeedForPeers role (some newPeers)) s ↔
      GoodRun (fun s fetched => leaves (queryTurn role fetched) s)
        (fun s fetched => ¬s.Redials fetched) s newPeers :=
  (completes_forEach_iff newPeers (queryTurn role) s).trans
    (GoodRun.congr (completes_queryTurn_iff role) s newPeers)

end P2PDiscovery

structure PeerSessionManager where
  sessions : List (Bytes × SessionState)

namespace PeerSessionManager

def countByState (targetState : SessionState) : Chain Mutex PeerSessionManager Nat :=
  withLock .sessions do
    let s ← get
    pure (s.sessions.countP fun session => session.2 = targetState)

def getStatusSummary : Chain Mutex PeerSessionManager Bytes :=
  withLock .sessions do
    let s ← get
    let active ← countByState .active
    let idle ← countByState .idle
    let expired ← countByState .expired
    let fault ← countByState .fault
    pure (ascii "sessions\x7btotal=" ++ decimal s.sessions.length ++
      ascii " active=" ++ decimal active ++ ascii " idle=" ++ decimal idle ++
      ascii " expired=" ++ decimal expired ++ ascii " error=" ++ decimal fault ++ ascii "\x7d")

theorem not_completes_getStatusSummary (s : PeerSessionManager) :
    ¬Completes getStatusSummary s := by
  have hcount : countByState .active [.sessions] s = none :=
    withLock_of_mem s (List.mem_singleton_self _) _
  simp [Completes, getStatusSummary, withLock_of_not_mem, hcount]

end PeerSessionManager

/-! ## GPUMemoryManager -/

inductive GPUBackend where
  | none
  | cuda
  | rocm
  | vulkan
  | metal
  | opencl
  deriving DecidableEq

structure GPUDeviceInfo where
  name : Bytes
  totalMemoryMb : UInt64
  freeMemoryMb : UInt64
  deriving DecidableEq

structure GPUMemoryManager where
  gpuDevices : List GPUDeviceInfo
  activeBackend : GPUBackend

namespace GPUMemoryManager

def getTotalVRAMAcrossAllGPUs : Chain Mutex GPUMemoryManager UInt64 :=
  withLock .memory do
    let s ← get
    let totalVram := s.gpuDevices.foldl (fun total gpu => total + gpu.totalMemoryMb) 0
    pure (totalVram * 1024 * 1024)

def backendName : GPUBackend → Bytes
  | .cuda => ascii "CUDA"
  | .rocm => ascii "ROCm"
  | .metal => ascii "Metal"
  | _ => ascii "None"

/-- The lines that are logged; the arguments of a line are not evaluated if its category is off. -/
def printGPUInfoSummary (categoryEnabled : Bool) : Chain Mutex GPUMemoryManager (List Bytes) :=
  withLock .memory do
    let s ← get
    if categoryEnabled = false then
      pure []
    else
      let header := ascii "TKNC GPU: backend=" ++ backendName s.activeBackend ++ ascii " gpus=" ++
        decimal s.gpuDevices.length
      let devices := s.gpuDevices.zipIdx.map fun gpu =>
        ascii " GPU #" ++ decimal gpu.2 ++ ascii ": " ++ gpu.1.name ++ ascii " " ++
          decimal gpu.1.freeMemoryMb.toNat ++ ascii "MB free"
      let totalVram ← getTotalVRAMAcrossAllGPUs
      pure (header :: devices ++
        [ascii "Total VRAM: " ++ decimal (totalVram / (1024 * 1024)).toNat ++ ascii " MB"])

theorem completes_printGPUInfoSummary_iff (categoryEnabled : Bool) (s : GPUMemoryManager) :
    Completes (printGPUInfoSummary categoryEnabled) s ↔ categoryEnabled = false := by
  have htotal : getTotalVRAMAcrossAllGPUs [.memory] s = none :=
    withLock_of_mem s (List.mem_singleton_self _) _
  cases categoryEnabled with
  | false => exact iff_of_true rfl rfl
  | true =>
    simp only [Completes, printGPUInfoSummary, withLock_of_not_mem _ List.not_mem_nil, bind_apply,
      get_apply, Option.bind_some]
    simp [htotal]

end GPUMemoryManager

/-! ## The three calls -/

inductive LockingCall where
  | querySeedForPeers (s : P2PDiscovery) (role : Bytes) (answer : Option (List FetchedPeer))
  | getStatusSummary (s : PeerSessionManager)
  | printGPUInfoSummary (s : GPUMemoryManager)

namespace LockingCall

/-- The call never locks a mutex that it holds. -/
def NoSelfDeadlock : LockingCall → Prop
  | .querySeedForPeers s role answer => Completes (P2PDiscovery.querySeedForPeers role answer) s
  | .getStatusSummary s => Completes PeerSessionManager.getStatusSummary s
  | .printGPUInfoSummary s => Completes (GPUMemoryManager.printGPUInfoSummary true) s

/-- It is a query, and none of the fetched peers is redialled while it is known and not connected.
-/
def NeverRedials : LockingCall → Prop
  | .querySeedForPeers _ _ none => True
  | .querySeedForPeers s role (some newPeers) =>
      GoodRun (fun s fetched => leaves (P2PDiscovery.queryTurn role fetched) s)
        (fun s fetched => ¬s.Redials fetched) s newPeers
  | .getStatusSummary _ => False
  | .printGPUInfoSummary _ => False

/-- The sessions' and the GPUs' summaries always lock a mutex that they hold; the query does so
exactly if it comes to a known, disconnected miner that it can dial. -/
theorem noSelfDeadlock_iff_neverRedials (call : LockingCall) :
    call.NoSelfDeadlock ↔ call.NeverRedials := by
  cases call with
  | querySeedForPeers s role answer =>
    cases answer with
    | none => exact iff_of_true rfl trivial
    | some newPeers => exact P2PDiscovery.completes_querySeedForPeers_iff role newPeers s
  | getStatusSummary s =>
    exact iff_of_false (PeerSessionManager.not_completes_getStatusSummary s) id
  | printGPUInfoSummary s =>
    refine iff_of_false (fun h => ?_) id
    exact Bool.noConfusion ((GPUMemoryManager.completes_printGPUInfoSummary_iff true s).1 h)

def idleMiner : PeerInfo where
  nodeId := ascii "miner-1"
  address := ascii "10.0.0.2"
  role := ascii "miner"

def requery : LockingCall :=
  .querySeedForPeers
    { now := 0
      knownPeers := Function.update (fun _ => none) (ascii "miner-1") (some idleMiner)
      activeConnections := fun _ => none }
    (ascii "client")
    (some [{ peer := idleMiner, attempt := ⟨true, true, true⟩ }])

theorem selfDeadlock_of_each_call :
    ¬requery.NoSelfDeadlock ∧ ¬(getStatusSummary ⟨[]⟩).NoSelfDeadlock ∧
      ¬(printGPUInfoSummary ⟨[], .none⟩).NoSelfDeadlock := by
  refine ⟨?_, ?_, ?_⟩
  · unfold requery NoSelfDeadlock
    decide
  · unfold NoSelfDeadlock
    decide
  · unfold NoSelfDeadlock
    decide

end LockingCall

end TKNC.Net
