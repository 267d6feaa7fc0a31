import Mathlib.Logic.Function.Basic
import TKNC.Lib.ArgMax
import TKNC.Lib.EventMachine
import TKNC.Lib.Numeral
import TKNC.Lib.TextSearch

/-!
# EndpointRegistry — the peers that a remote inference can be routed to

`Infer` refreshes the registry by a scan of the connected peers and then selects the best entry that
was seen in the last 300 seconds.  The scan skips a peer that has an entry, so the entry keeps the
time of the first scan that saw the peer; and nothing removes the entry when the peer disconnects.

`ScanLog` keeps beside the registry when each peer was first seen by a scan.  The backend is enabled
and wired; its own entry, which is registered under the name `self`, is never selected.
-/

namespace TKNC.Net

open Lib Lib.EventMachine Lib.Numeral Option List Function

structure EndpointEntry where
  nodeId : Bytes
  ip : Bytes := []
  p2pPort : UInt16 := 9333
  apiPort : UInt16 := 9332
  modelName : Bytes := []
  connNodeId : Int := -1
  registeredAt : Int := 0
  lastSeen : Int := 0
  selfReported : Bool := false
  reachableDirectly : Bool := false
  reachableViaPunch : Bool := false
  reachableViaTcp : Bool := false
  qualityScore : Int := 0
  deriving DecidableEq

namespace EndpointEntry

def ageSeconds (entry : EndpointEntry) (now : Int) : Int :=
  now - entry.lastSeen

def isValid (entry : EndpointEntry) (now maxAgeSeconds : Int) : Bool :=
  decide (entry.ageSeconds now ≤ maxAgeSeconds)

def hasRoute (entry : EndpointEntry) : Bool :=
  entry.reachableDirectly || entry.reachableViaPunch || entry.reachableViaTcp

def serves (entry : EndpointEntry) (modelHint : Bytes) : Bool :=
  modelHint.isEmpty || entry.modelName.isEmpty || TextSearch.contains modelHint entry.modelName

def score (entry : EndpointEntry) (now : Int) : Int :=
  entry.qualityScore + (if entry.reachableDirectly then 1000 else 0) +
    (if entry.reachableViaPunch then 500 else 0) + (if entry.reachableViaTcp then 200 else 0) +
    max 0 (300 - entry.ageSeconds now)

end EndpointEntry

/-! ## Registry -/

abbrev EndpointRegistry := List EndpointEntry

namespace EndpointRegistry

def find (entries : EndpointRegistry) (nodeId : Bytes) : Option EndpointEntry :=
  entries.find? fun entry => entry.nodeId = nodeId

def place (entry : EndpointEntry) : EndpointRegistry → EndpointRegistry
  | [] => [entry]
  | old :: entries =>
      if entry.nodeId < old.nodeId then entry :: old :: entries else old :: place entry entries

def modifyEntry (entries : EndpointRegistry) (nodeId : Bytes) (f : EndpointEntry → EndpointEntry) :
    EndpointRegistry :=
  entries.map fun entry => if entry.nodeId = nodeId then f entry else entry

def register (entries : EndpointRegistry) (now : Int) (entry : EndpointEntry) : EndpointRegistry :=
  if (entries.find entry.nodeId).isSome then
    entries.modifyEntry entry.nodeId fun old =>
      { old with
        ip := entry.ip
        p2pPort := entry.p2pPort
        apiPort := if entry.apiPort > 0 then entry.apiPort else old.apiPort
        modelName := if entry.modelName.isEmpty then old.modelName else entry.modelName
        lastSeen := now }
  else
    place { entry with registeredAt := now, lastSeen := now } entries

def updateReachability (entries : EndpointRegistry) (now : Int) (nodeId : Bytes)
    (direct punch tcp : Bool) : EndpointRegistry :=
  entries.modifyEntry nodeId fun entry =>
    { entry with
      reachableDirectly := direct
      reachableViaPunch := punch
      reachableViaTcp := tcp
      lastSeen := now }

def updateQualityScore (entries : EndpointRegistry) (nodeId : Bytes) (delta : Int) :
    EndpointRegistry :=
  entries.modifyEntry nodeId fun entry =>
    { entry with qualityScore := min 1000 (max (-100) (entry.qualityScore + delta)) }

def considered (entries : EndpointRegistry) (now : Int) (modelHint : Bytes) : EndpointRegistry :=
  entries.filter fun entry =>
    entry.isValid now 300 && !entry.selfReported && entry.serves modelHint

def keepBetter (now : Int) (best : Option EndpointEntry × Int) (entry : EndpointEntry) :
    Option EndpointEntry × Int :=
  if entry.score now > best.2 then (some entry, entry.score now) else best

def selectBest (entries : EndpointRegistry) (now : Int) (modelHint : Bytes) :
    Option EndpointEntry :=
  ((entries.considered now modelHint).foldl (keepBetter now) (none, -1)).1

variable {entries : EndpointRegistry}

theorem mem_place {entry e : EndpointEntry} :
    e ∈ place entry entries ↔ e = entry ∨ e ∈ entries := by
  induction entries with
  | nil => simp [place]
  | cons old entries ih =>
    unfold place
    split
    · simp
    · simp only [mem_cons, ih]
      exact or_left_comm

variable {nodeId : Bytes}

theorem isSome_find :
    (entries.find nodeId).isSome ↔ ∃ entry ∈ entries, entry.nodeId = nodeId := by
  simp [find]

variable {entry : EndpointEntry}

theorem find_eq_some (h : entries.find nodeId = some entry) :
    entry ∈ entries ∧ entry.nodeId = nodeId :=
  ⟨mem_of_find?_eq_some h, by simpa using find?_some h⟩

/-- A property that a change of one entry keeps is kept by the change of the registry. -/
theorem forall_mem_modifyEntry {P : EndpointEntry → Prop} {f : EndpointEntry → EndpointEntry}
    (h : ∀ entry ∈ entries, P entry) (hf : ∀ entry, P entry → P (f entry)) :
    ∀ entry ∈ entries.modifyEntry nodeId f, P entry := by
  intro entry hmem
  rcases mem_map.1 hmem with ⟨old, hold, rfl⟩
  split
  · exact hf old (h old hold)
  · exact h old hold

theorem isSome_find_modifyEntry {f : EndpointEntry → EndpointEntry}
    (hf : ∀ entry, (f entry).nodeId = entry.nodeId) (key : Bytes) :
    ((entries.modifyEntry nodeId f).find key).isSome ↔ (entries.find key).isSome := by
  have hkey : ∀ entry : EndpointEntry,
      (if entry.nodeId = nodeId then f entry else entry).nodeId = entry.nodeId := by
    intro entry
    split
    · exact hf entry
    · rfl
  simp [isSome_find, modifyEntry, hkey]

theorem mem_considered {now : Int} {modelHint : Bytes} :
    entry ∈ entries.considered now modelHint ↔
      entry ∈ entries ∧ entry.isValid now 300 = true ∧ entry.selfReported = false ∧
        entry.serves modelHint = true := by
  simp [considered, and_assoc]

theorem selectBest_eq_scan (entries : EndpointRegistry) (now : Int) (modelHint : Bytes) :
    entries.selectBest now modelHint =
      (ArgMax.scan (·.score now) (-1) (entries.considered now modelHint)).1 := rfl

theorem mem_considered_of_selectBest {now : Int} {modelHint : Bytes}
    (h : entries.selectBest now modelHint = some entry) :
    entry ∈ entries.considered now modelHint := by
  rw [selectBest_eq_scan] at h
  exact ArgMax.mem_of_scan h

end EndpointRegistry

/-! ## Scan -/

structure CNode where
  id : Int
  addrName : Bytes
  fSuccessfullyConnected : Bool
  fDisconnect : Bool
  deriving DecidableEq

def CNode.fullyConnected (node : CNode) : Bool :=
  node.fSuccessfullyConnected && !node.fDisconnect

def peerKey (id : Int) : Bytes :=
  ascii "peer-" ++ toString64 id

def stoul (s : Bytes) : Option Nat :=
  let digits := (skipSign s).2.takeWhile isDigit
  let value := digitsValue digits
  if digits.isEmpty || decide (2 ^ 64 ≤ value) then none
  else some (if (skipSign s).1 then (2 ^ 64 - value) % 2 ^ 64 else value)

/-- The address and the port behind the last colon; a port that is no number is the default one. -/
def parseAddrName (addrName : Bytes) : Bytes × UInt16 :=
  let port := (addrName.reverse.takeWhile (· ≠ 58)).reverse
  if port.length = addrName.length then (addrName, 9333)
  else
    (addrName.take (addrName.length - port.length - 1),
      ((stoul port).map UInt16.ofNat).getD 9333)

def endpointOf (node : CNode) : EndpointEntry :=
  let addr := parseAddrName (if node.addrName.isEmpty then ascii "unknown" else node.addrName)
  { nodeId := peerKey node.id
    connNodeId := node.id
    ip := addr.1
    p2pPort := addr.2
    apiPort := 9332
    reachableDirectly := true
    qualityScore := 50 }

example :
    parseAddrName (ascii "10.0.0.2:8444") = (ascii "10.0.0.2", 8444) ∧
      parseAddrName (ascii "host:x") = (ascii "host", 9333) := by decide +kernel

structure RoutingState where
  now : Int
  nextNodeId : Int
  nodes : List CNode
  entries : EndpointRegistry

namespace RoutingState

def Connected (s : RoutingState) (id : Int) : Prop :=
  ∃ node ∈ s.nodes, node.fullyConnected = true ∧ node.id = id

instance (s : RoutingState) (id : Int) : Decidable (s.Connected id) :=
  inferInstanceAs (Decidable (∃ node ∈ s.nodes, node.fullyConnected = true ∧ node.id = id))

def scanPeer (s : RoutingState) (node : CNode) : RoutingState :=
  if node.fullyConnected = true ∧ (s.entries.find (peerKey node.id)).isSome = false then
    { s with entries := s.entries.register s.now (endpointOf node) }
  else
    s

def scanAndRegisterPeers (s : RoutingState) : RoutingState :=
  s.nodes.foldl scanPeer s

/-- What the sessions, the network and the resolve callback answer during a preflight check. -/
structure PreflightAnswers where
  sessionUsable : Bool
  udpPunch : Bool
  tcpFallback : Bool
  resolved : Bool

def preflightCheck (s : RoutingState) (target : EndpointEntry) (answers : PreflightAnswers) :
    EndpointRegistry × Bool :=
  if answers.sessionUsable = false then (s.entries, false)
  else if target.hasRoute then (s.entries, true)
  else if answers.udpPunch then
    (s.entries.updateReachability s.now target.nodeId false true false, true)
  else if answers.tcpFallback then
    (s.entries.updateReachability s.now target.nodeId false false true, true)
  else (s.entries, false)

/-- `Infer` up to the sending of the request: refresh, selection, preflight check, resolution. -/
def infer (s : RoutingState) (model : Bytes) (answers : PreflightAnswers) : RoutingState :=
  let s := s.scanAndRegisterPeers
  match s.entries.selectBest s.now model with
  | none => s
  | some target =>
      let checked := s.preflightCheck target answers
      if checked.2 = false then
        { s with entries := checked.1.updateQualityScore target.nodeId (-15) }
      else if target.connNodeId < 0 ∧ answers.resolved = false then
        { s with entries := checked.1.updateQualityScore target.nodeId (-10) }
      else
        { s with entries := checked.1 }

end RoutingState

/-! ## Runs -/

inductive RoutingEvent where
  | connect (addrName : Bytes)
  | handshake (id : Int)
  | markDisconnect (id : Int)
  | removeNode (id : Int)
  | elapse (seconds : Nat)
  | scan
  | infer (model : Bytes) (answers : RoutingState.PreflightAnswers)
  | answered (nodeId : Bytes) (success : Bool)

structure ScanLog extends RoutingState where
  firstScan : Int → Option Int

namespace ScanLog

open RoutingState

def initial (now : Int) : ScanLog where
  now := now
  nextNodeId := 0
  nodes := []
  entries := EndpointRegistry.register [] now
    { nodeId := ascii "self", ip := ascii "0.0.0.0", reachableDirectly := true, qualityScore := 100,
      selfReported := true }
  firstScan := fun _ => none

def setNode (s : ScanLog) (id : Int) (f : CNode → CNode) : ScanLog :=
  { s with nodes := s.nodes.map fun node => if node.id = id then f node else node }

def noteScan (s : ScanLog) (node : CNode) : Int → Option Int :=
  if node.fullyConnected = true ∧ s.firstScan node.id = none then
    Function.update s.firstScan node.id (some s.now)
  else
    s.firstScan

def scanPeer (s : ScanLog) (node : CNode) : ScanLog where
  toRoutingState := s.toRoutingState.scanPeer node
  firstScan := s.noteScan node

def scan (s : ScanLog) : ScanLog :=
  s.nodes.foldl scanPeer s

def step (s : ScanLog) : RoutingEvent → ScanLog
  | .connect addrName =>
      { s with
        nextNodeId := s.nextNodeId + 1
        nodes := s.nodes ++
          [{ id := s.nextNodeId, addrName, fSuccessfullyConnected := false,
             fDisconnect := false }] }
  | .handshake id => s.setNode id fun node => { node with fSuccessfullyConnected := true }
  | .markDisconnect id => s.setNode id fun node => { node with fDisconnect := true }
  | .removeNode id => { s with nodes := s.nodes.filter fun node => node.id ≠ id }
  | .elapse seconds => { s with now := s.now + seconds }
  | .scan => s.scan
  | .infer model answers =>
      { toRoutingState := s.toRoutingState.infer model answers, firstScan := s.scan.firstScan }
  | .answered nodeId success =>
      { s with entries := s.entries.updateQualityScore nodeId (if success then 5 else -15) }

/-- Right after the refresh of an `Infer`, every connected peer has a valid entry, and the selection
considers entries of connected peers only. -/
def Routable (s : ScanLog) (event : RoutingEvent) : Prop :=
  match event with
  | .infer model _ =>
      let refreshed := s.toRoutingState.scanAndRegisterPeers
      (∀ id, refreshed.Connected id →
        ∃ entry, refreshed.entries.find (peerKey id) = some entry ∧
          entry.isValid refreshed.now 300 = true) ∧
      ∀ entry ∈ refreshed.entries.considered refreshed.now model,
        refreshed.Connected entry.connNodeId
  | _ => True

/-- When an `Infer` comes, the peers that a scan has seen before are connected exactly if the first
scan that saw them was in the last 300 seconds. -/
def SeenAsConnected (s : ScanLog) (event : RoutingEvent) : Prop :=
  match event with
  | .infer _ _ => ∀ id time, s.firstScan id = some time → (s.Connected id ↔ s.now - time ≤ 300)
  | _ => True

/-! ## The registry records the first scan -/

/-- The entry is the node's own, or that of a peer that was last seen when it was first scanned. -/
def Describes (firstScan : Int → Option Int) (entry : EndpointEntry) : Prop :=
  (entry.selfReported = true ∧ entry.nodeId = ascii "self") ∨
    (entry.nodeId = peerKey entry.connNodeId ∧ firstScan entry.connNodeId = some entry.lastSeen ∧
      entry.selfReported = false ∧ entry.modelName = [] ∧ entry.reachableDirectly = true)

structure Recorded (s : ScanLog) : Prop where
  describes : ∀ entry ∈ s.entries, Describes s.firstScan entry
  found : ∀ id, (s.firstScan id).isSome → (s.entries.find (peerKey id)).isSome

theorem peerKey_injective : Function.Injective peerKey := by
  intro id id' h
  exact toString64_injective (append_cancel_left h)

theorem peerKey_ne_self (id : Int) : peerKey id ≠ ascii "self" := by
  intro h
  have hhead := congrArg head? h
  simp [peerKey, ascii] at hhead

variable {s : ScanLog}

open EndpointRegistry

theorem Recorded.of_find (h : s.Recorded) {id : Int} {entry : EndpointEntry}
    (hfind : s.entries.find (peerKey id) = some entry) :
    s.firstScan id = some entry.lastSeen := by
  rcases find_eq_some hfind with ⟨hmem, hkey⟩
  rcases h.describes entry hmem with ⟨_, hself⟩ | ⟨hpeer, hscan, _⟩
  · exact absurd (hkey.symm.trans hself) (peerKey_ne_self id)
  · rwa [peerKey_injective (hpeer.symm.trans hkey)] at hscan

theorem Recorded.isSome_find_iff (h : s.Recorded) (id : Int) :
    (s.entries.find (peerKey id)).isSome ↔ (s.firstScan id).isSome := by
  refine ⟨fun hfind => ?_, h.found id⟩
  rcases isSome_iff_exists.1 hfind with ⟨entry, hentry⟩
  rw [h.of_find hentry]
  rfl

variable {node : CNode}

theorem Recorded.scanPeer_of_seen (h : s.Recorded)
    (hseen : ¬(node.fullyConnected = true ∧ s.firstScan node.id = none)) : s.scanPeer node = s := by
  have hfind : ¬(node.fullyConnected = true ∧
      (s.entries.find (peerKey node.id)).isSome = false) := by
    rintro ⟨hfull, hnone⟩
    refine hseen ⟨hfull, not_isSome_iff_eq_none.1 fun hsome => ?_⟩
    exact absurd (h.found node.id hsome) (by simp [hnone])
  simp only [scanPeer, RoutingState.scanPeer, noteScan, if_neg hfind, if_neg hseen]

theorem Recorded.scanPeer_of_new (h : s.Recorded) (hfull : node.fullyConnected = true)
    (hnew : s.firstScan node.id = none) :
    s.scanPeer node =
      { s with
        entries := place
          { endpointOf node with registeredAt := s.now, lastSeen := s.now } s.entries
        firstScan := update s.firstScan node.id (some s.now) } := by
  have hfind : (s.entries.find (peerKey node.id)).isSome = false := by
    rw [Bool.eq_false_iff, Ne, h.isSome_find_iff, hnew]
    simp
  have hregister : (s.entries.find (endpointOf node).nodeId).isSome = false := hfind
  simp [scanPeer, RoutingState.scanPeer, noteScan, hfull, hnew, hfind, register,
    hregister]

theorem Describes.update {firstScan : Int → Option Int} {entry : EndpointEntry}
    (h : Describes firstScan entry) {id : Int} (hnew : firstScan id = none) (time : Int) :
    Describes (update firstScan id (some time)) entry := by
  rcases h with hself | ⟨hkey, hscan, hrest⟩
  · exact Or.inl hself
  · have hne : entry.connNodeId ≠ id := by
      rintro rfl
      rw [hnew] at hscan
      cases hscan
    exact Or.inr ⟨hkey, by rwa [update_of_ne hne], hrest⟩

theorem Recorded.scanPeer (h : s.Recorded) (node : CNode) :
    (s.scanPeer node).Recorded := by
  by_cases hseen : node.fullyConnected = true ∧ s.firstScan node.id = none
  · rcases hseen with ⟨hfull, hnew⟩
    rw [h.scanPeer_of_new hfull hnew]
    refine ⟨fun entry hmem => ?_, fun id hsome => ?_⟩
    · rcases mem_place.1 hmem with rfl | hold
      · exact Or.inr ⟨rfl, update_self _ _ _, rfl, rfl, rfl⟩
      · exact (h.describes entry hold).update hnew s.now
    · rw [isSome_find]
      by_cases hid : id = node.id
      · exact ⟨_, mem_place.2 (Or.inl rfl), by rw [hid]; rfl⟩
      · have hbefore : (s.firstScan id).isSome := by
          simpa only [update_of_ne hid] using hsome
        rcases isSome_find.1 (h.found id hbefore) with ⟨entry, hmem, hkey⟩
        exact ⟨entry, mem_place.2 (Or.inr hmem), hkey⟩
  · rw [h.scanPeer_of_seen hseen]
    exact h

theorem Recorded.scan (h : s.Recorded) : s.scan.Recorded :=
  run_invariant (fun _ node h => h.scanPeer node) h s.nodes

@[simp]
theorem toRoutingState_scan (s : ScanLog) :
    s.scan.toRoutingState = s.toRoutingState.scanAndRegisterPeers :=
  (foldl_hom toRoutingState (fun _ _ => rfl)).symm

theorem scanPeer_frame (s : RoutingState) (node : CNode) :
    (s.scanPeer node).now = s.now ∧ (s.scanPeer node).nodes = s.nodes := by
  unfold RoutingState.scanPeer
  split <;> exact ⟨rfl, rfl⟩

theorem scanAndRegisterPeers_frame (s : RoutingState) :
    s.scanAndRegisterPeers.now = s.now ∧ s.scanAndRegisterPeers.nodes = s.nodes := by
  refine foldlRecOn (motive := fun s' => s'.now = s.now ∧ s'.nodes = s.nodes) s.nodes
    RoutingState.scanPeer ⟨rfl, rfl⟩ fun s' h node _ => ?_
  rcases scanPeer_frame s' node with ⟨hnow, hnodes⟩
  exact ⟨hnow.trans h.1, hnodes.trans h.2⟩

theorem firstScan_scanPeer_of_ne (s : ScanLog) {id : Int} (hid : node.id ≠ id) :
    (s.scanPeer node).firstScan id = s.firstScan id := by
  simp only [ScanLog.scanPeer, noteScan]
  split
  · exact update_of_ne hid.symm _ _
  · rfl

theorem firstScan_foldl (nodes : List CNode) (s : ScanLog) (id : Int) :
    (nodes.foldl ScanLog.scanPeer s).firstScan id =
      (s.firstScan id).or
        (if ∃ node ∈ nodes, node.fullyConnected = true ∧ node.id = id then some s.now
          else none) := by
  induction nodes generalizing s with
  | nil => simp
  | cons node nodes ih =>
    rw [foldl_cons, ih, show (s.scanPeer node).now = s.now from (scanPeer_frame _ node).1]
    by_cases hid : node.id = id
    · subst hid
      simp only [ScanLog.scanPeer, noteScan]
      cases hfull : node.fullyConnected <;> cases hscan : s.firstScan node.id <;>
        simp [hfull, hscan]
    · rw [firstScan_scanPeer_of_ne s hid]
      simp [hid]

theorem firstScan_scan (s : ScanLog) (id : Int) :
    s.scan.firstScan id =
      (s.firstScan id).or (if s.Connected id then some s.now else none) :=
  firstScan_foldl s.nodes s id

theorem Recorded.updateQualityScore (h : s.Recorded) (nodeId : Bytes) (delta : Int) :
    Recorded { s with entries := s.entries.updateQualityScore nodeId delta } where
  describes := forall_mem_modifyEntry h.describes fun _ hentry => hentry
  found id hsome :=
    (isSome_find_modifyEntry (fun _ => by rfl) (peerKey id)).2 (h.found id hsome)

/-- A selected peer has a route, and so its preflight check leaves the registry alone. -/
theorem Recorded.preflightCheck_selected (h : s.Recorded) {model : Bytes} {target : EndpointEntry}
    (hbest : s.entries.selectBest s.now model = some target) (answers : PreflightAnswers) :
    (s.toRoutingState.preflightCheck target answers).1 = s.entries := by
  have hmem :=
    mem_considered.1 (mem_considered_of_selectBest hbest)
  have hroute : target.hasRoute = true := by
    rcases h.describes target hmem.1 with ⟨hself, _⟩ | ⟨_, _, _, _, hdirect⟩
    · rw [hmem.2.2.1] at hself
      cases hself
    · simp [EndpointEntry.hasRoute, hdirect]
  simp only [preflightCheck, if_pos hroute]
  split <;> rfl

theorem Recorded.infer (h : s.Recorded) (model : Bytes) (answers : PreflightAnswers) :
    (s.step (.infer model answers)).Recorded := by
  have hscan := h.scan
  simp only [step, RoutingState.infer, ← toRoutingState_scan]
  cases hbest : s.scan.entries.selectBest s.scan.now model with
  | none => exact hscan
  | some target =>
    simp only [hscan.preflightCheck_selected hbest]
    split
    · exact hscan.updateQualityScore target.nodeId (-15)
    · split
      · exact hscan.updateQualityScore target.nodeId (-10)
      · exact hscan

theorem Recorded.step (h : s.Recorded) (event : RoutingEvent) :
    (s.step event).Recorded := by
  cases event with
  | connect addrName => exact ⟨h.describes, h.found⟩
  | handshake id => exact ⟨h.describes, h.found⟩
  | markDisconnect id => exact ⟨h.describes, h.found⟩
  | removeNode id => exact ⟨h.describes, h.found⟩
  | elapse seconds => exact ⟨h.describes, h.found⟩
  | scan => exact h.scan
  | infer model answers => exact h.infer model answers
  | answered nodeId success => exact h.updateQualityScore nodeId _

theorem recorded_initial (now : Int) : (initial now).Recorded where
  describes entry hmem := by
    rcases mem_singleton.1 hmem with rfl
    exact Or.inl ⟨rfl, rfl⟩
  found id hsome := by cases hsome

theorem connected_scan (s : ScanLog) (id : Int) : s.scan.Connected id ↔ s.Connected id := by
  simp only [Connected, toRoutingState_scan, (scanAndRegisterPeers_frame s.toRoutingState).2]

theorem now_scan (s : ScanLog) : s.scan.now = s.now := by
  simp only [toRoutingState_scan, (scanAndRegisterPeers_frame s.toRoutingState).1]

theorem Recorded.valid_iff (h : s.Recorded) (id : Int) :
    (∃ entry, s.entries.find (peerKey id) = some entry ∧ entry.isValid s.now 300 = true) ↔
      ∃ time, s.firstScan id = some time ∧ s.now - time ≤ 300 := by
  constructor
  · rintro ⟨entry, hfind, hvalid⟩
    exact ⟨entry.lastSeen, h.of_find hfind, of_decide_eq_true hvalid⟩
  · rintro ⟨time, hscan, hage⟩
    rcases isSome_iff_exists.1 (h.found id (by simp [hscan])) with ⟨entry, hfind⟩
    have htime := (h.of_find hfind).symm.trans hscan
    refine ⟨entry, hfind, decide_eq_true ?_⟩
    rwa [EndpointEntry.ageSeconds, some.inj htime]

theorem Recorded.considered_iff (h : s.Recorded) (model : Bytes) :
    (∀ entry ∈ s.entries.considered s.now model, s.Connected entry.connNodeId) ↔
      ∀ id time, s.firstScan id = some time → s.now - time ≤ 300 → s.Connected id := by
  constructor
  · intro hall id time hscan hage
    rcases (h.valid_iff id).2 ⟨time, hscan, hage⟩ with ⟨entry, hfind, hvalid⟩
    rcases find_eq_some hfind with ⟨hmem, hkey⟩
    rcases h.describes entry hmem with ⟨_, hself⟩ | ⟨hpeer, _, hother, hmodel, _⟩
    · exact absurd (hkey.symm.trans hself) (peerKey_ne_self id)
    · rw [← peerKey_injective (hpeer.symm.trans hkey)]
      have hserves : entry.serves model = true := by simp [EndpointEntry.serves, hmodel]
      exact hall entry (mem_considered.2 ⟨hmem, hvalid, hother, hserves⟩)
  · intro hall entry hmem
    rcases mem_considered.1 hmem with ⟨hentry, hvalid, hother, _⟩
    rcases h.describes entry hentry with ⟨hself, _⟩ | ⟨_, hscan, _⟩
    · rw [hother] at hself
      cases hself
    · exact hall entry.connNodeId entry.lastSeen hscan (of_decide_eq_true hvalid)

/-- What the refresh leaves behind, in terms of the first scans. -/
theorem Recorded.routable_iff (h : s.Recorded) (event : RoutingEvent) :
    s.Routable event ↔ s.SeenAsConnected event := by
  cases event with
  | infer model answers =>
    have hrefreshed : s.Routable (.infer model answers) ↔
        (∀ id, s.Connected id → ∃ time, s.scan.firstScan id = some time ∧ s.now - time ≤ 300) ∧
          ∀ id time, s.scan.firstScan id = some time → s.now - time ≤ 300 → s.Connected id := by
      have hvalid := h.scan.valid_iff
      have hconsidered := h.scan.considered_iff model
      simp only [now_scan, connected_scan] at hvalid hconsidered
      simp only [Routable, ← toRoutingState_scan, now_scan, connected_scan, hvalid, hconsidered]
    rw [hrefreshed]
    simp only [SeenAsConnected, firstScan_scan]
    constructor
    · rintro ⟨hvalid, hconsidered⟩ id time hseen
      refine ⟨fun hconn => ?_, hconsidered id time (by simp [hseen])⟩
      rcases hvalid id hconn with ⟨time', hscan, hage⟩
      rw [hseen, some_or, some.injEq] at hscan
      rwa [hscan]
    · intro hseen
      refine ⟨fun id hconn => ?_, fun id time hscan hage => ?_⟩
      · cases hfirst : s.firstScan id with
        | none => exact ⟨s.now, by simp [hconn], by omega⟩
        | some time => exact ⟨time, rfl, (hseen id time hfirst).1 hconn⟩
      · cases hfirst : s.firstScan id with
        | none =>
          by_contra hconn
          simp [hfirst, hconn] at hscan
        | some time' =>
          rw [hfirst, some_or, some.injEq] at hscan
          exact (hseen id time' hfirst).2 (by rwa [hscan])
  | _ => exact Iff.rfl

/-- Over any run: after every refresh the connected peers are exactly the routable ones if and only
if, at every `Infer`, the peers seen before are connected exactly if they were first seen in the
last 300 seconds. -/
theorem routable_iff_seenAsConnected (now : Int) (events : List RoutingEvent) :
    GoodRun ScanLog.step Routable (initial now) events ↔
      GoodRun ScanLog.step SeenAsConnected (initial now) events :=
  GoodRun.congr_of_invariant (fun _ event h => h.step event)
    (fun _ event h => h.routable_iff event) (recorded_initial now) events

/-! ## A peer that stays, and one that leaves -/

def noAnswers : PreflightAnswers where
  sessionUsable := true
  udpPunch := false
  tcpFallback := false
  resolved := false

def idleRun : List RoutingEvent :=
  [.connect (ascii "10.0.0.2:9333"), .handshake 0, .infer [] noAnswers, .elapse 301,
    .infer [] noAnswers]

def departedRun : List RoutingEvent :=
  [.connect (ascii "10.0.0.2:9333"), .handshake 0, .infer [] noAnswers, .removeNode 0,
    .infer [] noAnswers]

def lastRefresh (events : List RoutingEvent) : RoutingState :=
  (run ScanLog.step (initial 0) events.dropLast).toRoutingState.scanAndRegisterPeers

theorem not_routable_idle_departed :
    ¬GoodRun ScanLog.step Routable (initial 0) idleRun ∧
      ¬GoodRun ScanLog.step Routable (initial 0) departedRun := by
  refine ⟨?_, ?_⟩
  · rintro ⟨_, _, _, _, ⟨hvalid, _⟩, _⟩
    rcases hvalid 0 (by decide +kernel) with ⟨entry, hfind, hage⟩
    have hfresh : ((lastRefresh idleRun).entries.find (peerKey 0)).any
        (·.isValid (lastRefresh idleRun).now 300) = true :=
      (Option.any_eq_true _ _).2 ⟨entry, hfind, hage⟩
    exact absurd hfresh (by decide +kernel)
  · rintro ⟨_, _, _, _, ⟨_, hconsidered⟩, _⟩
    have hall : ((lastRefresh departedRun).entries.considered (lastRefresh departedRun).now []).all
        (fun entry => decide ((lastRefresh departedRun).Connected entry.connNodeId)) = true :=
      List.all_eq_true.2 fun entry hmem => decide_eq_true (hconsidered entry hmem)
    exact absurd hall (by decide +kernel)

end ScanLog

end TKNC.Net
