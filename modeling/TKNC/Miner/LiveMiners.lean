import Mathlib.Data.List.Lex
import TKNC.Lib.EventMachine
import TKNC.Lib.SecondaryKey
import TKNC.Miner.UniValue

/-!
# LiveMiners — the table of live miners

Four functions write `live_miners_`: a registration replaces what the same wallet has registered
under another id, a heartbeat changes an entry in place, the cleanup marks entries as offline, and
`LoadMinerData` adds the entries of a cache file whose wallets are not there yet.

The parser of the cache file and that of its floating-point numbers are parameters, and so are the
readings of the clock.  A getter that throws ends the loading with the entries read so far.
-/

namespace TKNC.Miner

open Lib Lib.EventMachine Lib.MachineInt Lib.Numeral

structure MinerId where
  bytes : Bytes
  deriving DecidableEq

def MinerId.compared (id : MinerId) : List Nat :=
  id.bytes.map UInt8.toNat

theorem MinerId.compared_injective : Function.Injective MinerId.compared := by
  rintro ⟨a⟩ ⟨b⟩ heq
  exact congrArg MinerId.mk (List.map_injective_iff.2 (fun _ _ h => UInt8.toNat_inj.1 h) heq)

instance : LinearOrder MinerId :=
  LinearOrder.lift' MinerId.compared MinerId.compared_injective

variable {Double : Type}

structure LiveMinerInfo (Double : Type) where
  minerId : MinerId
  modelName : Bytes
  modelPath : Bytes
  status : Bytes
  hashrate : Double
  lastHeartbeat : Int
  gpuName : Bytes
  gpuVramTotalMb : Int
  gpuVramUsedMb : Int
  gpuUtilization : Double
  totalBlocksFound : Int
  totalInferenceRequests : Int
  totalEarned : Int
  currentBlockHeight : Int
  ipAddress : Bytes
  p2pPort : Int
  apiPort : Int
  registrationTime : Int
  description : Bytes
  tokensPerTknc : Int
  walletAddress : Bytes
  deriving DecidableEq

/-- The constructor; it leaves `registration_time` unset, and both writers of whole entries set it
before they store one. -/
def LiveMinerInfo.init [Zero Double] : LiveMinerInfo Double where
  minerId := ⟨[]⟩
  modelName := []
  modelPath := []
  status := []
  hashrate := 0
  lastHeartbeat := 0
  gpuName := []
  gpuVramTotalMb := 0
  gpuVramUsedMb := 0
  gpuUtilization := 0
  totalBlocksFound := 0
  totalInferenceRequests := 0
  totalEarned := 0
  currentBlockHeight := 0
  ipAddress := []
  p2pPort := 0
  apiPort := 0
  registrationTime := 0
  description := []
  tokensPerTknc := 0
  walletAddress := []

abbrev LiveMiners (Double : Type) : Type := OrderedMap MinerId (LiveMinerInfo Double)

namespace LiveMiners

/-! ## Registration, heartbeat and cleanup -/

/-- The loop of `RegisterMiner` goes on to the next entry without erasing this one. -/
def staysBeside (info : LiveMinerInfo Double) (e : MinerId × LiveMinerInfo Double) : Bool :=
  if e.2.walletAddress = info.walletAddress ∧ e.1 ≠ info.minerId then false
  else if e.2.walletAddress = ascii "unknown" ∧ info.walletAddress ≠ ascii "unknown" then false
  else true

def dedup (miners : LiveMiners Double) (info : LiveMinerInfo Double) : LiveMiners Double :=
  if info.walletAddress ≠ [] then miners.filter (staysBeside info) else miners

def registered (info : LiveMinerInfo Double) (registrationTime lastHeartbeat : Int) :
    LiveMinerInfo Double :=
  { info with
    registrationTime := registrationTime
    lastHeartbeat := lastHeartbeat
    status := ascii "online" }

def registerMiner (miners : LiveMiners Double) (info : LiveMinerInfo Double)
    (registrationTime lastHeartbeat : Int) : LiveMiners Double :=
  (dedup miners info).insert info.minerId (registered info registrationTime lastHeartbeat)

def heartbeat (entry update : LiveMinerInfo Double) (now : Int) : LiveMinerInfo Double :=
  { entry with
    lastHeartbeat := now
    hashrate := update.hashrate
    status := update.status
    gpuUtilization := update.gpuUtilization
    gpuVramUsedMb := update.gpuVramUsedMb
    modelName :=
      if update.modelName ≠ [] ∧ update.modelName ≠ ascii "Unknown" then update.modelName
      else entry.modelName
    totalBlocksFound :=
      if update.totalBlocksFound > entry.totalBlocksFound then update.totalBlocksFound
      else entry.totalBlocksFound
    totalInferenceRequests :=
      if update.totalInferenceRequests > entry.totalInferenceRequests then
        update.totalInferenceRequests
      else entry.totalInferenceRequests
    currentBlockHeight :=
      if update.currentBlockHeight > entry.currentBlockHeight then update.currentBlockHeight
      else entry.currentBlockHeight }

def updateMinerHeartbeat (miners : LiveMiners Double) (minerId : MinerId)
    (update : LiveMinerInfo Double) (now : Int) : LiveMiners Double × Bool :=
  match miners.get? minerId with
  | none => (miners, false)
  | some entry => (miners.insert minerId (heartbeat entry update now), true)

def heartbeatTimeout : Int := 30

/-- The body of the loop of `CleanupOfflineMiners`; the server's own wallet never goes offline. -/
def cleanup (walletAddress : Bytes) (now : Int) (entry : LiveMinerInfo Double) :
    LiveMinerInfo Double :=
  if entry.walletAddress = walletAddress then { entry with lastHeartbeat := now }
  else if wrap 64 (now - entry.lastHeartbeat) > heartbeatTimeout then
    if entry.status ≠ ascii "offline" then { entry with status := ascii "offline" } else entry
  else entry

def cleanupOfflineMiners (miners : LiveMiners Double) (walletAddress : Bytes) (now : Int) :
    LiveMiners Double :=
  miners.mapValues (cleanup walletAddress now)

/-! ## The cache file -/

section Cache

open UniValue (getStr getInt getReal)

variable [Zero Double] (parseDouble : Bytes → Option Double)

/-- The entry that one element of the file describes, its fields in the order in which they are
read. -/
def readInfo (walletAddress : Bytes) (m : UniValue) :
    Except UniValue.Error (LiveMinerInfo Double) := do
  let info : LiveMinerInfo Double := LiveMinerInfo.init
  let info := { info with minerId := ⟨← m.getOr getStr "miner_id" []⟩ }
  let info := { info with modelName := ← m.getOr getStr "model_name" [] }
  let info := { info with modelPath := ← m.getOr getStr "model_path" [] }
  let info := { info with status := ← m.getOr getStr "status" (ascii "offline") }
  -- the wallet is read further down
  let info :=
    if info.walletAddress ≠ [] ∧ info.walletAddress = walletAddress then
      { info with status := ascii "online" }
    else info
  let info := { info with hashrate := ← m.getOr (getReal parseDouble) "hashrate" 0 }
  let info := { info with gpuName := ← m.getOr getStr "gpu_name" [] }
  let info := { info with gpuVramTotalMb := ← m.getOr (getInt 64) "gpu_vram_total_mb" 0 }
  let info := { info with totalBlocksFound := ← m.getOr (getInt 64) "total_blocks_found" 0 }
  let info :=
    { info with
      totalInferenceRequests := ← m.getOr (getInt 64) "total_inference_requests" 0 }
  let info := { info with totalEarned := ← m.getOr (getInt 64) "total_earned" 0 }
  let info := { info with ipAddress := ← m.getOr getStr "ip_address" [] }
  let info := { info with apiPort := ← m.getOr (getInt 32) "api_port" 0 }
  let info := { info with p2pPort := ← m.getOr (getInt 32) "p2p_port" 0 }
  let info := { info with registrationTime := ← m.getOr (getInt 64) "registration_time" 0 }
  let info := { info with description := ← m.getOr getStr "description" [] }
  let info := { info with tokensPerTknc := ← m.getOr (getInt 64) "tokens_per_tknc" 0 }
  let info := { info with walletAddress := ← m.getOr getStr "wallet_address" [] }
  let info := { info with lastHeartbeat := ← m.getOr (getInt 64) "last_seen" 0 }
  return info

def walletDuplicate (miners : LiveMiners Double) (info : LiveMinerInfo Double) : Bool :=
  info.walletAddress ≠ [] && miners.entries.any fun e => e.2.walletAddress = info.walletAddress

def isActive (entry : LiveMinerInfo Double) : Bool :=
  entry.status = ascii "online" || entry.status = ascii "mining" ||
    entry.status = ascii "inference"

def keepActive (miners : LiveMiners Double) (info : LiveMinerInfo Double) :
    LiveMinerInfo Double :=
  match miners.get? info.minerId with
  | none => info
  | some existing =>
      if isActive existing then
        { info with
          status := existing.status
          lastHeartbeat := existing.lastHeartbeat
          hashrate := existing.hashrate
          gpuUtilization := existing.gpuUtilization
          currentBlockHeight := existing.currentBlockHeight }
      else info

def storeInfo (miners : LiveMiners Double) (info : LiveMinerInfo Double) : LiveMiners Double :=
  if info.minerId.bytes ≠ [] then
    if walletDuplicate miners info then miners
    else miners.insert info.minerId (keepActive miners info)
  else miners

def loadLoop (walletAddress : Bytes) :
    LiveMiners Double → List UniValue → LiveMiners Double × Except UniValue.Error Unit
  | miners, [] => (miners, .ok ())
  | miners, m :: rest =>
      match readInfo parseDouble walletAddress m with
      | .error error => (miners, .error error)
      | .ok info => loadLoop walletAddress (storeInfo miners info) rest

def loadMinerData (read : Bytes → Option UniValue) (miners : LiveMiners Double)
    (walletAddress : Bytes) (file : Option Bytes) :
    LiveMiners Double × Except UniValue.Error Unit :=
  match file.bind read with
  | some (.arr elements) => loadLoop parseDouble walletAddress miners elements
  | _ => (miners, .ok ())

end Cache

inductive MinerEvent (Double : Type) where
  | register (info : LiveMinerInfo Double) (registrationTime lastHeartbeat : Int)
  | heartbeat (minerId : MinerId) (update : LiveMinerInfo Double) (now : Int)
  | cleanup (walletAddress : Bytes) (now : Int)
  | load (walletAddress : Bytes) (file : Option Bytes)

section Step

variable [Zero Double] (read : Bytes → Option UniValue) (parseDouble : Bytes → Option Double)

def step (miners : LiveMiners Double) : MinerEvent Double → LiveMiners Double
  | .register info registrationTime lastHeartbeat =>
      registerMiner miners info registrationTime lastHeartbeat
  | .heartbeat minerId update now => (updateMinerHeartbeat miners minerId update now).1
  | .cleanup walletAddress now => cleanupOfflineMiners miners walletAddress now
  | .load walletAddress file => (loadMinerData parseDouble read miners walletAddress file).1

end Step

/-- Two entries for one wallet; entries without a wallet do not count. -/
def SameWallet (info info' : LiveMinerInfo Double) : Prop :=
  info.walletAddress = info'.walletAddress ∧ info.walletAddress ≠ []

theorem SameWallet.symm {info info' : LiveMinerInfo Double} (h : SameWallet info info') :
    SameWallet info' info :=
  ⟨h.1.symm, h.1 ▸ h.2⟩

/-- Every entry is stored under its own id, and no two entries have the same wallet. -/
def OnePerWallet (miners : LiveMiners Double) : Prop :=
  Indexed LiveMinerInfo.minerId SameWallet miners

variable {miners : LiveMiners Double}

theorem OnePerWallet.dedup (h : OnePerWallet miners) (info : LiveMinerInfo Double) :
    OnePerWallet (dedup miners info) := by
  unfold LiveMiners.dedup
  split
  · exact h.filter _
  · exact h

theorem not_sameWallet_of_mem_dedup {info : LiveMinerInfo Double}
    {e : MinerId × LiveMinerInfo Double} (hmem : e ∈ (dedup miners info).entries)
    (hne : e.1 ≠ info.minerId) : ¬ SameWallet info e.2 := by
  rintro ⟨hwallet, hnonempty⟩
  rw [dedup, if_pos hnonempty] at hmem
  have hstays := (OrderedMap.mem_entries_filter.1 hmem).2
  rw [staysBeside, if_pos ⟨hwallet.symm, hne⟩] at hstays
  exact Bool.noConfusion hstays

theorem OnePerWallet.registerMiner (h : OnePerWallet miners) (info : LiveMinerInfo Double)
    (registrationTime lastHeartbeat : Int) :
    OnePerWallet (registerMiner miners info registrationTime lastHeartbeat) :=
  Indexed.insert (v := registered info registrationTime lastHeartbeat) (h.dedup info)
    (fun _ _ => SameWallet.symm) fun _ => not_sameWallet_of_mem_dedup

theorem OnePerWallet.updateMinerHeartbeat (h : OnePerWallet miners) (minerId : MinerId)
    (update : LiveMinerInfo Double) (now : Int) :
    OnePerWallet (updateMinerHeartbeat miners minerId update now).1 := by
  unfold LiveMiners.updateMinerHeartbeat
  cases hget : miners.get? minerId with
  | none => exact h
  | some entry =>
    exact Indexed.replace h (fun _ _ => SameWallet.symm) hget rfl fun _ hclash => hclash

theorem cleanup_minerId (walletAddress : Bytes) (now : Int) (entry : LiveMinerInfo Double) :
    (cleanup walletAddress now entry).minerId = entry.minerId := by
  unfold cleanup
  repeat' split
  all_goals rfl

theorem cleanup_walletAddress (walletAddress : Bytes) (now : Int) (entry : LiveMinerInfo Double) :
    (cleanup walletAddress now entry).walletAddress = entry.walletAddress := by
  unfold cleanup
  repeat' split
  all_goals rfl

theorem OnePerWallet.cleanupOfflineMiners (h : OnePerWallet miners) (walletAddress : Bytes)
    (now : Int) :
    OnePerWallet (cleanupOfflineMiners miners walletAddress now) := by
  refine Indexed.mapValues h (cleanup_minerId walletAddress now) ?_
  intro info info' hclash
  rwa [SameWallet, cleanup_walletAddress, cleanup_walletAddress] at hclash

/-! ### Loading -/

theorem keepActive_minerId (miners : LiveMiners Double) (info : LiveMinerInfo Double) :
    (keepActive miners info).minerId = info.minerId := by
  unfold keepActive
  repeat' split
  all_goals rfl

theorem keepActive_walletAddress (miners : LiveMiners Double) (info : LiveMinerInfo Double) :
    (keepActive miners info).walletAddress = info.walletAddress := by
  unfold keepActive
  repeat' split
  all_goals rfl

theorem OnePerWallet.storeInfo (h : OnePerWallet miners) (info : LiveMinerInfo Double) :
    OnePerWallet (storeInfo miners info) := by
  unfold LiveMiners.storeInfo
  split
  · split
    · exact h
    · rename_i hdup
      rw [← keepActive_minerId miners info]
      refine Indexed.insert h (fun _ _ => SameWallet.symm) ?_
      intro e hmem _ hclash
      rw [SameWallet, keepActive_walletAddress] at hclash
      refine hdup (Bool.and_eq_true_iff.2 ⟨decide_eq_true hclash.2, ?_⟩)
      exact List.any_eq_true.2 ⟨e, hmem, decide_eq_true hclash.1.symm⟩
  · exact h

section Step

variable [Zero Double] (read : Bytes → Option UniValue) (parseDouble : Bytes → Option Double)

variable {miners : LiveMiners Double}

theorem OnePerWallet.loadLoop (h : OnePerWallet miners) (walletAddress : Bytes)
    (elements : List UniValue) :
    OnePerWallet (loadLoop parseDouble walletAddress miners elements).1 := by
  -- induction on the elements that are left, for every table
  induction elements generalizing miners with
  | nil => exact h
  | cons m rest ih =>
    unfold LiveMiners.loadLoop
    cases readInfo parseDouble walletAddress m with
    | error error => exact h
    | ok info => exact ih (h.storeInfo info)

theorem OnePerWallet.loadMinerData (h : OnePerWallet miners) (walletAddress : Bytes)
    (file : Option Bytes) :
    OnePerWallet (loadMinerData parseDouble read miners walletAddress file).1 := by
  unfold LiveMiners.loadMinerData
  split
  · exact h.loadLoop parseDouble walletAddress _
  · exact h

theorem OnePerWallet.step (h : OnePerWallet miners) (event : MinerEvent Double) :
    OnePerWallet (step read parseDouble miners event) := by
  cases event with
  | register info registrationTime lastHeartbeat =>
    exact h.registerMiner info registrationTime lastHeartbeat
  | heartbeat minerId update now => exact h.updateMinerHeartbeat minerId update now
  | cleanup walletAddress now => exact h.cleanupOfflineMiners walletAddress now
  | load walletAddress file => exact h.loadMinerData read parseDouble walletAddress file

/-- After every run no two live entries have the same wallet, and each is stored under its own
id. -/
theorem liveMiners_onePerWallet (events : List (MinerEvent Double)) :
    OnePerWallet (run (step read parseDouble) OrderedMap.empty events) := by
  have hstep : ∀ miners event, OnePerWallet miners →
      OnePerWallet (step read parseDouble miners event) :=
    fun _ event h => h.step read parseDouble event
  exact run_invariant hstep Indexed.empty events

-- a wallet that registers under a second id gives up the first
example :
    let miner (id : String) : LiveMinerInfo Nat :=
      { LiveMinerInfo.init with minerId := ⟨ascii id⟩, walletAddress := ascii "w" }
    (run (step (fun _ => none) fun _ => none) OrderedMap.empty
      [.register (miner "m1") 5 5, .register (miner "m2") 6 6]).entries.map Prod.fst =
        [⟨ascii "m2"⟩] := by
  decide

end Step

end LiveMiners

end TKNC.Miner
