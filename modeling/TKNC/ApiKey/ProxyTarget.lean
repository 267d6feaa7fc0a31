import TKNC.ApiKey.ApiKey
import TKNC.Escrow.RateTable
import TKNC.Gateway.Json

/-!
# ProxyTarget — the client chooses a miner

`tknc_setinferproxytarget` shakes hands with the miner, stores the rate that the miner reports and
creates or updates the escrow of the key.  The update of an existing escrow is computed from the
stored record and written with `WriteSpendingLimitFromP2P`, the merge for copies of untrusted peers.
That merge takes over progress only, never wallets or rates, so nothing of the update is stored.
-/

namespace TKNC.ApiKey

open Consensus Escrow Escrow.RateTable
open Gateway (isBlank quote quoted)
open Lib Lib.MachineInt Lib.Numeral Lib.TextSearch

def fieldText (json key : Bytes) : Option Bytes :=
  match find (quoted key) json with
  | none => none
  | some s => (find [Gateway.colon] (s.drop (quoted key).length)).map (·.drop 1)

def strtoll (s : Bytes) : Int :=
  let value : Int := digitsValue ((skipSign s).2.takeWhile isDigit)
  if (skipSign s).1 then max (-value) (-9223372036854775808) else min value int64Max

def parseJsonInt (json key : Bytes) : Int :=
  match fieldText json key with
  | none => -1
  | some s => strtoll (s.dropWhile (fun c => isBlank c || c = 10))

def parseJsonStr (json key : Bytes) : Bytes :=
  match (fieldText json key).bind (find [quote]) with
  | none => []
  | some s => if quote ∈ s.drop 1 then (s.drop 1).takeWhile (· ≠ quote) else []

/-! ## The call -/

structure ProxyTargetCall where
  minerIp : Bytes
  apiKey : Bytes
  modelName : Bytes
  targetPort : Int
  minerWallet : Bytes
  userWallet : Bytes

/-- What the call takes from elsewhere: the response to the handshake, empty if there was none, the
library's test of an address in text form, the clock and the random suffix of a new id. -/
structure Surroundings where
  hsResponse : Bytes
  inetPton : Bool → Bytes → Bool
  getTime : Int
  suffix : Bytes

def Surroundings.verifiedTokensPerTknc (env : Surroundings) : Int :=
  if env.hsResponse = [] then 0 else parseJsonInt env.hsResponse (ascii "tokens_per_tknc")

def Surroundings.handshakeMinerWallet (env : Surroundings) : Bytes :=
  if env.hsResponse = [] then [] else parseJsonStr env.hsResponse (ascii "miner_wallet")

structure ClientNode where
  apiKeys : ApiKeyDb
  escrows : Database
  tokenRates : TokenRates
  proxyTarget : Option (Bytes × Int)

def setInferProxyTarget (env : Surroundings) (targetIp : Bytes) (targetPort : Int) :
    Option (Bytes × Int) :=
  if targetIp = [] then none
  else if targetPort ≤ 0 ∨ targetPort > 65535 then none
  else if env.inetPton (decide (Gateway.colon ∈ targetIp)) targetIp then some (targetIp, targetPort)
  else none

/-- The model of the call, or else of the key; a key that is not known here is left to the
handshake. -/
def resolveModel (node : ClientNode) (call : ProxyTargetCall) : Except String Bytes :=
  match readAPIKey node.apiKeys call.apiKey with
  | none => .ok call.modelName
  | some key =>
      if key.active = false then .error "API key has been revoked"
      else .ok (if call.modelName = [] ∧ key.modelName ≠ [] then key.modelName else call.modelName)

def storeVerifiedRate (call : ProxyTargetCall) (env : Surroundings) (rates : TokenRates) :
    TokenRates :=
  if env.verifiedTokensPerTknc > 0 ∧ call.minerWallet ≠ [] then
    storeTokenRate rates call.minerWallet env.verifiedTokensPerTknc
  else if env.verifiedTokensPerTknc > 0 ∧ env.handshakeMinerWallet ≠ [] then
    storeTokenRate rates env.handshakeMinerWallet env.verifiedTokensPerTknc
  else rates

def effectiveMinerWallet (call : ProxyTargetCall) (env : Surroundings) : Bytes :=
  if env.handshakeMinerWallet ≠ [] then env.handshakeMinerWallet else call.minerWallet

def autoEscrow (call : ProxyTargetCall) (env : Surroundings) (modelName minerWallet : Bytes) :
    SpendingLimit :=
  { escrowId := generateSpendingLimitID call.apiKey env.suffix
    apiKey := call.apiKey
    minerWallet := minerWallet
    userWallet := call.userWallet
    modelName := modelName
    totalTknc := 0
    consumedTknc := 0
    spendingLimit := 0
    quotaTokens := int64Max
    usedTokens := 0
    rateTokensPerTknc :=
      if env.verifiedTokensPerTknc > 0 then env.verifiedTokensPerTknc else 0
    rateTkncPerToken :=
      if env.verifiedTokensPerTknc > 0 then coin.tdiv env.verifiedTokensPerTknc else 0
    createdAt := env.getTime
    expiresAt := i64 (env.getTime + 90 * 86400)
    lastActivity := env.getTime
    state := .created }

structure Update where
  escrow : SpendingLimit
  needsUpdate : Bool

def Update.fillMinerWallet (call : ProxyTargetCall) (env : Surroundings) (u : Update) : Update :=
  if u.escrow.minerWallet = [] ∧ effectiveMinerWallet call env ≠ [] then
    ⟨{ u.escrow with minerWallet := effectiveMinerWallet call env }, true⟩
  else u

def Update.changeRates (env : Surroundings) (u : Update) : Update :=
  if env.verifiedTokensPerTknc > 0 ∧ u.escrow.rateTokensPerTknc ≠ env.verifiedTokensPerTknc then
    ⟨{ u.escrow with
        rateTokensPerTknc := env.verifiedTokensPerTknc
        rateTkncPerToken := coin.tdiv env.verifiedTokensPerTknc }, true⟩
  else u

def Update.changeUserWallet (call : ProxyTargetCall) (u : Update) : Update :=
  if call.userWallet ≠ [] ∧ u.escrow.userWallet ≠ call.userWallet then
    ⟨{ u.escrow with userWallet := call.userWallet }, true⟩
  else u

def updateFor (call : ProxyTargetCall) (env : Surroundings) (existing : SpendingLimit) : Update :=
  ((Update.mk existing false |>.fillMinerWallet call env).changeRates env).changeUserWallet call

/-- The handshake names another miner than the record does. -/
def DifferentMiner (env : Surroundings) (existing : SpendingLimit) : Prop :=
  env.handshakeMinerWallet ≠ [] ∧ existing.minerWallet ≠ [] ∧
    env.handshakeMinerWallet ≠ existing.minerWallet

instance (env : Surroundings) (existing : SpendingLimit) :
    Decidable (DifferentMiner env existing) := by
  unfold DifferentMiner
  infer_instance

def escrowsFor (call : ProxyTargetCall) (env : Surroundings) (modelName : Bytes) (db : Database) :
    Database :=
  match findSpendingLimitByAPIKey db call.apiKey with
  | none =>
      (writeSpendingLimitFromP2P db
        (autoEscrow call env modelName (effectiveMinerWallet call env))).2
  | some existing =>
      if DifferentMiner env existing then
        -- the old record is closed, and a new one is made for the other miner
        let closed := (writeSpendingLimitFromP2P db { existing with state := .closed }).2
        (writeSpendingLimitFromP2P closed
          (autoEscrow call env modelName env.handshakeMinerWallet)).2
      else
        let u := updateFor call env existing
        if u.needsUpdate then (writeSpendingLimitFromP2P db u.escrow).2 else db

def ratesFor (call : ProxyTargetCall) (env : Surroundings) (db : Database) (rates : TokenRates) :
    TokenRates :=
  let rates := storeVerifiedRate call env rates
  if findSpendingLimitByAPIKey db call.apiKey = none ∧ effectiveMinerWallet call env = [] then
    queried rates
  else rates

def tkncSetinferproxytarget (node : ClientNode) (call : ProxyTargetCall) (env : Surroundings) :
    Except String ClientNode :=
  if validateAPIKeyFormat call.apiKey = false then .error "Invalid API key format"
  else
    match resolveModel node call with
    | .error message => .error message
    | .ok modelName =>
        match setInferProxyTarget env call.minerIp call.targetPort with
        | none => .error "Failed to set proxy target: invalid IP or port"
        | some target =>
            .ok
              { node with
                escrows := escrowsFor call env modelName node.escrows
                tokenRates := ratesFor call env node.escrows node.tokenRates
                proxyTarget := some target }

/-! ## The merge -/

/-- The copy has the id, the key and the progress of the record. -/
structure SameProgress (e u : SpendingLimit) : Prop where
  escrowId : u.escrowId = e.escrowId
  transferred : u.transferredTknc = e.transferredTknc
  consumed : u.consumedTknc = e.consumedTknc
  confirmed : u.confirmedTknc = e.confirmedTknc
  pending : u.pendingTxids = e.pendingTxids
  state : u.state = e.state
  lastActivity : u.lastActivity = e.lastActivity

theorem SameProgress.refl (e : SpendingLimit) : SameProgress e e :=
  ⟨rfl, rfl, rfl, rfl, rfl, rfl, rfl⟩

variable {e u : SpendingLimit}

theorem SameProgress.mergeFromPeer_eq (h : SameProgress e u) : mergeFromPeer e u = e := by
  simp only [mergeFromPeer, h.transferred, h.consumed, h.confirmed, h.pending, h.state,
    h.lastActivity, gt_iff_lt, lt_self_iff_false, ne_eq, not_true_eq_false, false_and, if_false]

theorem SameProgress.write_eq {db : Database} (h : SameProgress e u)
    (hget : db.get? ⟨e.escrowId⟩ = some e) : (writeSpendingLimitFromP2P db u).2 = db := by
  unfold writeSpendingLimitFromP2P
  split
  · rfl
  · simp only [h.escrowId, readSpendingLimit, hget, h.mergeFromPeer_eq, if_true]

section Update

variable (call : ProxyTargetCall) (env : Surroundings)

theorem sameProgress_fillMinerWallet {v : Update} (h : SameProgress e v.escrow) :
    SameProgress e (v.fillMinerWallet call env).escrow := by
  unfold Update.fillMinerWallet
  split
  · exact ⟨h.1, h.2, h.3, h.4, h.5, h.6, h.7⟩
  · exact h

theorem sameProgress_changeRates {v : Update} (h : SameProgress e v.escrow) :
    SameProgress e (v.changeRates env).escrow := by
  unfold Update.changeRates
  split
  · exact ⟨h.1, h.2, h.3, h.4, h.5, h.6, h.7⟩
  · exact h

theorem sameProgress_changeUserWallet {v : Update} (h : SameProgress e v.escrow) :
    SameProgress e (v.changeUserWallet call).escrow := by
  unfold Update.changeUserWallet
  split
  · exact ⟨h.1, h.2, h.3, h.4, h.5, h.6, h.7⟩
  · exact h

theorem sameProgress_updateFor (e : SpendingLimit) :
    SameProgress e (updateFor call env e).escrow :=
  sameProgress_changeUserWallet call
    (sameProgress_changeRates env (sameProgress_fillMinerWallet call env (SameProgress.refl e)))

end Update

/-! ## Choosing the same miner again -/

variable {node node' : ClientNode} {call : ProxyTargetCall} {env : Surroundings}

theorem get?_of_findSpendingLimit {db : Database} {apiKey : Bytes} (hkeyed : KeyedById db)
    (hfound : findSpendingLimitByAPIKey db apiKey = some e) :
    db.get? ⟨e.escrowId⟩ = some e := by
  obtain ⟨⟨k, e'⟩, hentry, rfl⟩ := Option.map_eq_some_iff.1 hfound
  have hmem := (findEntryByAPIKey_some hentry).1
  have hid : k = ⟨e'.escrowId⟩ := congrArg DbKey.mk (hkeyed _ hmem)
  exact OrderedMap.get?_eq_some_iff.2 (hid ▸ hmem)

theorem escrows_of_sameMiner (hkeyed : KeyedById node.escrows)
    (hfound : findSpendingLimitByAPIKey node.escrows call.apiKey = some e)
    (hsame : ¬ DifferentMiner env e) (hok : tkncSetinferproxytarget node call env = .ok node') :
    node'.escrows = node.escrows := by
  have hget := get?_of_findSpendingLimit hkeyed hfound
  have hescrows (modelName : Bytes) :
      escrowsFor call env modelName node.escrows = node.escrows := by
    simp only [escrowsFor, hfound, if_neg hsame]
    split
    · exact (sameProgress_updateFor call env e).write_eq hget
    · rfl
  unfold tkncSetinferproxytarget at hok
  split at hok
  · cases hok
  split at hok
  · cases hok
  split at hok
  · cases hok
  · cases hok
    exact hescrows _

/-- The stored record has the wallets of the call and the verified rate. -/
def TakesEffect (call : ProxyTargetCall) (env : Surroundings) (e : SpendingLimit)
    (node' : ClientNode) : Prop :=
  ∃ e', node'.escrows.get? ⟨e.escrowId⟩ = some e' ∧
    (call.userWallet ≠ [] → e'.userWallet = call.userWallet) ∧
    (e.minerWallet = [] → effectiveMinerWallet call env ≠ [] →
      e'.minerWallet = effectiveMinerWallet call env) ∧
    (env.verifiedTokensPerTknc > 0 →
      e'.rateTokensPerTknc = env.verifiedTokensPerTknc ∧
        e'.rateTkncPerToken = coin.tdiv env.verifiedTokensPerTknc)

/-- There is nothing to change in the record. -/
structure UpToDate (call : ProxyTargetCall) (env : Surroundings) (e : SpendingLimit) : Prop where
  userWallet : call.userWallet = [] ∨ e.userWallet = call.userWallet
  minerWallet : e.minerWallet ≠ [] ∨ effectiveMinerWallet call env = []
  rates : env.verifiedTokensPerTknc ≤ 0 ∨
    (e.rateTokensPerTknc = env.verifiedTokensPerTknc ∧
      e.rateTkncPerToken = coin.tdiv env.verifiedTokensPerTknc)

/-- A call for the same miner takes effect exactly if the record was up to date before. -/
theorem takesEffect_iff_upToDate (hkeyed : KeyedById node.escrows)
    (hfound : findSpendingLimitByAPIKey node.escrows call.apiKey = some e)
    (hsame : ¬ DifferentMiner env e) (hok : tkncSetinferproxytarget node call env = .ok node') :
    TakesEffect call env e node' ↔ UpToDate call env e := by
  rw [TakesEffect, escrows_of_sameMiner hkeyed hfound hsame hok,
    get?_of_findSpendingLimit hkeyed hfound]
  constructor
  · rintro ⟨e', heq, huser, hminer, hrates⟩
    cases heq
    refine ⟨?_, ?_, ?_⟩
    · by_cases hparam : call.userWallet = []
      · exact Or.inl hparam
      · exact Or.inr (huser hparam)
    · by_cases hempty : e.minerWallet = []
      · -- an empty wallet would have been filled in
        by_cases hknown : effectiveMinerWallet call env = []
        · exact Or.inr hknown
        · exact absurd (hempty.symm.trans (hminer hempty hknown)) (Ne.symm hknown)
      · exact Or.inl hempty
    · by_cases hrate : env.verifiedTokensPerTknc > 0
      · exact Or.inr (hrates hrate)
      · exact Or.inl (Int.not_lt.1 hrate)
  · rintro ⟨huser, hminer, hrates⟩
    refine ⟨e, rfl, ?_, ?_, ?_⟩
    · intro hparam
      exact huser.resolve_left hparam
    · intro hempty hknown
      exact absurd (hminer.resolve_left fun h => h hempty) hknown
    · intro hrate
      exact hrates.resolve_left (Int.not_le.2 hrate)

def targetCall (userWallet : Bytes) : ProxyTargetCall where
  minerIp := ascii "203.0.113.50"
  apiKey := ascii "tknc_00112233445566778899aabbccddeeff"
  modelName := []
  targetPort := 9313
  minerWallet := []
  userWallet := userWallet

def answeringMiner : Surroundings where
  hsResponse := ascii ("\x7b\"can_proceed\": true, \"tokens_per_tknc\": 10, " ++
    "\"miner_wallet\": \"tkn1miner\"\x7d")
  inetPton v6 ip := !v6 && ip = ascii "203.0.113.50"
  getTime := 1700000000
  suffix := ascii "0a1b2c3d"

def agreedEscrow : SpendingLimit :=
  { escrowId := ascii "escrow_1"
    apiKey := ascii "tknc_00112233445566778899aabbccddeeff"
    userWallet := ascii "tkn1user"
    minerWallet := ascii "tkn1miner"
    rateTokensPerTknc := 10
    rateTkncPerToken := 10000000 }

def clientNode : ClientNode where
  apiKeys _ := none
  escrows := writeSpendingLimit OrderedMap.empty ⟨ascii "escrow_1"⟩ agreedEscrow
  tokenRates := ⟨[], []⟩
  proxyTarget := none

theorem keyedById_clientNode : KeyedById clientNode.escrows := by
  rintro kv hmem
  cases List.mem_singleton.1 hmem
  rfl

theorem find_clientNode :
    findSpendingLimitByAPIKey clientNode.escrows (ascii "tknc_00112233445566778899aabbccddeeff") =
      some agreedEscrow := by
  decide

theorem not_differentMiner_answeringMiner : ¬ DifferentMiner answeringMiner agreedEscrow := by
  decide

/-- The wallet that is stored already. -/
theorem takesEffect_sameWallet :
    ∃ node', tkncSetinferproxytarget clientNode (targetCall (ascii "tkn1user")) answeringMiner =
        .ok node' ∧
      TakesEffect (targetCall (ascii "tkn1user")) answeringMiner agreedEscrow node' := by
  have hok : ∃ node', tkncSetinferproxytarget clientNode (targetCall (ascii "tkn1user"))
      answeringMiner = .ok node' := ⟨_, rfl⟩
  obtain ⟨node', hok⟩ := hok
  exact ⟨node', hok, (takesEffect_iff_upToDate keyedById_clientNode find_clientNode
    not_differentMiner_answeringMiner hok).2 ⟨by decide, by decide, by decide⟩⟩

/-- The call succeeds with another wallet of the user, and the record keeps the old one. -/
theorem not_takesEffect_newWallet :
    ∃ node' e', tkncSetinferproxytarget clientNode (targetCall (ascii "tkn1other"))
        answeringMiner = .ok node' ∧
      node'.escrows.get? ⟨agreedEscrow.escrowId⟩ = some e' ∧ e'.userWallet = ascii "tkn1user" ∧
      ¬ TakesEffect (targetCall (ascii "tkn1other")) answeringMiner agreedEscrow node' := by
  have hok : ∃ node', tkncSetinferproxytarget clientNode (targetCall (ascii "tkn1other"))
      answeringMiner = .ok node' := ⟨_, rfl⟩
  obtain ⟨node', hok⟩ := hok
  have hescrows := escrows_of_sameMiner keyedById_clientNode find_clientNode
    not_differentMiner_answeringMiner hok
  have hget := get?_of_findSpendingLimit keyedById_clientNode find_clientNode
  rw [← hescrows] at hget
  refine ⟨node', agreedEscrow, hok, hget, rfl, ?_⟩
  rintro ⟨e', hget', huser, _⟩
  cases hget.symm.trans hget'
  exact absurd (huser (by decide)) (by decide)

end TKNC.ApiKey
