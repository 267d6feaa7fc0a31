import TKNC.ApiKey.ApiKey
import TKNC.Escrow.Admission
import TKNC.Lib.EventMachine

/-!
# KeyGate — which keys get service

A gateway looks at the format of an API key and at the escrow records.  Neither the gate before an
inference nor the sync of records asks the key database, so a key that was never created or that was
revoked is served like any other.
-/

namespace TKNC.Escrow.KeyGate

open ApiKey Consensus Lib Lib.EventMachine Lib.MachineInt Lib.Numeral Wallet OrderedMap

def firstReceiveAddress (node : NodeContext) (w : CWallet) : Bytes :=
  ((w.addressBook.map fun entry =>
      if entry.isChange = false ∧ entry.purpose = some .receive then
        node.encodeDestination entry.dest
      else []).find? (· ≠ [])).getD []

def findUserWallet (node : NodeContext) : Bytes :=
  ((node.loaded.map (firstReceiveAddress node)).find? (· ≠ [])).getD []

def recordOnDemand (node : Node) (apiKey minerWallet userWallet modelName suffix : Bytes) :
    SpendingLimit :=
  let userWallet := if userWallet = [] then findUserWallet node.toNodeContext else userWallet
  let tokensPerTknc := getTokensPerTknc node.tokenRates minerWallet
  { escrowId := generateSpendingLimitID apiKey suffix
    apiKey := apiKey
    minerWallet := minerWallet
    userWallet := userWallet
    modelName := modelName
    totalTknc := 0
    consumedTknc := 0
    spendingLimit := 0
    quotaTokens := int64Max
    usedTokens := 0
    rateTokensPerTknc := if tokensPerTknc > 0 then tokensPerTknc else 0
    rateTkncPerToken := if tokensPerTknc > 0 then coin.tdiv tokensPerTknc else 0
    createdAt := node.getTime
    expiresAt := i64 (node.getTime + 90 * 86400)
    lastActivity := node.getTime
    state := .created }

def ensureEscrowForAPIKey (node : Node) (db : Database)
    (apiKey minerWallet userWallet modelName suffix : Bytes) : Bool × Database :=
  match findSpendingLimitByAPIKey db apiKey with
  | some _ => (true, db)
  | none =>
      if apiKey = [] then (false, db)
      else if validateAPIKeyFormat apiKey then
        writeSpendingLimitFromP2P db
          (recordOnDemand node apiKey minerWallet userWallet modelName suffix)
      else (false, db)

def gate (node : Node) (db : Database) (apiKey suffix : Bytes) : Except String Unit × Database :=
  canAffordInference node (ensureEscrowForAPIKey node db apiKey [] [] [] suffix).2 apiKey

/-! ## Requests -/

/-- What becomes of a request: it is refused with an error, it passes the gate, or it is let through
without it. -/
inductive Reply (ε : Type) where
  | refused (error : ε)
  | admitted
  | skipped

def Reply.isAdmitted {ε : Type} : Reply ε → Bool
  | .admitted => true
  | .refused _ | .skipped => false

def replyOf {ε : Type} (text : String → ε) : Except String Unit × Database → Reply ε × Database
  | (.ok (), db) => (.admitted, db)
  | (.error message, db) => (.refused (text message), db)

/-- A node with a gateway: the address of its miner, and the two secrets of the skip-billing
header. -/
structure Gateway extends Node where
  minerWalletAddress : Bytes
  skipBillingSecret : Bytes
  hmacSha256 : Bytes → Bytes → Bytes

structure HttpError where
  status : Nat
  message : String
  type : String
  deriving DecidableEq, Repr

structure ChatRequest where
  authorization : Option Bytes
  bodyApiKey : Option Bytes
  prompt : Bytes
  skipHeader : Option Bytes
  escrowIdHeader : Option Bytes

def ChatRequest.apiKey (r : ChatRequest) : Bytes :=
  let bearer :=
    match r.authorization with
    | some value =>
        if value.length > 7 ∧ value.take 7 = ascii "Bearer " then
          (value.drop 7).dropWhile (fun c => c = 32)
        else []
    | none => []
  if bearer = [] then r.bodyApiKey.getD [] else bearer

def computeSkipBillingSecret (gw : Gateway) (apiKey escrowId : Bytes) : Bytes :=
  if apiKey = [] ∨ escrowId = [] then []
  else ascii "tknc_proxy_" ++ gw.hmacSha256 escrowId apiKey

def skipBilling (gw : Gateway) (db : Database) (r : ChatRequest) : Bool :=
  match r.skipHeader with
  | none => false
  | some header =>
      if header = gw.skipBillingSecret then true
      else
        let escrowId :=
          match r.escrowIdHeader with
          | some escrowId => escrowId
          | none => ((findSpendingLimitByAPIKey db r.apiKey).map (·.escrowId)).getD []
        escrowId ≠ [] && header = computeSkipBillingSecret gw r.apiKey escrowId

def checkRequest (gw : Gateway) (db : Database) (r : ChatRequest) : Except HttpError Unit :=
  if r.apiKey = [] then
    .error ⟨401, "Missing API key. Provide Authorization: Bearer header or api_key in body.",
      "authentication_error"⟩
  else if validateAPIKeyFormat r.apiKey = false then
    .error ⟨401, "Invalid API key format. API keys must start with 'tknc_' followed by " ++
      "32 hex characters.", "authentication_error"⟩
  else if r.prompt = [] then
    .error ⟨400, "Messages array is empty or invalid", "invalid_request_error"⟩
  else
    match findSpendingLimitByAPIKey db r.apiKey with
    | some escrow =>
        if gw.minerWalletAddress ≠ [] ∧ escrow.minerWallet ≠ [] ∧
            escrow.minerWallet ≠ gw.minerWalletAddress then
          .error ⟨403, "This API key is not authorized for this miner. " ++
            "API keys are bound to a specific miner wallet.", "authorization_error"⟩
        else .ok ()
    | none => .ok ()

def balanceRefusal (message : String) : HttpError :=
  ⟨402, "Inference refused: " ++ message, "insufficient_balance"⟩

def handleChatCompletions (gw : Gateway) (db : Database) (r : ChatRequest) (suffix : Bytes) :
    Reply HttpError × Database :=
  match checkRequest gw db r with
  | .error error => (.refused error, db)
  | .ok () =>
      if skipBilling gw db r then (.skipped, db)
      else
        replyOf balanceRefusal (gate gw.toNode db r.apiKey suffix)

structure APIRequest where
  apiKey : Bytes
  model : Bytes
  modelHash : Bytes
  messages : List (Bytes × Bytes)

def validateAPIRequest (r : APIRequest) : Bool :=
  (r.apiKey = [] || validateAPIKeyFormat r.apiKey) &&
    r.model ≠ [] &&
    (r.modelHash = [] || (r.modelHash.length = 64 && r.modelHash.all (fun c => (hexValue c).isSome))) &&
    r.messages ≠ [] &&
    r.messages.all (fun message => message.1 ≠ [] && message.2 ≠ [])

def peerRefusal (message : String) : String :=
  "Error: Inference refused — " ++ message

def handleApiReq (node : Node) (db : Database) (r : APIRequest) (suffix : Bytes) :
    Reply String × Database :=
  if validateAPIRequest r then
    if r.apiKey ≠ [] then
      replyOf peerRefusal (gate node db r.apiKey suffix)
    else
      (.refused ("Error: API key required for inference. " ++
        "Generate one via tknc_createapikey."), db)
  else
    (.refused "Error: Invalid API key", db)

/-! ## Runs -/

structure ServiceState where
  apiKeys : ApiKeyDb
  escrows : Database

inductive Event where
  | createKey (args : CreateApiKeyArgs)
  | revokeKey (apiKey : Bytes)
  | apiKeySync (inbound : Bool) (keyData : APIKey)
  | escrowSync (inbound : Bool) (escrow : SpendingLimit)
  | chat (gw : Gateway) (request : ChatRequest) (suffix : Bytes)
  | apiReq (node : Node) (request : APIRequest) (suffix : Bytes)

def step (s : ServiceState) : Event → ServiceState
  | .createKey args =>
      match tkncCreateapikey s.apiKeys args with
      | .ok (_, apiKeys) => { s with apiKeys := apiKeys }
      | .error _ => s
  | .revokeKey apiKey =>
      match tkncRevokeapikey s.apiKeys apiKey with
      | .ok apiKeys => { s with apiKeys := apiKeys }
      | .error _ => s
  | .apiKeySync inbound keyData =>
      if inbound then s else { s with apiKeys := (writeAPIKeyFromP2P s.apiKeys keyData).2 }
  | .escrowSync inbound escrow =>
      if inbound then s else { s with escrows := (writeSpendingLimitFromP2P s.escrows escrow).2 }
  | .chat gw request suffix =>
      { s with escrows := (handleChatCompletions gw s.escrows request suffix).2 }
  | .apiReq node request suffix =>
      { s with escrows := (handleApiReq node s.escrows request suffix).2 }

def admittedKey (s : ServiceState) : Event → Option Bytes
  | .chat gw request suffix =>
      if (handleChatCompletions gw s.escrows request suffix).1.isAdmitted then some request.apiKey
      else none
  | .apiReq node request suffix =>
      if (handleApiReq node s.escrows request suffix).1.isAdmitted then some request.apiKey
      else none
  | _ => none

/-- Only a present and active key passes the gate, and a new record is only stored for one. -/
def OnlyActiveKeys (s : ServiceState) (event : Event) : Prop :=
  (∀ key, admittedKey s event = some key → isActiveKey s.apiKeys key = true) ∧
    ∀ k e, (step s event).escrows.get? k = some e → s.escrows.get? k = none →
      isActiveKey s.apiKeys e.apiKey = true

/-- The key is active, or the gate neither lets the request pass nor stores a record: the record of
the key is refused, or there is none and the id of the new one is taken. -/
def GateChecked (s : ServiceState) (node : Node) (apiKey suffix : Bytes) : Prop :=
  isActiveKey s.apiKeys apiKey = true ∨
    match findSpendingLimitByAPIKey s.escrows apiKey with
    | some e => ¬ Admissible node apiKey e
    | none => s.escrows.get? ⟨generateSpendingLimitID apiKey suffix⟩ ≠ none

/-- Every request that reaches the gate, and every record that is new, is for an active key. -/
def Checked (s : ServiceState) : Event → Prop
  | .chat gw request suffix =>
      checkRequest gw s.escrows request = .ok () → skipBilling gw s.escrows request = false →
        GateChecked s gw.toNode request.apiKey suffix
  | .apiReq node request suffix =>
      validateAPIRequest request = true → request.apiKey ≠ [] →
        GateChecked s node request.apiKey suffix
  | .escrowSync inbound escrow =>
      inbound = false → escrow.escrowId ≠ [] → escrow.apiKey ≠ [] →
        s.escrows.get? ⟨escrow.escrowId⟩ = none → isActiveKey s.apiKeys escrow.apiKey = true
  | .createKey _ | .revokeKey _ | .apiKeySync _ _ => True

/-! ## Keys of stored records -/

/-- The same ids are stored, each for the same key. -/
def SameKeys (db db' : Database) : Prop :=
  ∀ k, (db'.get? k).map (·.apiKey) = (db.get? k).map (·.apiKey)

section SameKeys

variable {db db' : Database} {apiKey : Bytes}

theorem SameKeys.stored (h : SameKeys db db') {k : DbKey} {e : SpendingLimit}
    (hget : db'.get? k = some e) : ∃ e', db.get? k = some e' ∧ e'.apiKey = e.apiKey := by
  have hk := h k
  rw [hget, Option.map_some] at hk
  exact Option.map_eq_some_iff.1 hk.symm

theorem SameKeys.select_none (h : SameKeys db db')
    (hnone : findSpendingLimitByAPIKey db apiKey = none) :
    findSpendingLimitByAPIKey db' apiKey = none := by
  rw [findSpendingLimitByAPIKey_eq_none_iff] at hnone ⊢
  intro k e hget
  rcases h.stored hget with ⟨e', hget', hkey⟩
  exact hkey ▸ hnone k e' hget'

theorem sameKeys_write {k : DbKey} {e e' : SpendingLimit} (hget : db.get? k = some e)
    (hkey : e'.apiKey = e.apiKey) : SameKeys db (writeSpendingLimit db k e') := by
  intro k'
  by_cases hk : k' = k
  · subst hk
    rw [writeSpendingLimit, get?_insert_self, hget, Option.map_some, Option.map_some, hkey]
  · rw [writeSpendingLimit, get?_insert_of_ne hk]

theorem sameKeys_admission (node : Node) (db : Database) (apiKey : Bytes) :
    SameKeys db (canAffordInference node db apiKey).2 := by
  unfold canAffordInference
  split
  · exact fun _ => rfl
  · rw [checks_db, writeBack]
    split
    · split
      · rename_i k e hfind
        exact sameKeys_write (get?_eq_some_iff.2 (List.mem_of_find?_eq_some hfind)) rfl
      · exact fun _ => rfl
    · exact fun _ => rfl

theorem SameKeys.trans {db'' : Database} (h : SameKeys db db') (h' : SameKeys db' db'') :
    SameKeys db db'' :=
  fun k => (h' k).trans (h k)

theorem sameKeys_sync {escrow : SpendingLimit} (h : db.get? ⟨escrow.escrowId⟩ ≠ none) :
    SameKeys db (writeSpendingLimitFromP2P db escrow).2 := by
  rcases Option.ne_none_iff_exists'.1 h with ⟨existing, hget⟩
  unfold writeSpendingLimitFromP2P
  split
  · exact fun _ => rfl
  · simp only [readSpendingLimit, hget]
    split
    · exact fun _ => rfl
    · exact sameKeys_write hget rfl

theorem sync_new {escrow : SpendingLimit} (hid : escrow.escrowId ≠ [])
    (hkey : escrow.apiKey ≠ []) (h : db.get? ⟨escrow.escrowId⟩ = none) :
    (writeSpendingLimitFromP2P db escrow).2 = db.insert ⟨escrow.escrowId⟩ escrow := by
  simp only [writeSpendingLimitFromP2P, readSpendingLimit, h, hid, hkey, or_self, if_false]
  rfl

end SameKeys

/-! ## The gate -/

section Gate

variable {node : Node} {db : Database} {apiKey suffix : Bytes}

theorem generateSpendingLimitID_ne_nil (sourceId suffix : Bytes) :
    generateSpendingLimitID sourceId suffix ≠ [] := by
  simp [generateSpendingLimitID, ascii]

theorem gate_selected {e : SpendingLimit} (h : findSpendingLimitByAPIKey db apiKey = some e) :
    gate node db apiKey suffix = canAffordInference node db apiKey := by
  simp only [gate, ensureEscrowForAPIKey, h]

theorem gate_unselected (hformat : validateAPIKeyFormat apiKey = true)
    (h : findSpendingLimitByAPIKey db apiKey = none) :
    gate node db apiKey suffix =
      canAffordInference node
        (writeSpendingLimitFromP2P db (recordOnDemand node apiKey [] [] [] suffix)).2 apiKey := by
  have hne : apiKey ≠ [] := by
    rintro rfl
    exact absurd hformat (by decide)
  simp only [gate, ensureEscrowForAPIKey, h, if_neg hne, if_pos hformat]

/-- With a record of the key, or with a record of another key under the new id, the gate stores
nothing new. -/
theorem sameKeys_gate (hformat : validateAPIKeyFormat apiKey = true)
    (h : findSpendingLimitByAPIKey db apiKey = none →
      db.get? ⟨generateSpendingLimitID apiKey suffix⟩ ≠ none) :
    SameKeys db (gate node db apiKey suffix).2 := by
  cases hselect : findSpendingLimitByAPIKey db apiKey with
  | some e =>
    rw [gate_selected hselect]
    exact sameKeys_admission node db apiKey
  | none =>
    rw [gate_unselected hformat hselect]
    have hsync : SameKeys db
        (writeSpendingLimitFromP2P db (recordOnDemand node apiKey [] [] [] suffix)).2 :=
      sameKeys_sync (h hselect)
    exact hsync.trans (sameKeys_admission node _ apiKey)

variable (node) in
theorem gate_creates (hformat : validateAPIKeyFormat apiKey = true)
    (hselect : findSpendingLimitByAPIKey db apiKey = none)
    (hfree : db.get? ⟨generateSpendingLimitID apiKey suffix⟩ = none) :
    SameKeys
      (db.insert ⟨generateSpendingLimitID apiKey suffix⟩
        (recordOnDemand node apiKey [] [] [] suffix))
      (gate node db apiKey suffix).2 := by
  have hne : apiKey ≠ [] := by
    rintro rfl
    exact absurd hformat (by decide)
  have hnew : (writeSpendingLimitFromP2P db (recordOnDemand node apiKey [] [] [] suffix)).2 =
      db.insert ⟨generateSpendingLimitID apiKey suffix⟩
        (recordOnDemand node apiKey [] [] [] suffix) :=
    sync_new (generateSpendingLimitID_ne_nil _ _) hne hfree
  rw [gate_unselected hformat hselect, hnew]
  exact sameKeys_admission node _ apiKey

theorem apiKey_of_gate (hformat : validateAPIKeyFormat apiKey = true) {k : DbKey}
    {e : SpendingLimit} (hget : (gate node db apiKey suffix).2.get? k = some e)
    (hnew : db.get? k = none) : e.apiKey = apiKey := by
  by_cases hstored : findSpendingLimitByAPIKey db apiKey = none →
      db.get? ⟨generateSpendingLimitID apiKey suffix⟩ ≠ none
  · rcases (sameKeys_gate hformat hstored).stored hget with ⟨e', hget', _⟩
    cases hget'.symm.trans hnew
  · push Not at hstored
    rcases (gate_creates node hformat hstored.1 hstored.2).stored hget with ⟨e', hget', hkey⟩
    by_cases hk : k = ⟨generateSpendingLimitID apiKey suffix⟩
    · subst hk
      rw [get?_insert_self] at hget'
      cases hget'
      exact hkey.symm
    · rw [get?_insert_of_ne hk] at hget'
      cases hget'.symm.trans hnew

/-- The gate keeps to active keys exactly if the key is active, or the record it finds is refused,
or it can store none. -/
theorem gate_onlyActive_iff (s : ServiceState) (hformat : validateAPIKeyFormat apiKey = true) :
    (((gate node s.escrows apiKey suffix).1 = .ok () → isActiveKey s.apiKeys apiKey = true) ∧
        ∀ k e, (gate node s.escrows apiKey suffix).2.get? k = some e → s.escrows.get? k = none →
          isActiveKey s.apiKeys e.apiKey = true) ↔
      GateChecked s node apiKey suffix := by
  by_cases hactive : isActiveKey s.apiKeys apiKey = true
  · refine iff_of_true ⟨fun _ => hactive, ?_⟩ (Or.inl hactive)
    intro k e hget hnew
    exact apiKey_of_gate hformat hget hnew ▸ hactive
  · rw [GateChecked, or_iff_right hactive]
    -- nothing may pass and nothing may be stored
    cases hselect : findSpendingLimitByAPIKey s.escrows apiKey with
    | some e =>
      have hsame : SameKeys s.escrows (gate node s.escrows apiKey suffix).2 :=
        sameKeys_gate hformat (by simp [hselect])
      have hok : (gate node s.escrows apiKey suffix).1 = .ok () ↔ Admissible node apiKey e := by
        rw [gate_selected hselect, canAffordInference_ok_iff]
        simp [hselect]
      rw [hok]
      constructor
      · intro h hadmissible
        exact hactive (h.1 hadmissible)
      · intro h
        refine ⟨fun hadmissible => absurd hadmissible h, ?_⟩
        intro k e' hget hnew
        rcases hsame.stored hget with ⟨_, hget', _⟩
        cases hget'.symm.trans hnew
    | none =>
      constructor
      · intro h hfree
        have hcreated := gate_creates node hformat hselect hfree
          ⟨generateSpendingLimitID apiKey suffix⟩
        rw [get?_insert_self, Option.map_some] at hcreated
        rcases Option.map_eq_some_iff.1 hcreated with ⟨e, hget, hkey⟩
        have hnew := h.2 _ e hget hfree
        rw [hkey] at hnew
        exact hactive hnew
      · intro htaken
        have hsame : SameKeys s.escrows (gate node s.escrows apiKey suffix).2 :=
          sameKeys_gate hformat fun _ => htaken
        refine ⟨?_, ?_⟩
        · intro hok
          rw [gate_unselected hformat hselect, canAffordInference_ok_iff] at hok
          rcases hok with ⟨e, hfound, _⟩
          rw [(sameKeys_sync htaken).select_none hselect] at hfound
          cases hfound
        · intro k e' hget hnew
          rcases hsame.stored hget with ⟨_, hget', _⟩
          cases hget'.symm.trans hnew

end Gate

/-! ## Steps -/

theorem replyOf_spec {ε : Type} (text : String → ε) (result : Except String Unit × Database) :
    (replyOf text result).2 = result.2 ∧
      ((replyOf text result).1.isAdmitted = true ↔ result.1 = .ok ()) := by
  rcases result with ⟨_ | _, _⟩
  · exact ⟨rfl, iff_of_false nofun nofun⟩
  · exact ⟨rfl, iff_of_true rfl rfl⟩

theorem validate_of_checkRequest {gw : Gateway} {db : Database} {r : ChatRequest}
    (h : checkRequest gw db r = .ok ()) : validateAPIKeyFormat r.apiKey = true := by
  unfold checkRequest at h
  split at h
  · cases h
  · split at h
    · cases h
    · rename_i hformat
      simpa using hformat

theorem validate_of_validateAPIRequest {r : APIRequest} (h : validateAPIRequest r = true)
    (hne : r.apiKey ≠ []) : validateAPIKeyFormat r.apiKey = true := by
  simp only [validateAPIRequest, Bool.and_eq_true, Bool.or_eq_true, decide_eq_true_eq] at h
  exact h.1.1.1.1.resolve_left hne

variable {s : ServiceState} {event : Event}

theorem onlyActiveKeys_of_idle (hnobody : admittedKey s event = none)
    (hsame : (step s event).escrows = s.escrows) :
    OnlyActiveKeys s event := by
  refine ⟨?_, ?_⟩
  · intro key hkey
    cases hnobody.symm.trans hkey
  · intro k e hget hnew
    rw [hsame] at hget
    cases hget.symm.trans hnew

theorem onlyActiveKeys_gate_iff {ε : Type} (text : String → ε) {node : Node} {apiKey suffix : Bytes}
    (hkey : admittedKey s event =
      if (replyOf text (gate node s.escrows apiKey suffix)).1.isAdmitted then some apiKey else none)
    (hdb : (step s event).escrows = (replyOf text (gate node s.escrows apiKey suffix)).2)
    (hformat : validateAPIKeyFormat apiKey = true) :
    OnlyActiveKeys s event ↔ GateChecked s node apiKey suffix := by
  rcases replyOf_spec text (gate node s.escrows apiKey suffix) with ⟨hdb', hadmitted⟩
  rw [← gate_onlyActive_iff s hformat, OnlyActiveKeys, hkey, hdb, hdb', ← hadmitted]
  apply and_congr_left
  intro _
  by_cases h : (replyOf text (gate node s.escrows apiKey suffix)).1.isAdmitted = true <;> simp [h]

theorem onlyActiveKeys_chat_iff (s : ServiceState) (gw : Gateway) (r : ChatRequest) (suffix : Bytes)
    :
    OnlyActiveKeys s (.chat gw r suffix) ↔ Checked s (.chat gw r suffix) := by
  cases hcheck : checkRequest gw s.escrows r with
  | error error =>
    refine iff_of_true (onlyActiveKeys_of_idle ?_ ?_) ?_
    · simp [admittedKey, handleChatCompletions, hcheck, Reply.isAdmitted]
    · simp [step, handleChatCompletions, hcheck]
    · simp [Checked, hcheck]
  | ok value =>
    cases hskip : skipBilling gw s.escrows r with
    | true =>
      refine iff_of_true (onlyActiveKeys_of_idle ?_ ?_) ?_
      · simp [admittedKey, handleChatCompletions, hcheck, hskip, Reply.isAdmitted]
      · simp [step, handleChatCompletions, hcheck, hskip]
      · simp [Checked, hskip]
    | false =>
      have hchecked : Checked s (.chat gw r suffix) ↔
          GateChecked s gw.toNode r.apiKey suffix := by
        simp [Checked, hcheck, hskip]
      have hcall : handleChatCompletions gw s.escrows r suffix =
          replyOf balanceRefusal (gate gw.toNode s.escrows r.apiKey suffix) := by
        simp [handleChatCompletions, hcheck, hskip]
      rw [hchecked]
      apply onlyActiveKeys_gate_iff balanceRefusal _ _ (validate_of_checkRequest hcheck)
      · rw [admittedKey, hcall]
      · rw [step, hcall]

theorem onlyActiveKeys_apiReq_iff (s : ServiceState) (node : Node) (r : APIRequest) (suffix : Bytes)
    :
    OnlyActiveKeys s (.apiReq node r suffix) ↔ Checked s (.apiReq node r suffix) := by
  cases hvalid : validateAPIRequest r with
  | false =>
    refine iff_of_true (onlyActiveKeys_of_idle ?_ ?_) ?_
    · simp [admittedKey, handleApiReq, hvalid, Reply.isAdmitted]
    · simp [step, handleApiReq, hvalid]
    · simp [Checked, hvalid]
  | true =>
    by_cases hkey : r.apiKey = []
    · refine iff_of_true (onlyActiveKeys_of_idle ?_ ?_) ?_
      · simp [admittedKey, handleApiReq, hvalid, hkey, Reply.isAdmitted]
      · simp [step, handleApiReq, hvalid, hkey]
      · simp [Checked, hkey]
    · have hchecked : Checked s (.apiReq node r suffix) ↔
          GateChecked s node r.apiKey suffix := by
        simp [Checked, hvalid, hkey]
      have hcall : handleApiReq node s.escrows r suffix =
          replyOf peerRefusal (gate node s.escrows r.apiKey suffix) := by
        simp [handleApiReq, hvalid, hkey]
      rw [hchecked]
      apply onlyActiveKeys_gate_iff peerRefusal _ _ (validate_of_validateAPIRequest hvalid hkey)
      · rw [admittedKey, hcall]
      · rw [step, hcall]

theorem onlyActiveKeys_escrowSync_iff (s : ServiceState) (inbound : Bool) (escrow : SpendingLimit) :
    OnlyActiveKeys s (.escrowSync inbound escrow) ↔ Checked s (.escrowSync inbound escrow) := by
  cases inbound with
  | true => exact iff_of_true (onlyActiveKeys_of_idle rfl rfl) (by simp [Checked])
  | false =>
    have hdb : (step s (.escrowSync false escrow)).escrows =
        (writeSpendingLimitFromP2P s.escrows escrow).2 := rfl
    by_cases hdropped : escrow.escrowId = [] ∨ escrow.apiKey = []
    · refine iff_of_true (onlyActiveKeys_of_idle rfl ?_) ?_
      · rw [hdb, writeSpendingLimitFromP2P, if_pos hdropped]
      · intro _ hid hkey
        exact absurd hdropped (not_or.2 ⟨hid, hkey⟩)
    · rw [not_or] at hdropped
      cases hstored : s.escrows.get? ⟨escrow.escrowId⟩ with
      | some existing =>
        -- a message for a stored id adds no record
        have hsame : SameKeys s.escrows (writeSpendingLimitFromP2P s.escrows escrow).2 :=
          sameKeys_sync (by simp [hstored])
        refine iff_of_true ⟨nofun, ?_⟩ ?_
        · intro k e hget hnew
          rw [hdb] at hget
          rcases hsame.stored hget with ⟨_, hget', _⟩
          cases hget'.symm.trans hnew
        · simp [Checked, hstored]
      | none =>
        have hnew := sync_new hdropped.1 hdropped.2 hstored
        have hchecked : Checked s (.escrowSync false escrow) ↔
            isActiveKey s.apiKeys escrow.apiKey = true := by
          simp [Checked, hdropped.1, hdropped.2, hstored]
        rw [hchecked, OnlyActiveKeys, hdb, hnew]
        constructor
        · intro h
          exact h.2 _ _ (get?_insert_self _ _ _) hstored
        · intro hactive
          refine ⟨nofun, ?_⟩
          intro k e hget hfree
          by_cases hk : k = ⟨escrow.escrowId⟩
          · subst hk
            rw [get?_insert_self] at hget
            cases hget
            exact hactive
          · rw [get?_insert_of_ne hk] at hget
            cases hget.symm.trans hfree

theorem onlyActiveKeys_iff_checked (s : ServiceState) (event : Event) :
    OnlyActiveKeys s event ↔ Checked s event := by
  cases event with
  | createKey args =>
    refine iff_of_true (onlyActiveKeys_of_idle rfl ?_) trivial
    rw [step]
    split <;> rfl
  | revokeKey apiKey =>
    refine iff_of_true (onlyActiveKeys_of_idle rfl ?_) trivial
    rw [step]
    split <;> rfl
  | apiKeySync inbound keyData =>
    refine iff_of_true (onlyActiveKeys_of_idle rfl ?_) trivial
    rw [step]
    split <;> rfl
  | escrowSync inbound escrow => exact onlyActiveKeys_escrowSync_iff s inbound escrow
  | chat gw request suffix => exact onlyActiveKeys_chat_iff s gw request suffix
  | apiReq node request suffix => exact onlyActiveKeys_apiReq_iff s node request suffix

/-! ## Revoked keys -/

/-- The event creates a key with the same random bytes. -/
def Draws (key : Bytes) : Event → Prop
  | .createKey args => generateAPIKey args.random = key
  | _ => False

/-- The key is present and not active. -/
def Revoked (key : Bytes) (s : ServiceState) : Prop :=
  ∃ keyData, s.apiKeys key = some keyData ∧ keyData.active = false

theorem revoked_step {key : Bytes} (h : Revoked key s) (hdraws : ¬ Draws key event) :
    Revoked key (step s event) := by
  rcases h with ⟨keyData, hget, hinactive⟩
  cases event with
  | createKey args =>
    rw [step]
    split
    · rename_i hcreated
      exact ⟨keyData, ((created_spec hcreated).2 key (Ne.symm hdraws)).trans hget, hinactive⟩
    · exact ⟨keyData, hget, hinactive⟩
  | revokeKey apiKey =>
    rw [step]
    split
    · rename_i apiKeys hrevoked
      by_cases hkey : key = apiKey
      · subst hkey
        exact (revoked_spec hrevoked).1
      · exact ⟨keyData, ((revoked_spec hrevoked).2 key hkey).trans hget, hinactive⟩
    · exact ⟨keyData, hget, hinactive⟩
  | apiKeySync inbound keyData' =>
    rw [step]
    split
    · exact ⟨keyData, hget, hinactive⟩
    · exact ⟨keyData, get_writeAPIKeyFromP2P hget keyData', hinactive⟩
  | escrowSync inbound escrow =>
    rw [step]
    split <;> exact ⟨keyData, hget, hinactive⟩
  | chat gw request suffix => exact ⟨keyData, hget, hinactive⟩
  | apiReq node request suffix => exact ⟨keyData, hget, hinactive⟩

/-- A revoked key stays revoked, unless the same random bytes are drawn again. -/
theorem isActiveKey_run_of_revoked {key : Bytes} {events : List Event} (h : Revoked key s)
    (hrun : GoodRun step (fun _ event => ¬ Draws key event) s events) :
    isActiveKey (run step s events).apiKeys key = false := by
  have hlast : Revoked key (run step s events) :=
    hrun.invariant (fun _ _ h hdraws => revoked_step h hdraws) h
  rcases hlast with ⟨keyData, hget, hinactive⟩
  simp [isActiveKey, readAPIKey, hget, hinactive]

/-- A run serves active keys only exactly if every step of it is checked. -/
theorem onlyActiveKeys_run_iff (s : ServiceState) (events : List Event) :
    GoodRun step OnlyActiveKeys s events ↔ GoodRun step Checked s events :=
  GoodRun.congr onlyActiveKeys_iff_checked s events

def fundedGateway : Gateway :=
  { NodeContext.ofWallets [{ CWallet.owning [ascii "user"] with mineTrusted := 500000000 }] with
    tokenRates := ⟨[], []⟩
    pendingCosts := fun _ => 0
    minerWalletAddress := []
    skipBillingSecret := ascii "secret"
    hmacSha256 := fun _ _ => [] }

def someKey : Bytes := generateAPIKey 1

def revokedRun : List Event :=
  [.createKey ⟨0, none, none, 1, 0⟩, .revokeKey someKey]

def revokedRequest : Event :=
  .chat fundedGateway ⟨some (ascii "Bearer " ++ someKey), none, ascii "hi", none, none⟩ (ascii "1")

def emptyState : ServiceState :=
  { apiKeys := fun _ => none
    escrows := OrderedMap.empty }

theorem isActiveKey_revoked_recreated :
    isActiveKey (run step (run step emptyState revokedRun)
      [.createKey ⟨0, none, none, 2, 0⟩]).apiKeys someKey = false :=
  isActiveKey_run_of_revoked ⟨_, rfl, rfl⟩ ⟨show generateAPIKey 2 ≠ someKey by decide, trivial⟩

theorem not_onlyActiveKeys_revoked :
    isActiveKey (run step emptyState revokedRun).apiKeys someKey = false ∧
      admittedKey (run step emptyState revokedRun) revokedRequest = some someKey ∧
      ¬ GoodRun step OnlyActiveKeys emptyState (revokedRun ++ [revokedRequest]) := by
  have hrevoked : isActiveKey (run step emptyState revokedRun).apiKeys someKey = false := by decide
  have hadmitted : admittedKey (run step emptyState revokedRun) revokedRequest = some someKey := by
    decide
  refine ⟨hrevoked, hadmitted, ?_⟩
  rintro ⟨_, _, honly, _⟩
  have hactive := honly.1 someKey hadmitted
  exact absurd (hrevoked.symm.trans hactive) (by decide)

end TKNC.Escrow.KeyGate
