import TKNC.Escrow.KeyGate
import TKNC.Escrow.MinerGate
import TKNC.Gateway.Http

/-!
# EntryPoints — inference over peer connections and over WebSocket

`ProcessInferenceRequest` serves a peer from the local miner, or from an engine in the node when the
miner does not answer; the WebSocket endpoint of the miner serves every text frame from its engine.
Both write a log of what they send and charge.  The result says for which requests every text that
is sent stands between an admission and a charge.
-/

namespace TKNC.Net

open ApiKey Escrow Escrow.KeyGate
open Gateway (hasErrorMarker)
open Lib.MachineInt Lib.Numeral List

inductive Effect where
  /-- `CanAffordInference` has let the key pass. -/
  | afforded (apiKey : Bytes)
  | token (text : Bytes) (index : Nat)
  | done (fullResponse : Bytes) (totalTokens : Int)
  | error (code : Int) (message : String)
  /-- A WebSocket frame with a token of the engine, or with a text of the endpoint. -/
  | tokenFrame (text : Bytes)
  | frame (data : Bytes)
  | charge (c : Gateway.Charge)

def Effect.text : Effect → Bytes
  | .token text _ => text
  | .done fullResponse _ => fullResponse
  | .tokenFrame text => text
  | _ => []

/-- Every text that is sent has an admission of the key before it and a charge for the tokens behind
it. -/
def Billed (apiKey : Bytes) (tokens : Int) (log : List Effect) : Prop :=
  ∀ before e after, log = before ++ e :: after → e.text ≠ [] →
    .afforded apiKey ∈ before ∧
      (.charge (.checkAndDeductEscrow apiKey tokens) ∈ after ∨
        .charge (.trackMinerServedTokens apiKey tokens) ∈ after)

/-! ## Peers -/

structure InferenceResult where
  success : Bool
  content : Bytes
  tokensUsed : Int

/-- A run of the engine in the node: it is not there, or it emits tokens and ends, possibly with an
error. -/
inductive EngineRun where
  | noModel
  | initFailed
  | ran (tokens : List Bytes) (error : Option String)

structure PeerContext where
  rateLimited : Bool
  node : Node
  db : Database
  served : ServedMap
  suffix : Bytes
  miner : InferenceResult
  engine : EngineRun

def peerAdmission (ctx : PeerContext) (apiKey : Bytes) : List Effect × Bool :=
  if ctx.rateLimited then
    ([.error 429 "Rate limit exceeded. Please try again later."], false)
  else if validateAPIKeyFormat apiKey = false then ([.error 401 "Invalid API key format"], false)
  else
    match gate ctx.node ctx.db apiKey ctx.suffix with
    | (.error message, _) => ([.error 402 ("Inference refused: " ++ message)], false)
    | (.ok (), db) =>
        match checkMinerReceivedPayment ctx.node.toNodeContext db ctx.served apiKey [] with
        | .error message =>
            ([.afforded apiKey, .error 402 ("Inference refused: " ++ message)], false)
        | .ok () => ([.afforded apiKey], true)

def totalTokens (result : InferenceResult) : Int :=
  let tokens := wrap 32 result.tokensUsed
  let tokens :=
    -- four bytes a token
    if tokens ≤ 0 ∧ result.content ≠ [] then wrap 32 (result.content.length / 4 : Nat) else tokens
  if tokens < 1 then 1 else tokens

def serveFromMiner (apiKey : Bytes) (result : InferenceResult) : List Effect :=
  let total := totalTokens result
  let minerError := result.content = [] || hasErrorMarker result.content
  [.token result.content 0, .done result.content total] ++
    (if apiKey ≠ [] ∧ total > 0 ∧ minerError = false then
      [.charge (.trackMinerServedTokens apiKey total),
        .charge (.checkAndDeductEscrow apiKey total)]
    else [])

def serveFromEngine : EngineRun → List Effect
  | .noModel =>
      [.error 500 "No LLM model found. Place a .gguf file in the models/ directory."]
  | .initFailed =>
      [.error 503 ("GPU inference failed. CPU mode is not supported. Ensure NVIDIA/AMD GPU " ++
        "drivers and DLLs are installed.")]
  | .ran tokens error =>
      tokens.mapIdx (fun index text => .token text index) ++
        match error with
        | none => [.done tokens.flatten tokens.length]
        | some message => [.error 500 (if message = "" then "Inference failed" else message)]

def processInferenceRequest (ctx : PeerContext) (apiKey : Bytes) : List Effect :=
  (peerAdmission ctx apiKey).1 ++
    if (peerAdmission ctx apiKey).2 then
      if ctx.miner.success then serveFromMiner apiKey ctx.miner else serveFromEngine ctx.engine
    else []

/-- The endpoint: the JSON reader gives key and contents of a chat request, the engine the tokens
for a prompt. -/
structure ChatServer where
  readChat : Bytes → Option (Bytes × List Bytes)
  generate : Bytes → List Bytes

def textFrame (text : Bytes) : Bytes :=
  129 :: UInt8.ofNat text.length :: text

def chatTokens (server : ChatServer) (payload : Bytes) : List Bytes :=
  match server.readChat payload with
  | some (apiKey, contents) =>
      if contents.flatten ≠ [] ∧ apiKey ≠ [] then server.generate contents.flatten else []
  | none => []

def handleTextFrame (server : ChatServer) (payload : Bytes) : List Effect :=
  match server.readChat payload with
  | none => []
  | some (apiKey, contents) =>
      let prompt := contents.flatten
      if prompt = [] then []
      -- the key is not looked up: any text will do
      else if apiKey ≠ [] then
        (server.generate prompt).map .tokenFrame ++
          [.frame (textFrame (ascii "\x7b\"type\":\"done\",\"status\":\"complete\"\x7d"))]
      else
        [.frame (textFrame
          (ascii "\x7b\"type\":\"error\",\"message\":\"Invalid key or balance\"\x7d"))]

/-! ## Requests -/

inductive InferenceRequest where
  | peer (ctx : PeerContext) (apiKey : Bytes)
  | webSocket (server : ChatServer) (payload : Bytes)

def InferenceRequest.apiKey : InferenceRequest → Bytes
  | .peer _ apiKey => apiKey
  | .webSocket server payload => ((server.readChat payload).map Prod.fst).getD []

def InferenceRequest.effects : InferenceRequest → List Effect
  | .peer ctx apiKey => processInferenceRequest ctx apiKey
  | .webSocket server payload => handleTextFrame server payload

def EngineRun.tokens : EngineRun → List Bytes
  | .ran tokens _ => tokens
  | _ => []

/-- The number of tokens that the requester gets: the count that comes with the answer of the miner,
or what an engine emits. -/
def InferenceRequest.deliveredTokens : InferenceRequest → Int
  | .peer ctx _ => if ctx.miner.success then ctx.miner.tokensUsed else ctx.engine.tokens.length
  | .webSocket server payload => (chatTokens server payload).length

/-- Text comes from the local miner, without a marker and with a count that is a positive `int`, or
there is none. -/
def InferenceRequest.Settles : InferenceRequest → Prop
  | .peer ctx apiKey =>
      (peerAdmission ctx apiKey).2 = true →
        if ctx.miner.success then
          ctx.miner.content = [] ∨
            (hasErrorMarker ctx.miner.content = false ∧
              0 < ctx.miner.tokensUsed ∧ ctx.miner.tokensUsed < 2147483648)
        else ctx.engine.tokens.flatten = []
  | .webSocket server payload => (chatTokens server payload).flatten = []

variable {apiKey : Bytes}

theorem billed_of_silent {tokens : Int} {log : List Effect} (h : ∀ e ∈ log, e.text = []) :
    Billed apiKey tokens log := by
  rintro before e after rfl htext
  exact absurd (h e (mem_append_right before (mem_cons_self ..))) htext

theorem billed_iff_of_no_charge {tokens : Int} {log : List Effect} (h : ∀ c, .charge c ∉ log) :
    Billed apiKey tokens log ↔ ∀ e ∈ log, e.text = [] := by
  refine ⟨fun hbilled e he => ?_, billed_of_silent⟩
  by_contra htext
  rcases append_of_mem he with ⟨before, after, rfl⟩
  have hmem (c : Gateway.Charge) (hc : .charge c ∈ after) : False :=
    h c (mem_append_right before (mem_cons_of_mem e hc))
  rcases (hbilled before e after rfl htext).2 with hcharge | hcharge
  · exact hmem _ hcharge
  · exact hmem _ hcharge

theorem mem_around {α : Type*} {first middle last before after : List α} {e : α}
    (h : first ++ middle ++ last = before ++ e :: after) (hfirst : e ∉ first) (hlast : e ∉ last) :
    (∀ x ∈ first, x ∈ before) ∧ (∀ x ∈ last, x ∈ after) := by
  constructor
  · rw [append_assoc] at h
    rcases append_eq_append_iff.1 h with ⟨rest, rfl, _⟩ | ⟨rest, rfl, hrest⟩
    · intro x hx
      exact mem_append_left _ hx
    · cases rest with
      | nil =>
        intro x hx
        simpa using hx
      | cons y rest =>
        cases hrest
        exact absurd (mem_append_right _ (mem_cons_self ..)) hfirst
  · rcases append_eq_append_iff.1 h with ⟨rest, hrest, hafter⟩ | ⟨rest, hrest, hafter⟩
    · exact absurd (hafter ▸ mem_append_right rest (mem_cons_self ..)) hlast
    · cases rest with
      | nil =>
        cases hafter
        exact absurd (mem_cons_self ..) hlast
      | cons y rest =>
        cases hafter
        intro x hx
        exact mem_append_right rest hx

theorem peerAdmission_of_true {ctx : PeerContext} (h : (peerAdmission ctx apiKey).2 = true) :
    validateAPIKeyFormat apiKey = true ∧ (peerAdmission ctx apiKey).1 = [.afforded apiKey] := by
  unfold peerAdmission at h ⊢
  split at h
  · cases h
  split at h
  · cases h
  rename_i hlimit hformat
  rw [if_neg hlimit, if_neg hformat]
  refine ⟨Bool.not_eq_false _ ▸ hformat, ?_⟩
  split at h
  · cases h
  · split at h
    · cases h
    · rfl

open Effect

theorem peerAdmission_silent (ctx : PeerContext) (apiKey : Bytes) :
    ∀ e ∈ (peerAdmission ctx apiKey).1, e.text = [] := by
  unfold peerAdmission
  split
  · simp [text]
  split
  · simp [text]
  split
  · simp [text]
  · split <;> simp [text]

theorem one_le_totalTokens (result : InferenceResult) : 1 ≤ totalTokens result := by
  unfold totalTokens
  dsimp only
  split <;> omega

/-- A count that is missing is estimated, and one that is too large for an `int` is cut. -/
theorem totalTokens_eq_tokensUsed_iff {result : InferenceResult} (h : result.content ≠ []) :
    totalTokens result = result.tokensUsed ↔
      0 < result.tokensUsed ∧ result.tokensUsed < 2147483648 := by
  have hcut := wrap32_eq result.tokensUsed
  have hestimate := wrap32_eq (result.content.length / 4 : Nat)
  simp only [totalTokens, h, ne_eq, not_false_eq_true, and_true]
  split_ifs <;> omega

theorem billed_miner_iff (hkey : apiKey ≠ []) (result : InferenceResult) :
    Billed apiKey result.tokensUsed ([.afforded apiKey] ++ serveFromMiner apiKey result) ↔
      result.content = [] ∨ (hasErrorMarker result.content = false ∧
        0 < result.tokensUsed ∧ result.tokensUsed < 2147483648) := by
  by_cases hcontent : result.content = []
  · -- an empty answer is no text
    refine iff_of_true ?_ (Or.inl hcontent)
    rw [billed_iff_of_no_charge (by simp [serveFromMiner, hcontent])]
    simp [serveFromMiner, hcontent, text]
  rw [or_iff_right hcontent]
  cases hmarker : hasErrorMarker result.content with
  | true =>
    rw [billed_iff_of_no_charge (by simp [serveFromMiner, hmarker])]
    simp [serveFromMiner, hcontent, text]
  | false =>
    rw [and_iff_right rfl, ← totalTokens_eq_tokensUsed_iff hcontent]
    have htotal : totalTokens result > 0 := one_le_totalTokens result
    have hlog : [afforded apiKey] ++ serveFromMiner apiKey result =
        [.afforded apiKey] ++
          [.token result.content 0, .done result.content (totalTokens result)] ++
          [.charge (.trackMinerServedTokens apiKey (totalTokens result)),
            .charge (.checkAndDeductEscrow apiKey (totalTokens result))] := by
      simp [serveFromMiner, hkey, htotal, hcontent, hmarker]
    rw [hlog]
    constructor
    · -- the charges behind the text are for the total
      intro hbilled
      have hcharged := (hbilled [.afforded apiKey] (.token result.content 0)
        [.done result.content (totalTokens result),
          .charge (.trackMinerServedTokens apiKey (totalTokens result)),
          .charge (.checkAndDeductEscrow apiKey (totalTokens result))] rfl hcontent).2
      simpa [eq_comm] using hcharged
    · intro hcount before e after hsplit htext
      have hfirst : e ∉ [afforded apiKey] := by
        rintro hmem
        cases mem_singleton.1 hmem
        exact htext rfl
      have hlast : e ∉ [charge (.trackMinerServedTokens apiKey (totalTokens result)),
          .charge (.checkAndDeductEscrow apiKey (totalTokens result))] := by
        intro hmem
        rcases mem_pair.1 hmem with rfl | rfl <;> exact htext rfl
      have haround := mem_around hsplit hfirst hlast
      rw [← hcount]
      exact ⟨haround.1 _ (mem_singleton_self _), Or.inl (haround.2 _ (by simp))⟩

theorem mem_mapIdx_token {tokens : List Bytes} {e : Effect}
    (h : e ∈ tokens.mapIdx (fun index text => token text index)) :
    ∃ text ∈ tokens, ∃ index, e = .token text index := by
  rcases mem_mapIdx.1 h with ⟨index, hindex, rfl⟩
  exact ⟨tokens[index], getElem_mem hindex, index, rfl⟩

theorem billed_engine_iff (apiKey : Bytes) (tokens : Int) (engine : EngineRun) :
    Billed apiKey tokens ([.afforded apiKey] ++ serveFromEngine engine) ↔
      engine.tokens.flatten = [] := by
  cases engine with
  | noModel =>
    rw [billed_iff_of_no_charge (by simp [serveFromEngine])]
    simp [serveFromEngine, text, EngineRun.tokens]
  | initFailed =>
    rw [billed_iff_of_no_charge (by simp [serveFromEngine])]
    simp [serveFromEngine, text, EngineRun.tokens]
  | ran emitted error =>
    have hcharge (c : Gateway.Charge) :
        .charge c ∉ [afforded apiKey] ++ serveFromEngine (.ran emitted error) := by
      cases error <;> simp [serveFromEngine, mem_mapIdx]
    rw [billed_iff_of_no_charge hcharge, EngineRun.tokens]
    constructor
    · intro hsilent
      apply flatten_eq_nil_iff.2
      intro text htext
      rcases mem_iff_getElem.1 htext with ⟨index, hindex, rfl⟩
      refine hsilent (.token emitted[index] index) ?_
      exact mem_append_right _ (mem_append_left _
        (mem_mapIdx.2 ⟨index, hindex, rfl⟩))
    · intro hempty e he
      have htokens := flatten_eq_nil_iff.1 hempty
      rcases mem_append.1 he with he | he
      · cases mem_singleton.1 he
        rfl
      rcases mem_append.1 he with he | he
      · rcases mem_mapIdx_token he with ⟨text, htext, index, rfl⟩
        exact htokens text htext
      · cases error with
        | none =>
          cases mem_singleton.1 he
          exact hempty
        | some message =>
          cases mem_singleton.1 he
          rfl

theorem billed_webSocket_iff (server : ChatServer) (payload apiKey : Bytes) (tokens : Int) :
    Billed apiKey tokens (handleTextFrame server payload) ↔
      (chatTokens server payload).flatten = [] := by
  unfold handleTextFrame chatTokens
  cases server.readChat payload with
  | none =>
    rw [billed_iff_of_no_charge (by simp)]
    simp
  | some chat =>
    rcases chat with ⟨key, contents⟩
    dsimp only
    by_cases hprompt : contents.flatten = []
    · rw [if_pos hprompt, if_neg (fun h => h.1 hprompt), billed_iff_of_no_charge (by simp)]
      simp
    by_cases hkey : key = []
    · rw [if_neg hprompt, if_neg (not_not.2 hkey), if_neg (fun h => h.2 hkey),
        billed_iff_of_no_charge (by simp)]
      simp [text]
    · rw [if_neg hprompt, if_pos hkey, if_pos ⟨hprompt, hkey⟩, billed_iff_of_no_charge (by simp),
        forall_mem_append, forall_mem_map, forall_mem_singleton,
        flatten_eq_nil_iff]
      exact and_iff_left rfl

theorem billed_iff_settles (r : InferenceRequest) :
    Billed r.apiKey r.deliveredTokens r.effects ↔ r.Settles := by
  cases r with
  | webSocket server payload => exact billed_webSocket_iff server payload _ _
  | peer ctx apiKey =>
    cases hadmitted : (peerAdmission ctx apiKey).2 with
    | false =>
      refine iff_of_true (billed_of_silent ?_) fun htrue => ?_
      · simp only [InferenceRequest.effects, processInferenceRequest, hadmitted,
          Bool.false_eq_true, if_false, append_nil]
        exact peerAdmission_silent ctx apiKey
      · cases hadmitted.symm.trans htrue
    | true =>
      rcases peerAdmission_of_true hadmitted with ⟨hformat, hlog⟩
      have hkey : apiKey ≠ [] := by
        rintro rfl
        cases hformat
      simp only [InferenceRequest.effects, InferenceRequest.apiKey,
        InferenceRequest.deliveredTokens, InferenceRequest.Settles, processInferenceRequest,
        hadmitted, hlog, if_true, true_implies]
      cases ctx.miner.success with
      | true => exact billed_miner_iff hkey ctx.miner
      | false => exact billed_engine_iff apiKey _ ctx.engine

/-! ## A miner that does not answer -/

def fallbackContext : PeerContext where
  rateLimited := false
  node := fundedGateway.toNode
  db := Lib.OrderedMap.empty
  served := fun _ => 0
  suffix := ascii "1"
  miner := ⟨false, [], 0⟩
  engine := .ran [ascii "hi"] none

def fallbackRequest : InferenceRequest :=
  .peer fallbackContext someKey

def talkativeServer : ChatServer where
  readChat := fun payload => some (ascii "any key", [payload])
  generate := fun _ => [ascii "hi"]

def chatFrame : InferenceRequest :=
  .webSocket talkativeServer (ascii "hello")

theorem not_billed_fallback :
    ¬ Billed fallbackRequest.apiKey fallbackRequest.deliveredTokens fallbackRequest.effects ∧
      ¬ Billed chatFrame.apiKey chatFrame.deliveredTokens chatFrame.effects := by
  constructor
  · have hadmitted : (peerAdmission fallbackContext someKey).2 = true := by decide +kernel
    have heffects : fallbackRequest.effects =
        [.afforded someKey] ++ serveFromEngine fallbackContext.engine := by
      simp only [fallbackRequest, InferenceRequest.effects, processInferenceRequest, hadmitted,
        (peerAdmission_of_true hadmitted).2, if_true]
      rfl
    rw [heffects]
    exact (billed_engine_iff ..).not.2 (by decide)
  · exact (billed_webSocket_iff talkativeServer (ascii "hello") ..).not.2 (by decide)

end TKNC.Net
