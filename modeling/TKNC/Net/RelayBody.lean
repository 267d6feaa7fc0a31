import TKNC.ApiKey.ApiKey
import TKNC.Lib.JsonShape
import TKNC.Net.RemoteBackend

/-!
# RelayBody — the bodies that go to the local miner

`LocalBackend::Infer` and `P2PRelayToLocalMiner` put the messages of a request into one prompt and
write the JSON body for the miner by concatenation, each with its own escapes.  The body is compared
with the object that was meant (`intended`).
-/

namespace TKNC.Net

open ApiKey Lib Lib.JsonShape
open Lib.JsonText (Document)
open Lib.Numeral List Escaper

/-! ## The bodies -/

def combinedPrompt (separator : Bytes) (messages : List ChatMessage) : Bytes :=
  messages.foldl (fun combined message =>
    (if combined ≠ [] then combined ++ separator else combined) ++ message.content) []

def maxTokensStr (maxTokens : Int32) : Bytes :=
  if maxTokens ≠ 0 then ascii ",\"max_tokens\":" ++ toString64 maxTokens.toInt else []

def bodyFromModel (escapedModel escapedPrompt : Bytes) (maxTokens : Int32) : Bytes :=
  escapedModel ++ ascii "\",\"messages\":[\x7b\"role\":\"user\",\"content\":\"" ++ escapedPrompt ++
    ascii "\"\x7d]" ++ ascii ",\"stream\":true" ++ maxTokensStr maxTokens ++ ascii "\x7d"

def bodyWithKey (apiKey escapedModel escapedPrompt : Bytes) (maxTokens : Int32) : Bytes :=
  ascii "\x7b\"api_key\":\"" ++ apiKey ++ ascii "\",\"model\":\"" ++
    bodyFromModel escapedModel escapedPrompt maxTokens

def bodyWithoutKey (escapedModel escapedPrompt : Bytes) (maxTokens : Int32) : Bytes :=
  ascii "\x7b\"model\":\"" ++ bodyFromModel escapedModel escapedPrompt maxTokens

namespace LocalBackend

/-- One of the two loops of `EscapeJson`; no loop meets its own replacement again. -/
def replaceAll (target : UInt8) (replacement raw : Bytes) : Bytes :=
  raw.flatMap fun c => if c = target then replacement else [c]

def escapeJson (raw : Bytes) : Bytes :=
  replaceAll 10 (ascii "\\n") (replaceAll 34 (ascii "\\\"") raw)

/-- The body of `Infer`; a request without a key is refused with "API key required for local
backend requests". -/
def inferBody (request : RemoteBackend.ComputeRequest) : Option Bytes :=
  let escapedPrompt := escapeJson (combinedPrompt (ascii " ") request.messages)
  if request.apiKey = [] then none
  else
    some (bodyWithKey request.apiKey (escapeJson request.model) escapedPrompt request.maxTokens)

end LocalBackend

namespace P2PRelay

def escapePromptChar (c : UInt8) : Bytes :=
  if c = 34 then ascii "\\\""
  else if c = 10 then ascii "\\n"
  else if c = 92 then ascii "\\\\"
  else if c = 9 then ascii "\\t"
  else [c]

def escapeModelChar (c : UInt8) : Bytes :=
  if c = 34 then ascii "\\\""
  else if c = 92 then ascii "\\\\"
  else [c]

def relayBody (request : APIRequest) : Bytes :=
  let escapedPrompt := (combinedPrompt (ascii "\n") request.messages).flatMap escapePromptChar
  let escapedModel := request.model.flatMap escapeModelChar
  if request.apiKey ≠ [] then
    bodyWithKey request.apiKey escapedModel escapedPrompt request.maxTokens
  else bodyWithoutKey escapedModel escapedPrompt request.maxTokens

end P2PRelay

section Keys

def apiKeyName : Key := ⟨ascii "api_key", by decide⟩
def modelName : Key := ⟨ascii "model", by decide⟩
def messagesName : Key := ⟨ascii "messages", by decide⟩
def roleName : Key := ⟨ascii "role", by decide⟩
def contentName : Key := ⟨ascii "content", by decide⟩
def streamName : Key := ⟨ascii "stream", by decide⟩
def maxTokensName : Key := ⟨ascii "max_tokens", by decide⟩

end Keys

/-- The members of the object: the key unless it is empty, the model, one message, the stream flag,
and the number of tokens unless it is zero. -/
def intended (apiKey model prompt : Bytes) (maxTokens : Int32) : List Expected :=
  (if apiKey = [] then [] else [.string apiKeyName apiKey]) ++
    [.string modelName model,
      .singleObject messagesName [.string roleName (ascii "user"), .string contentName prompt],
      .bool streamName true] ++
    (if maxTokens = 0 then [] else [.int maxTokensName maxTokens.toInt])

/-- The body is JSON, with the intended members and no others. -/
def Carries (body : Bytes) (members : List Expected) : Prop :=
  ∃ d : Document, d.text = body ∧ MembersAre members d.members

/-! ## The bodies as attempts at these members -/

section Attempts

variable (apiKey model prompt : Bytes) (maxTokens : Int32) (modelEscaper promptEscaper : Escaper)

def attemptsFromModel : List Attempt :=
  .string modelName modelEscaper model ::
    .singleObject messagesName
      [.string roleName verbatim (ascii "user"), .string contentName promptEscaper prompt] ::
    .bool streamName true ::
    (if maxTokens = 0 then [] else [.int maxTokensName maxTokens.toInt])

def attempts : List Attempt :=
  (if apiKey = [] then [] else [.string apiKeyName verbatim apiKey]) ++
    attemptsFromModel model prompt maxTokens modelEscaper promptEscaper

theorem attempts_expected :
    (attempts apiKey model prompt maxTokens modelEscaper promptEscaper).map Attempt.expected =
      intended apiKey model prompt maxTokens := by
  rw [attempts, attemptsFromModel, intended]
  by_cases hkey : apiKey = [] <;> by_cases htokens : maxTokens = 0 <;>
    simp only [hkey, htokens, if_true, if_false, map_cons, map_nil,
      nil_append, cons_append, Attempt.string, Attempt.singleObject, Attempt.bool,
      Attempt.int]

theorem exact_attempts_iff (hkey : verbatim.Covers apiKey) :
    (∀ a ∈ attempts apiKey model prompt maxTokens modelEscaper promptEscaper, a.Exact) ↔
      modelEscaper.Covers model ∧ promptEscaper.Covers prompt := by
  have hrole : verbatim.Covers (ascii "user") := by decide
  have hfirst : ∀ a ∈ (if apiKey = [] then [] else [Attempt.string apiKeyName verbatim apiKey]),
      a.Exact := by
    split
    · exact forall_mem_nil _
    · exact forall_mem_singleton.2 ((Attempt.exact_string_iff _ _ _).2 hkey)
  have hlast : ∀ a ∈ (if maxTokens = 0 then [] else [Attempt.int maxTokensName maxTokens.toInt]),
      a.Exact := by
    split
    · exact forall_mem_nil _
    · exact forall_mem_singleton.2 (Attempt.exact_int _ _)
  rw [attempts, attemptsFromModel, forall_mem_append, and_iff_right hfirst,
    forall_mem_cons, forall_mem_cons, forall_mem_cons, Attempt.exact_string_iff,
    Attempt.exact_singleObject_iff, forall_mem_cons, forall_mem_singleton,
    Attempt.exact_string_iff, Attempt.exact_string_iff, and_iff_right hrole,
    and_iff_left (And.intro (Attempt.exact_bool _ _) hlast)]

theorem joined_maxTokens :
    joined [44] (if maxTokens = 0 then [] else [.int maxTokensName maxTokens.toInt]) =
      maxTokensStr maxTokens := by
  rw [maxTokensStr]
  by_cases htokens : maxTokens = 0
  · rw [if_pos htokens, if_neg (not_not_intro htokens), joined]
  · rw [if_neg htokens, if_pos htokens]
    simp [joined, Attempt.int, Expected.int, maxTokensName, ascii]

theorem joined_attemptsFromModel (sep : Bytes) :
    joined sep (attemptsFromModel model prompt maxTokens modelEscaper promptEscaper) ++ [125] =
      sep ++ (ascii "\"model\":\"" ++
        bodyFromModel (modelEscaper.text model) (promptEscaper.text prompt) maxTokens) := by
  rw [attemptsFromModel, bodyFromModel, ← joined_maxTokens]
  simp [joined, objectText, Attempt.string, Attempt.singleObject, Attempt.bool, Expected.string,
    Expected.singleObject, Expected.bool, verbatim_text, modelName, messagesName, roleName,
    contentName, streamName, JsonText.Tree.text, JsonText.Tree.textFrom, ascii]

theorem objectText_attempts :
    objectText (attempts apiKey model prompt maxTokens modelEscaper promptEscaper) =
      if apiKey ≠ [] then
        bodyWithKey apiKey (modelEscaper.text model) (promptEscaper.text prompt) maxTokens
      else bodyWithoutKey (modelEscaper.text model) (promptEscaper.text prompt) maxTokens := by
  have hmodel := joined_attemptsFromModel model prompt maxTokens modelEscaper promptEscaper
  rw [objectText, attempts, bodyWithKey, bodyWithoutKey]
  by_cases hkey : apiKey = []
  · rw [if_pos hkey, if_neg (not_not_intro hkey), nil_append, hmodel]
    simp [ascii]
  · rw [if_neg hkey, if_pos hkey, singleton_append, joined]
    simp only [append_assoc, cons_append, hmodel]
    simp [Attempt.string, Expected.string, verbatim_text, apiKeyName, ascii]

theorem carries_iff (hkey : verbatim.Covers apiKey) :
    Carries (if apiKey ≠ [] then
        bodyWithKey apiKey (modelEscaper.text model) (promptEscaper.text prompt) maxTokens
      else bodyWithoutKey (modelEscaper.text model) (promptEscaper.text prompt) maxTokens)
      (intended apiKey model prompt maxTokens) ↔
        modelEscaper.Covers model ∧ promptEscaper.Covers prompt := by
  rw [Carries, ← objectText_attempts, ← attempts_expected apiKey model prompt maxTokens
    modelEscaper promptEscaper, exists_document_iff, exact_attempts_iff _ _ _ _ _ _ hkey]

end Attempts

theorem covers_combinedPrompt_iff (E : Escaper) {separator : Bytes} (hsep : E.Covers separator)
    (messages : List ChatMessage) :
    E.Covers (combinedPrompt separator messages) ↔ ∀ m ∈ messages, E.Covers m.content := by
  -- the prompt so far, and the messages behind it
  suffices h : ∀ combined : Bytes,
      E.Covers (messages.foldl (fun combined message =>
        (if combined ≠ [] then combined ++ separator else combined) ++ message.content) combined) ↔
        E.Covers combined ∧ ∀ m ∈ messages, E.Covers m.content by
    rw [combinedPrompt, h, and_iff_right (show E.Covers [] from forall_mem_nil _)]
  induction messages with
  | nil =>
    intro combined
    rw [foldl_nil, and_iff_left (forall_mem_nil _)]
  | cons m messages ih =>
    intro combined
    have hstep : E.Covers ((if combined ≠ [] then combined ++ separator else combined) ++
        m.content) ↔ E.Covers combined ∧ E.Covers m.content := by
      rw [Escaper.Covers, forall_mem_append]
      refine and_congr_left fun _ => ?_
      split
      · rw [forall_mem_append]
        exact and_iff_left hsep
      · exact Iff.rfl
    rw [foldl_cons, ih, hstep, forall_mem_cons, and_assoc]

/-- A key that the gate lets through is hexadecimal behind its mark. -/
theorem covers_apiKey {apiKey : Bytes} (h : apiKey = [] ∨ validateAPIKeyFormat apiKey = true) :
    verbatim.Covers apiKey := by
  rcases h with rfl | hformat
  · exact forall_mem_nil _
  · -- the length, the mark and the digits, as they are checked
    rw [validateAPIKeyFormat] at hformat
    split at hformat
    · cases hformat
    · split at hformat
      · cases hformat
      · rename_i hmark
        have hmarked : verbatim.Covers (apiKey.take 5) := by
          rw [not_not.1 hmark]
          decide
        have hdigits : verbatim.Covers (apiKey.drop 5) := by
          intro b hb hneeds
          have hhex := all_eq_true.1 hformat b hb
          simp only [needsEscape, Bool.or_eq_true, decide_eq_true_iff, ← UInt8.toNat_inj,
            UInt8.reduceToNat] at hneeds
          rw [hexValue, if_neg (by omega), if_neg (by omega), if_neg (by omega)] at hhex
          cases hhex
        rw [← take_append_drop 5 apiKey]
        exact forall_mem_append.2 ⟨hmarked, hdigits⟩

/-! ## The two escapers -/

namespace LocalBackend

def escaper : Escaper :=
  .ofList [.quote, .lineFeed] (by decide)

theorem escapeJson_eq (raw : Bytes) : escapeJson raw = escaper.text raw := by
  -- the second loop meets nothing that the first has written
  rw [escapeJson, replaceAll, replaceAll, flatMap_assoc, text]
  congr 1
  funext c
  rw [byteText]
  by_cases hquote : c = 34
  · subst c
    decide
  · by_cases hbreak : c = 10
    · subst c
      decide
    · simp [escaper, ofList, JsonText.Escape.value, hquote, hbreak, Ne.symm hquote,
        Ne.symm hbreak]

theorem covers_iff (s : Bytes) :
    escaper.Covers s ↔ ∀ b ∈ s, b ≠ 92 ∧ (32 ≤ b.toNat ∨ b = 10) := by
  rw [escaper, covers_ofList_iff]
  refine forall₂_congr fun b _ => ?_
  simp only [mem_cons, not_mem_nil, or_false, exists_eq_or_imp, exists_eq_left,
    JsonText.Escape.value, ne_eq, ← UInt8.toNat_inj, UInt8.reduceToNat]
  omega

end LocalBackend

namespace P2PRelay

def promptEscaper : Escaper :=
  .ofList [.quote, .lineFeed, .backslash, .tab] (by decide)

def modelEscaper : Escaper :=
  .ofList [.quote, .backslash] (by decide)

theorem escapePromptChar_eq (c : UInt8) : escapePromptChar c = promptEscaper.byteText c := by
  rw [escapePromptChar, byteText]
  split_ifs with hquote hbreak hbackslash htab
  · subst c
    decide
  · subst c
    decide
  · subst c
    decide
  · subst c
    decide
  · simp [promptEscaper, ofList, JsonText.Escape.value, Ne.symm hquote, Ne.symm hbreak,
      Ne.symm hbackslash, Ne.symm htab]

theorem escapeModelChar_eq (c : UInt8) : escapeModelChar c = modelEscaper.byteText c := by
  rw [escapeModelChar, byteText]
  split_ifs with hquote hbackslash
  · subst c
    decide
  · subst c
    decide
  · simp [modelEscaper, ofList, JsonText.Escape.value, Ne.symm hquote,
      Ne.symm hbackslash]

theorem covers_prompt_iff (s : Bytes) :
    promptEscaper.Covers s ↔ ∀ b ∈ s, 32 ≤ b.toNat ∨ b = 10 ∨ b = 9 := by
  rw [promptEscaper, covers_ofList_iff]
  refine forall₂_congr fun b _ => ?_
  simp only [mem_cons, not_mem_nil, or_false, exists_eq_or_imp, exists_eq_left,
    JsonText.Escape.value, ← UInt8.toNat_inj, UInt8.reduceToNat]
  omega

theorem covers_model_iff (s : Bytes) :
    modelEscaper.Covers s ↔ ∀ b ∈ s, 32 ≤ b.toNat := by
  rw [modelEscaper, covers_ofList_iff]
  refine forall₂_congr fun b _ => ?_
  simp only [mem_cons, not_mem_nil, or_false, exists_eq_or_imp, exists_eq_left,
    JsonText.Escape.value, ← UInt8.toNat_inj, UInt8.reduceToNat]
  omega

end P2PRelay

/-! ## What the miner is sent -/

def InferCarries (request : RemoteBackend.ComputeRequest) : Prop :=
  ∀ body ∈ LocalBackend.inferBody request, Carries body (intended request.apiKey request.model
    (combinedPrompt (ascii " ") request.messages) request.maxTokens)

def RelayCarries (request : APIRequest) : Prop :=
  Carries (P2PRelay.relayBody request) (intended request.apiKey request.model
    (combinedPrompt (ascii "\n") request.messages) request.maxTokens)

open LocalBackend

theorem inferCarries_iff (request : RemoteBackend.ComputeRequest)
    (hkey : verbatim.Covers request.apiKey) :
    InferCarries request ↔ request.apiKey = [] ∨
      (∀ b ∈ request.model, b ≠ 92 ∧ (32 ≤ b.toNat ∨ b = 10)) ∧
        ∀ m ∈ request.messages, ∀ b ∈ m.content, b ≠ 92 ∧ (32 ≤ b.toNat ∨ b = 10) := by
  by_cases hempty : request.apiKey = []
  · rw [InferCarries, inferBody, if_pos hempty]
    exact iff_of_true (fun body hbody => by cases hbody) (Or.inl hempty)
  · have hbody := carries_iff request.apiKey request.model
      (combinedPrompt (ascii " ") request.messages) request.maxTokens escaper
      escaper hkey
    -- the separators between the messages need no condition
    have hseparator : escaper.Covers (ascii " ") := by decide
    rw [if_pos hempty, covers_combinedPrompt_iff _ hseparator, covers_iff] at hbody
    simp only [covers_iff] at hbody
    rw [InferCarries, inferBody, if_neg hempty, or_iff_right hempty, ← hbody,
      escapeJson_eq, escapeJson_eq]
    simp only [Option.mem_def, Option.some.injEq, forall_eq']

theorem relayCarries_iff (request : APIRequest) (hkey : verbatim.Covers request.apiKey) :
    RelayCarries request ↔ (∀ b ∈ request.model, 32 ≤ b.toNat) ∧
      ∀ m ∈ request.messages, ∀ b ∈ m.content, 32 ≤ b.toNat ∨ b = 10 ∨ b = 9 := by
  have hbody := carries_iff request.apiKey request.model
    (combinedPrompt (ascii "\n") request.messages) request.maxTokens P2PRelay.modelEscaper
    P2PRelay.promptEscaper hkey
  have hseparator : P2PRelay.promptEscaper.Covers (ascii "\n") := by decide
  rw [covers_combinedPrompt_iff _ hseparator, P2PRelay.covers_model_iff] at hbody
  simp only [P2PRelay.covers_prompt_iff] at hbody
  rw [← hbody, RelayCarries, P2PRelay.relayBody, text, text,
    funext P2PRelay.escapePromptChar_eq, funext P2PRelay.escapeModelChar_eq]

/-- Each builder sends what it means exactly when no byte that needs an escape is left without one:
for `Infer` a backslash or a control byte other than a line break, for the relay a control byte
other than a line break or a tabulator, and in its model any control byte. -/
theorem bodies_carry_iff (request : RemoteBackend.ComputeRequest) (relayed : APIRequest)
    (hkey : request.apiKey = [] ∨ validateAPIKeyFormat request.apiKey = true)
    (hrelayed : relayed.apiKey = [] ∨ validateAPIKeyFormat relayed.apiKey = true) :
    (InferCarries request ↔ request.apiKey = [] ∨
      (∀ b ∈ request.model, b ≠ 92 ∧ (32 ≤ b.toNat ∨ b = 10)) ∧
        ∀ m ∈ request.messages, ∀ b ∈ m.content, b ≠ 92 ∧ (32 ≤ b.toNat ∨ b = 10)) ∧
    (RelayCarries relayed ↔ (∀ b ∈ relayed.model, 32 ≤ b.toNat) ∧
      ∀ m ∈ relayed.messages, ∀ b ∈ m.content, 32 ≤ b.toNat ∨ b = 10 ∨ b = 9) :=
  ⟨inferCarries_iff request (covers_apiKey hkey), relayCarries_iff relayed (covers_apiKey hrelayed)⟩

section Fixtures

def pathRequest : RemoteBackend.ComputeRequest where
  apiKey := generateAPIKey 0
  model := ascii "m"
  messages := [⟨ascii "user", ascii "C:\\new"⟩]
  maxTokens := 0

def greetingRequest : APIRequest where
  apiKey := generateAPIKey 0
  model := ascii "m"
  modelHash := []
  messages := [⟨ascii "user", ascii "a\tb\\c\nd"⟩]
  nonce := 0
  requestId := 0
  signature := []
  maxTokens := 16

end Fixtures

theorem bodies_carry_for_plain_prompts :
    InferCarries { pathRequest with messages := [⟨ascii "user", ascii "say \"hi\"\n"⟩] } ∧
      RelayCarries greetingRequest := by
  have hkey : validateAPIKeyFormat (generateAPIKey 0) = true := validate_generateAPIKey 0
  have hbodies := bodies_carry_iff
    { pathRequest with messages := [⟨ascii "user", ascii "say \"hi\"\n"⟩] } greetingRequest
    (Or.inr hkey) (Or.inr hkey)
  exact ⟨hbodies.1.2 (Or.inr (by simp [pathRequest, ascii])),
    hbodies.2.2 (by simp [greetingRequest, ascii])⟩

/-- A backslash goes through `EscapeJson` as it is, and the miner reads a line break in its
place. -/
theorem not_inferCarries_of_backslash : ¬ InferCarries pathRequest := by
  have hkey : verbatim.Covers pathRequest.apiKey :=
    covers_apiKey (Or.inr (validate_generateAPIKey 0))
  rw [inferCarries_iff pathRequest hkey]
  rintro (hempty | ⟨-, hcontents⟩)
  · cases hempty
  · exact (hcontents _ mem_cons_self 92 (by decide)).1 rfl

end TKNC.Net
