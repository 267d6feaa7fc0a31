import TKNC.Gateway.Json
import TKNC.Lib.ChunkedCoding
import TKNC.Net.BackendRouter

/-!
# MinerStream — the answer that a miner streams and the node reads back

The miner writes an answer as server-sent events: a chunk with the role, a chunk for every piece of
text, a chunk that finishes, and `[DONE]`.  The node has two readers for it, one in the local
backend and one in the relay for requests of peers.  They look for the mark `"content":"` in every
event and read from the tenth byte behind its beginning; the mark has eleven bytes, so what they
read begins with the opening quote and ends there.

The readers get the whole response, with the header and with whatever the transfer coding writes
around the chunks.
-/

namespace TKNC.Net

open Lib
open Lib.ChunkedCoding (headerEnd)
open Lib.Numeral Lib.TextSearch
open Gateway (quote backslash jsonEscape)
open List

/-! ## The writer -/

def sseJsonEscape : Bytes → Bytes :=
  jsonEscape

structure SseTask where
  requestId : UInt64
  created : Int
  modelPath : Bytes

namespace SseTask

def chatId (task : SseTask) : Bytes :=
  ascii "chatcmpl-miner-" ++ decimal task.requestId.toNat

def modelName (task : SseTask) : Bytes :=
  if task.modelPath.isEmpty then ascii "mining-only"
  else
    let filename := (task.modelPath.reverse.takeWhile fun c => c ≠ 47 && c ≠ 92).reverse
    if 46 ∈ filename then ((filename.reverse.dropWhile (· ≠ 46)).drop 1).reverse else filename

def chunk (task : SseTask) (delta finishReason : Bytes) : Bytes :=
  ascii "data:" ++ ascii " \x7b\"id\":\"" ++ task.chatId ++
    ascii "\",\"object\":\"chat.completion.chunk\",\"created\":" ++ toString64 task.created ++
    ascii ",\"model\":\"" ++ sseJsonEscape task.modelName ++
    ascii "\",\"choices\":[\x7b\"index\":0,\"delta\":" ++ delta ++
    ascii ",\"finish_reason\":" ++ finishReason ++ ascii "\x7d]\x7d\n\n"

def roleChunk (task : SseTask) : Bytes :=
  task.chunk (ascii "\x7b\"role\":\"assistant\",\"content\":\"\"\x7d") (ascii "null")

def contentChunk (task : SseTask) (text : Bytes) : Bytes :=
  task.chunk (ascii "\x7b\"content\":\"" ++ sseJsonEscape text ++ ascii "\"\x7d") (ascii "null")

def finishChunk (task : SseTask) : Bytes :=
  task.chunk (ascii "\x7b\x7d") (ascii "\"stop\"") ++ ascii "data: [DONE]\n\n"

def chunks (task : SseTask) (texts : List Bytes) : List Bytes :=
  task.roleChunk ::
    ((texts.filter fun text => !text.isEmpty).map task.contentChunk ++ [task.finishChunk])

end SseTask

/-- A response as it arrives: its header, what the transfer coding writes before and after each
chunk, and how it ends. -/
structure SseTransfer where
  head : Bytes
  before : Bytes → Bytes
  after : Bytes → Bytes
  trailer : Bytes

namespace SseTransfer

def body (transfer : SseTransfer) (chunks : List Bytes) : Bytes :=
  chunks.flatMap (fun chunk => transfer.before chunk ++ chunk ++ transfer.after chunk) ++
    transfer.trailer

def responseData (transfer : SseTransfer) (chunks : List Bytes) : Bytes :=
  transfer.head ++ (headerEnd ++ transfer.body chunks)

end SseTransfer

/-! ## The readers -/

/-- `while ((ep = token.find(..., ep)) != npos) { token.replace(ep, 2, ...); ep++; }` for a
backslash and a letter, on the text from `ep` on. -/
def replaceEach (letter byte : UInt8) : Bytes → Bytes
  | a :: b :: rest =>
      if a = backslash ∧ b = letter then byte :: replaceEach letter byte rest
      else a :: replaceEach letter byte (b :: rest)
  | rest => rest

/-- The loop with the position that it shares with the other loops; it ends when a search has found
nothing, and leaves `npos` there. -/
def replaceLoop (letter byte : UInt8) (s : Bytes × Option Nat) : Bytes × Option Nat :=
  match s.2 with
  | none => s
  | some ep => (s.1.take ep ++ replaceEach letter byte (s.1.drop ep), none)

def unescapeToken (token : Bytes) : Bytes :=
  (replaceLoop 116 9 <| replaceLoop backslash backslash <| replaceLoop quote quote <|
    replaceLoop 110 10 (token, some 0)).1

def tokenText : Bytes → Bytes
  | [] => []
  | c :: rest =>
      if c = backslash then
        match rest with
        | [] => [c]
        | d :: rest => c :: d :: tokenText rest
      else if c = quote then []
      else c :: tokenText rest

def contentMark : Bytes := ascii "\"content\":\""

def tokenOf (event : Bytes) : Option Bytes :=
  if event.isEmpty || event == ascii "[DONE]" then none
  -- `content_pos + 10`, for a mark of eleven bytes
  else (find contentMark event).map fun rest => unescapeToken (tokenText (rest.drop 10))

def behindMark (rest : Bytes) : Bytes :=
  (rest.drop 5).dropWhile (· = 32)

def eventOf (rest : Bytes) : Bytes :=
  let line := (behindMark rest).takeWhile (· ≠ 10)
  if line.getLast? = some 13 then line.dropLast else line

def behindLine (rest : Bytes) : Bytes :=
  ((behindMark rest).dropWhile (· ≠ 10)).drop 1

theorem length_behindLine_lt {jsonData rest : Bytes}
    (h : find (ascii "data:") jsonData = some rest) :
    (behindLine rest).length < jsonData.length := by
  obtain ⟨hmark, hrest⟩ := prefix_of_find h
  have hpos : 5 ≤ rest.length := hmark.length_le
  have hsize := hrest.length_le
  have hvalue := (dropWhile_suffix (· = 32) (l := rest.drop 5)).length_le
  have hline := (dropWhile_suffix (· ≠ 10) (l := behindMark rest)).length_le
  rw [behindLine, length_drop]
  rw [length_drop] at hvalue
  rw [behindMark] at hline ⊢
  omega

def sseEvents (jsonData : Bytes) : List Bytes :=
  match h : find (ascii "data:") jsonData with
  | none => []
  | some rest =>
      have := length_behindLine_lt h
      eventOf rest :: sseEvents (behindLine rest)
termination_by jsonData.length

def sseTokens (jsonData : Bytes) : List Bytes :=
  (sseEvents jsonData).filterMap tokenOf

/-- `LocalBackend::Infer` on the response of the miner: `none` if it is no stream of events and the
reader for a whole document follows. -/
def localInferSse (responseData : Bytes) : Option BackendResponse :=
  match find headerEnd responseData with
  | none => some (BackendResponse.initial.fail (ascii "Invalid HTTP response from local miner")
      .unhealthy)
  | some rest =>
      let jsonData := rest.drop 4
      if contains (ascii "data:") jsonData then
        let tokens := sseTokens jsonData
        if tokens.flatten ≠ [] then
          some { BackendResponse.initial with
            success := true
            content := tokens.flatten
            tokensUsed := Int64.ofNat tokens.length
            cost := Int64.ofNat tokens.length
            health := .healthy }
        else
          some (BackendResponse.initial.fail
            (ascii "Local miner SSE response had no content. Raw: " ++ jsonData.take 200) .degraded)
      else
        none

def relaySse (responseData : Bytes) : Option RemoteBackend.ComputeResponse :=
  match find headerEnd responseData with
  | none => some (BackendResponse.initial.fail
      (ascii "P2PRelay: Invalid HTTP response from local miner") .unknown).toComputeResponse
  | some rest =>
      let jsonData := rest.drop 4
      if contains (ascii "data: ") jsonData || contains (ascii "data:") jsonData then
        let tokens := sseTokens jsonData
        if tokens.flatten ≠ [] then
          some { BackendResponse.initial.toComputeResponse with
            success := true
            content := tokens.flatten
            tokensUsed := Int64.ofNat tokens.length
            cost := Int64.ofNat tokens.length }
        else
          some (BackendResponse.initial.fail
            (ascii "P2PRelay: SSE response had no content. Raw: " ++ jsonData.take 200)
            .unknown).toComputeResponse
      else
        none

/-- The reader gives back the answer, and as many tokens as it had pieces. -/
def Recovers (result : Option RemoteBackend.ComputeResponse) (texts : List Bytes) : Prop :=
  ∃ response, result = some response ∧ response.success = true ∧
    response.content = texts.flatten ∧ response.tokensUsed = Int64.ofNat texts.length

/-! ## Nothing is ever read -/

theorem tokenText_quote (rest : Bytes) : tokenText (quote :: rest) = [] := by
  have hne : quote ≠ backslash := by decide
  cases rest <;> simp [tokenText, hne]

theorem tokenOf_eq_nil {event token : Bytes} (h : tokenOf event = some token) : token = [] := by
  rw [tokenOf] at h
  split at h
  · cases h
  · obtain ⟨rest, hrest, rfl⟩ := Option.map_eq_some_iff.1 h
    obtain ⟨later, rfl⟩ := (prefix_of_find hrest).1
    have hquote : (contentMark ++ later).drop 10 = quote :: later := rfl
    rw [hquote, tokenText_quote]
    rfl

example : tokenOf (ascii "\x7b\"content\":\"hi\"\x7d") = some [] := by
  decide +kernel

theorem sseTokens_flatten (jsonData : Bytes) : (sseTokens jsonData).flatten = [] := by
  rw [flatten_eq_nil_iff]
  intro token hmem
  obtain ⟨event, -, htoken⟩ := mem_filterMap.1 hmem
  exact tokenOf_eq_nil htoken

theorem data_infix_body (task : SseTask) (texts : List Bytes) (transfer : SseTransfer) :
    ascii "data:" <:+: transfer.body (task.chunks texts) := by
  have hrole : ascii "data:" <:+: task.roleChunk := by
    rw [SseTask.roleChunk, SseTask.chunk]
    simp only [append_assoc]
    exact (prefix_append (ascii "data:") _).isInfix
  have hchunk : task.roleChunk <:+:
      transfer.before task.roleChunk ++ task.roleChunk ++ transfer.after task.roleChunk :=
    ⟨_, _, rfl⟩
  rw [SseTransfer.body, SseTask.chunks, flatMap_cons, append_assoc]
  exact (hrole.trans hchunk).trans (prefix_append _ _).isInfix

theorem exists_jsonData (transfer : SseTransfer) (chunks : List Bytes) :
    ∃ rest, find headerEnd (transfer.responseData chunks) = some rest ∧
      transfer.body chunks <:+ rest.drop 4 := by
  obtain ⟨w, hw⟩ := exists_find_append (by decide : headerEnd ≠ []) transfer.head
    (transfer.body chunks)
  refine ⟨_, hw, ?_⟩
  have hbody : transfer.body chunks <:+ w ++ (headerEnd ++ transfer.body chunks) :=
    ((suffix_append _ _).trans (suffix_append w _))
  -- both are suffixes of what was found, and the end of the header is four bytes
  refine suffix_of_suffix_length_le hbody (drop_suffix 4 _) ?_
  have hend : headerEnd.length = 4 := rfl
  simp only [length_drop, length_append]
  omega

/-- Every stream that the miner writes is answered with the same failure, by both readers. -/
theorem readers_fail (task : SseTask) (texts : List Bytes) (transfer : SseTransfer) :
    ∃ jsonData, transfer.body (task.chunks texts) <:+ jsonData ∧
      localInferSse (transfer.responseData (task.chunks texts)) =
        some (BackendResponse.initial.fail
          (ascii "Local miner SSE response had no content. Raw: " ++ jsonData.take 200)
          .degraded) ∧
      relaySse (transfer.responseData (task.chunks texts)) =
        some (BackendResponse.initial.fail
          (ascii "P2PRelay: SSE response had no content. Raw: " ++ jsonData.take 200)
          .unknown).toComputeResponse := by
  obtain ⟨rest, hrest, hbody⟩ := exists_jsonData transfer (task.chunks texts)
  have hdata : contains (ascii "data:") (rest.drop 4) = true :=
    contains_iff_infix.2 ((data_infix_body task texts transfer).trans hbody.isInfix)
  -- the tokens are there, but their text is empty
  refine ⟨rest.drop 4, hbody, ?_, ?_⟩
  · simp only [localInferSse, hrest, hdata, if_true, sseTokens_flatten, ne_eq, not_true_eq_false,
      if_false]
  · simp only [relaySse, hrest, hdata, Bool.or_true, if_true, sseTokens_flatten, ne_eq,
      not_true_eq_false, if_false]

theorem not_recovers_of_failed {response : RemoteBackend.ComputeResponse}
    (h : response.success = false) (texts : List Bytes) : ¬Recovers (some response) texts := by
  rintro ⟨other, hother, hsuccess, -⟩
  cases hother
  exact Bool.false_ne_true (h.symm.trans hsuccess)

/-- No streamed answer is recovered, by neither of the readers. -/
theorem stream_never_recovered (task : SseTask) (texts : List Bytes) (transfer : SseTransfer) :
    ¬Recovers ((localInferSse (transfer.responseData (task.chunks texts))).map
        (·.toComputeResponse)) texts ∧
      ¬Recovers (relaySse (transfer.responseData (task.chunks texts))) texts := by
  obtain ⟨jsonData, -, hlocal, hrelay⟩ := readers_fail task texts transfer
  rw [hlocal, hrelay]
  exact ⟨not_recovers_of_failed rfl texts, not_recovers_of_failed rfl texts⟩

/-- One piece of text, sent without a transfer coding. -/
theorem hello_not_recovered :
    ¬Recovers ((localInferSse (SseTransfer.responseData
        ⟨ascii "HTTP/1.1 200 OK", fun _ => [], fun _ => [], []⟩
        (SseTask.chunks ⟨1, 1700000000, ascii "model.gguf"⟩ [ascii "hello"]))).map
          (·.toComputeResponse)) [ascii "hello"] := by
  obtain ⟨jsonData, -, hlocal, -⟩ := readers_fail ⟨1, 1700000000, ascii "model.gguf"⟩
    [ascii "hello"] ⟨ascii "HTTP/1.1 200 OK", fun _ => [], fun _ => [], []⟩
  rw [hlocal]
  exact not_recovers_of_failed rfl _

end TKNC.Net
