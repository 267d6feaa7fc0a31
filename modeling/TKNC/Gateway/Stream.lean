import TKNC.Gateway.Http

/-!
# Stream — a request that the gateway forwards to a miner

The callbacks of `StreamContext`: the response of the miner is decoded from its chunks and passed on
as it arrives, and `StreamFinishAndCleanup` settles the request when either side is done.  The
context is always deleted by `StreamSafeDelete`.
-/

namespace TKNC.Gateway

open Lib.MachineInt Lib.Numeral Lib.TextSearch

/-- State of the chunk decoder with the line it is reading.  There are `left + 1` bytes of the chunk
to come in `data`; a body that is not chunked is `raw`. -/
inductive ChunkState where
  | headers (line : Bytes)
  | length (line : Bytes)
  | data (left : Nat)
  | raw
  | trailer
  | done
  deriving DecidableEq

structure StreamContext where
  chatId : Bytes
  model : Bytes
  created : Int
  minerHttpRequest : Bytes
  apiKey : Bytes
  prompt : Bytes
  skipBilling : Bool
  reservedCost : Int
  minerResponseAccumulated : Bytes
  chunkState : ChunkState
  sseForwarded : Bool
  nodeOutputTokenCount : Int
  outputContentAccumulated : Bytes
  deriving DecidableEq

/-! ## Reading the response -/

def streamForwardToClient (ctx : StreamContext) (data : Bytes) : StreamContext × List Action :=
  if data = [] then (ctx, [])
  else
    ({ ctx with
        nodeOutputTokenCount := wrap 32 (ctx.nodeOutputTokenCount + deltaCount data)
        outputContentAccumulated := ctx.outputContentAccumulated ++
          (contentDeltas data).flatMap
            (fun tail => if quote ∈ tail then tail.takeWhile (· ≠ quote) else [])
        sseForwarded := true },
      [.forward data])

def isChunkedHeader (header : Bytes) : Bool :=
  contains (ascii "Transfer-Encoding: chunked") header ||
    contains (ascii "Transfer-Encoding:  chunked") header

/-- What one turn of the decoder does: the bytes it takes beyond the current one, the context and
the actions. -/
structure Turn (κ : Type) where
  skip : Nat
  ctx : κ
  out : List Action

def decodeByte (ctx : StreamContext) (c : UInt8) (rest : Bytes) : Turn StreamContext :=
  match ctx.chunkState with
  | .headers line =>
      let line := line ++ [c]
      let state :=
        if (crlf ++ crlf).isSuffixOf line then
          if isChunkedHeader line then ChunkState.length [] else ChunkState.raw
        else ChunkState.headers line
      ⟨0, { ctx with chunkState := state }, []⟩
  | .length line =>
      if c = 13 then ⟨0, ctx, []⟩
      else if c = 10 then
        match strtoul16 line with
        -- the last chunk, or a line that is no number
        | 0 => ⟨0, { ctx with chunkState := .done }, []⟩
        | left + 1 => ⟨0, { ctx with chunkState := .data left }, []⟩
      else ⟨0, { ctx with chunkState := .length (line ++ [c]) }, []⟩
  | .data left =>
      -- as much of the chunk as the segment has
      let avail := min (rest.length + 1) (left + 1)
      let r := streamForwardToClient ctx ((c :: rest).take avail)
      let state :=
        if left + 1 - avail = 0 then ChunkState.trailer else ChunkState.data (left - avail)
      ⟨avail - 1, { r.1 with chunkState := state }, r.2⟩
  | .raw =>
      -- without chunks the body ends with the connection
      let r := streamForwardToClient ctx (c :: rest)
      ⟨rest.length, r.1, r.2⟩
  | .trailer => ⟨0, if c = 10 then { ctx with chunkState := .length [] } else ctx, []⟩
  | .done => ⟨0, ctx, []⟩

def decode : Nat → StreamContext → Bytes → StreamContext × List Action
  | _, ctx, [] => (ctx, [])
  | skip + 1, ctx, _ :: rest => decode skip ctx rest
  | 0, ctx, c :: rest =>
      let turn := decodeByte ctx c rest
      let r := decode turn.skip turn.ctx rest
      (r.1, turn.out ++ r.2)

def streamMinerRead (ctx : StreamContext) (data : Bytes) : StreamContext × List Action :=
  decode 0 { ctx with minerResponseAccumulated := ctx.minerResponseAccumulated ++ data } data

/-- Reading keeps the terms of the request, and only hands data on. -/
structure StreamContext.Extends (ctx : StreamContext) (out : List Action) (ctx' : StreamContext) :
    Prop where
  apiKey : ctx'.apiKey = ctx.apiKey
  prompt : ctx'.prompt = ctx.prompt
  skipBilling : ctx'.skipBilling = ctx.skipBilling
  reservedCost : ctx'.reservedCost = ctx.reservedCost
  quiet : Quiet out

theorem StreamContext.Extends.trans {ctx ctx' ctx'' : StreamContext} {out out' : List Action}
    (h : ctx.Extends out ctx') (h' : ctx'.Extends out' ctx'') : ctx.Extends (out ++ out') ctx'' where
  apiKey := h'.apiKey.trans h.apiKey
  prompt := h'.prompt.trans h.prompt
  skipBilling := h'.skipBilling.trans h.skipBilling
  reservedCost := h'.reservedCost.trans h.reservedCost
  quiet := h.quiet.append h'.quiet

theorem streamForwardToClient_extends (ctx : StreamContext) (data : Bytes) :
    ctx.Extends (streamForwardToClient ctx data).2 (streamForwardToClient ctx data).1 := by
  unfold streamForwardToClient
  split
  · exact ⟨rfl, rfl, rfl, rfl, quiet_nil⟩
  · exact ⟨rfl, rfl, rfl, rfl, quiet_forward data⟩

theorem decodeByte_extends (ctx : StreamContext) (c : UInt8) (rest : Bytes) :
    ctx.Extends (decodeByte ctx c rest).out (decodeByte ctx c rest).ctx := by
  unfold decodeByte
  split
  · exact ⟨rfl, rfl, rfl, rfl, quiet_nil⟩
  · split
    · exact ⟨rfl, rfl, rfl, rfl, quiet_nil⟩
    split
    · split
      · exact ⟨rfl, rfl, rfl, rfl, quiet_nil⟩
      · exact ⟨rfl, rfl, rfl, rfl, quiet_nil⟩
    · exact ⟨rfl, rfl, rfl, rfl, quiet_nil⟩
  · rename_i left _
    have hforward := streamForwardToClient_extends ctx
      ((c :: rest).take (min (rest.length + 1) (left + 1)))
    exact ⟨hforward.apiKey, hforward.prompt, hforward.skipBilling, hforward.reservedCost,
      hforward.quiet⟩
  · exact streamForwardToClient_extends ctx (c :: rest)
  · dsimp only
    split
    · exact ⟨rfl, rfl, rfl, rfl, quiet_nil⟩
    · exact ⟨rfl, rfl, rfl, rfl, quiet_nil⟩
  · exact ⟨rfl, rfl, rfl, rfl, quiet_nil⟩

theorem decode_extends (skip : Nat) (ctx : StreamContext) (data : Bytes) :
    ctx.Extends (decode skip ctx data).2 (decode skip ctx data).1 := by
  -- along the segment; the bytes that a turn has taken are passed over one by one
  induction data generalizing skip ctx with
  | nil =>
    cases skip <;> exact ⟨rfl, rfl, rfl, rfl, quiet_nil⟩
  | cons c rest ih =>
    cases skip with
    | succ skip => exact ih skip ctx
    | zero =>
      have hbyte := decodeByte_extends ctx c rest
      exact hbyte.trans (ih (decodeByte ctx c rest).skip (decodeByte ctx c rest).ctx)

theorem streamMinerRead_extends (ctx : StreamContext) (data : Bytes) :
    ctx.Extends (streamMinerRead ctx data).2 (streamMinerRead ctx data).1 := by
  have hread := decode_extends 0
    { ctx with minerResponseAccumulated := ctx.minerResponseAccumulated ++ data } data
  exact ⟨hread.apiKey, hread.prompt, hread.skipBilling, hread.reservedCost, hread.quiet⟩

/-! ## Settling the request -/

def minerBody (ctx : StreamContext) : Bytes :=
  match find (crlf ++ crlf) ctx.minerResponseAccumulated with
  | some s => s.drop 4
  | none => ctx.minerResponseAccumulated

def settledContent (ctx : StreamContext) : Bytes :=
  let body := minerBody ctx
  let content := getString body (ascii "response")
  let content := if content = [] then getString body (ascii "content") else content
  if content ≠ [] then content
  else if ctx.outputContentAccumulated ≠ [] then ctx.outputContentAccumulated
  else if contains (ascii "\"error\"") body then
    let message := getString body (ascii "error")
    ascii "[Error: " ++ (if message = [] then ascii "Miner error" else message) ++ ascii "]"
  else ascii "[Miner returned empty response]"

def reportedCount (body key : Bytes) : Int :=
  match valueOf body key with
  | some s => atoi s
  | none => 0

def roundDouble (x : Nat) : Nat :=
  let shift := x.log2 - 52
  let unit := 2 ^ shift
  let q := x / unit
  let up := 2 * (x % unit) > unit ∨ (2 * (x % unit) = unit ∧ q % 2 = 1)
  if up then (q + 1) * unit else q * unit

def truncatedProduct (n : Int) (mantissa exponent : Nat) : Int :=
  (roundDouble (n.toNat * mantissa) / 2 ^ exponent : Nat)

/-- The cast of a product that is no `int` gives the least one, as the conversion of the processor
does; the language leaves it open. -/
def upperTolerance (nodeCount : Int) : Int :=
  let product := truncatedProduct nodeCount 5854679515581645 52
  if product < 2147483648 then product else -2147483648

def lowerTolerance (nodeCount : Int) : Int :=
  truncatedProduct nodeCount 6305039478318694 53

def verifiedCompletionTokens (nodeCount completionTokens : Int) : Int :=
  if nodeCount > 0 then
    if completionTokens > 0 then
      if completionTokens > upperTolerance nodeCount then nodeCount
      else if completionTokens < lowerTolerance nodeCount then nodeCount
      else completionTokens
    else nodeCount
  else completionTokens

def streamTokensUsed (ctx : StreamContext) : Int :=
  let body := minerBody ctx
  let content := settledContent ctx
  let completion := verifiedCompletionTokens ctx.nodeOutputTokenCount
    (reportedCount body (ascii "completion_tokens"))
  let tokens := wrap 32 (reportedCount body (ascii "prompt_tokens") + completion)
  let tokens :=
    if tokens = 0 then
      -- four bytes a token; an answer that starts with a bracket is one of the node
      let estimate :=
        if content ≠ [] ∧ content.head? ≠ some 91 then wrap 32 (content.length / 4 : Nat) else 0
      if estimate = 0 then wrap 32 (ctx.prompt.length / 4 : Nat) else estimate
    else tokens
  if tokens < 1 then 1 else tokens

def streamCharge (ctx : StreamContext) : List Action :=
  let tokens := streamTokensUsed ctx
  let content := settledContent ctx
  if ctx.apiKey ≠ [] ∧ tokens > 0 ∧ content ≠ [] ∧ hasErrorMarker content = false then
    if ctx.skipBilling then [.charge (.trackMinerServedTokens ctx.apiKey tokens)]
    else [.charge (.checkAndDeductEscrow ctx.apiKey tokens)]
  else []

def releaseReserved (apiKey : Bytes) (reservedCost : Int) : List Action :=
  if reservedCost > 0 ∧ apiKey ≠ [] then [.release apiKey reservedCost] else []

def sseChunk (ctx : StreamContext) (choice : Bytes) : Bytes :=
  ascii "data: \x7b\"id\":\"" ++ ctx.chatId ++ ascii "\",\"object\":\"chat.completion.chunk\"," ++
    ascii "\"created\":" ++ toString64 ctx.created ++ ascii ",\"model\":\"" ++ ctx.model ++
    ascii "\",\"choices\":[\x7b\"index\":0,\"delta\":\x7b" ++ choice ++ ascii "\x7d]\x7d\n\n"

/-- The rest of the reply: nothing more if data of the miner went through, or else the answer in
chunks of the node's own. -/
def streamReply (ctx : StreamContext) : List Action :=
  if ctx.sseForwarded then [.finish]
  else
    [.chunk (sseChunk ctx (ascii "\"content\":\"" ++ jsonEscape (settledContent ctx) ++
        ascii "\"\x7d,\"finish_reason\":null")),
      .chunk (sseChunk ctx (ascii "\x7d,\"finish_reason\":\"stop\"") ++ ascii "data: [DONE]\n\n"),
      .finish]

def streamFinishAndCleanup (ctx : StreamContext) (clientDisconnected : Bool) : List Action :=
  -- a client that is gone gets no reply, and no charge either
  if clientDisconnected then releaseReserved ctx.apiKey ctx.reservedCost
  else streamCharge ctx ++ releaseReserved ctx.apiKey ctx.reservedCost ++ streamReply ctx

theorem settledContent_ne_nil (ctx : StreamContext) : settledContent ctx ≠ [] := by
  unfold settledContent
  extract_lets body response content
  split
  · assumption
  split
  · assumption
  split
  · exact List.append_ne_nil_of_right_ne_nil _ (by decide +kernel)
  · decide +kernel

theorem one_le_streamTokensUsed (ctx : StreamContext) : 1 ≤ streamTokensUsed ctx := by
  unfold streamTokensUsed
  dsimp only
  split <;> omega

/-- A settled request of a key is charged unless its content has a marker. -/
theorem streamCharge_eq {ctx : StreamContext} (hkey : ctx.apiKey ≠ []) :
    streamCharge ctx =
      if hasErrorMarker (settledContent ctx) then []
      else [.charge (if ctx.skipBilling then
        .trackMinerServedTokens ctx.apiKey (streamTokensUsed ctx)
        else .checkAndDeductEscrow ctx.apiKey (streamTokensUsed ctx))] := by
  have htokens : streamTokensUsed ctx > 0 := one_le_streamTokensUsed ctx
  have hcontent := settledContent_ne_nil ctx
  cases hmarker : hasErrorMarker (settledContent ctx) <;> cases hskip : ctx.skipBilling <;>
    simp [streamCharge, hkey, htokens, hcontent, hmarker, hskip]

theorem releases_releaseReserved (apiKey : Bytes) (cost : Int) :
    releases (releaseReserved apiKey cost) =
      if cost > 0 ∧ apiKey ≠ [] then [(apiKey, cost)] else [] := by
  unfold releaseReserved
  split <;> rfl

theorem charges_releaseReserved (apiKey : Bytes) (cost : Int) :
    charges (releaseReserved apiKey cost) = [] := by
  unfold releaseReserved
  split <;> rfl

theorem releases_streamCharge (ctx : StreamContext) : releases (streamCharge ctx) = [] := by
  unfold streamCharge
  dsimp only
  split
  · split <;> rfl
  · rfl

theorem quiet_streamReply (ctx : StreamContext) : Quiet (streamReply ctx) := by
  unfold streamReply
  split <;> exact ⟨rfl, rfl⟩

theorem releases_streamFinish (ctx : StreamContext) (clientDisconnected : Bool) :
    releases (streamFinishAndCleanup ctx clientDisconnected) =
      releases (releaseReserved ctx.apiKey ctx.reservedCost) := by
  cases clientDisconnected with
  | true => rfl
  | false =>
    simp only [streamFinishAndCleanup, Bool.false_eq_true, if_false, releases_append,
      releases_streamCharge, (quiet_streamReply ctx).1, List.nil_append, List.append_nil]

/-! ## Callbacks -/

def streamReact (ctx : StreamContext) : Event → Option StreamContext × List Action
  | .setup _ => (some ctx, [])
  | .connected => (some ctx, [.request ctx.minerHttpRequest])
  | .data segment => (some (streamMinerRead ctx segment).1, (streamMinerRead ctx segment).2)
  | .ended => (none, streamFinishAndCleanup ctx false)
  | .clientClose => (none, streamFinishAndCleanup ctx true)
  | .keepalive => (some ctx, if ctx.sseForwarded then [] else [.chunk (ascii ": keepalive\n\n")])

def httpPostToMinerProgressive (ctx : StreamContext) (setup : Setup) :
    Option StreamContext × List Action :=
  let failed (message : String) : Option StreamContext × List Action :=
    (none, [.start 200, .chunk (ascii "data: \x7b\"error\":\"" ++ ascii message ++
      ascii "\"\x7d\n\ndata: [DONE]\n\n"), .finish] ++
      releaseReserved ctx.apiKey ctx.reservedCost)
  match setup with
  | .noBufferevent => failed "Internal error"
  | .noConnection => failed "Cannot connect to miner"
  | .connecting => (some ctx, [.start 200])

end TKNC.Gateway
