import TKNC.Gateway.Stream

/-!
# Proxy — a request that the client's node forwards to a remote gateway

The callbacks of `ProxyCtx`.  The proxy reads status and encoding from the header block, passes the
body on, and charges for it in `ProxyFinishCleanup`.  The paths on which nothing has come from the
remote side delete the context themselves.
-/

namespace TKNC.Gateway

open Lib.MachineInt Lib.Numeral Lib.TextSearch List

inductive ProxyChunk where
  | size (line : Bytes)
  | data (left : Nat)
  | expectCrlf
  deriving DecidableEq

inductive RespState where
  | headers (headerBuf : Bytes)
  | plain
  | chunked (chunk : ProxyChunk)
  deriving DecidableEq

structure ProxyCtx where
  forwardRequest : Bytes
  apiKey : Bytes
  prompt : Bytes
  reservedCost : Int
  respState : RespState
  respStatus : Int
  responseBodyAccumulated : Bytes
  deriving DecidableEq

def ProxyCtx.responseStarted (ctx : ProxyCtx) : Bool :=
  match ctx.respState with
  | .headers _ => false
  | _ => true

def respStatusOf (headerBuf : Bytes) : Int :=
  match find [32] headerBuf with
  | some s => atoi ((s.drop 1).takeWhile (· ≠ 32))
  | none => 200

/-- The text cut at the line breaks; `line` is what was read of the current one. -/
def splitLines : Bytes → Bytes → List Bytes
  | line, [] => [line]
  | line, c :: rest =>
      if c = 10 ∧ line.getLast? = some 13 then line.dropLast :: splitLines [] rest
      else splitLines (line ++ [c]) rest

def lowerCase (c : UInt8) : UInt8 :=
  if 65 ≤ c.toNat ∧ c.toNat ≤ 90 then c + 32 else c

def hasHeaderWith (name text line : Bytes) : Bool :=
  match find [colon] line with
  | none => false
  | some value =>
      -- the name is compared as a C string
      let key := (line.takeWhile (· ≠ colon)).takeWhile (· ≠ 0)
      key.map lowerCase = name.map lowerCase && contains text ((value.drop 1).dropWhile isBlank)

def isChunkedResponse (headerBuf : Bytes) : Bool :=
  ((splitLines [] headerBuf).tail.takeWhile (· ≠ [])).any
    (hasHeaderWith (ascii "Transfer-Encoding") (ascii "chunked"))

example :
    isChunkedResponse (ascii "HTTP/1.1 200 OK\r\ntransfer-encoding: gzip, chunked\r\n\r\n") =
      true := by
  decide +kernel

/-! ## Reading the response -/

/-- What became of a context: `finished` when the last chunk was read. -/
structure Progress where
  ctx : ProxyCtx
  out : List Action
  finished : Bool

def proxyForward (ctx : ProxyCtx) (data : Bytes) : ProxyCtx × List Action :=
  ({ ctx with responseBodyAccumulated := ctx.responseBodyAccumulated ++ data }, [.forward data])

/-- One turn of the decoder; `none` at the last chunk. -/
def proxyDecodeByte (ctx : ProxyCtx) (chunk : ProxyChunk) (c : UInt8) (rest : Bytes) :
    Option (Turn (ProxyCtx × ProxyChunk)) :=
  match chunk with
  | .expectCrlf =>
      if c = 13 then some ⟨if rest.head? = some 10 then 1 else 0, (ctx, .size []), []⟩
      else if c = 10 then some ⟨0, (ctx, .size []), []⟩
      -- bytes between a chunk and its line break are dropped
      else some ⟨0, (ctx, .expectCrlf), []⟩
  | .size line =>
      let line := line ++ [c]
      if crlf.isSuffixOf line then
        match strtoul16 line with
        | 0 => none
        | left + 1 => some ⟨0, (ctx, .data left), []⟩
      else some ⟨0, (ctx, .size line), []⟩
  | .data left =>
      let toRead := min (rest.length + 1) (left + 1)
      let r := proxyForward ctx ((c :: rest).take toRead)
      let chunk :=
        if left + 1 - toRead = 0 then ProxyChunk.expectCrlf else ProxyChunk.data (left - toRead)
      some ⟨toRead - 1, (r.1, chunk), r.2⟩

def proxyDecode : Nat → ProxyCtx → ProxyChunk → Bytes → Progress
  | _, ctx, chunk, [] => ⟨{ ctx with respState := .chunked chunk }, [], false⟩
  | skip + 1, ctx, chunk, _ :: rest => proxyDecode skip ctx chunk rest
  | 0, ctx, chunk, c :: rest =>
      match proxyDecodeByte ctx chunk c rest with
      | none => ⟨{ ctx with respState := .chunked chunk }, [], true⟩
      | some turn =>
          let r := proxyDecode turn.skip turn.ctx.1 turn.ctx.2 rest
          ⟨r.ctx, turn.out ++ r.out, r.finished⟩

def proxyForwardBody (ctx : ProxyCtx) (data : Bytes) : Progress :=
  if data = [] then ⟨ctx, [], false⟩
  else
    match ctx.respState with
    | .chunked chunk => proxyDecode 0 ctx chunk data
    | _ => ⟨(proxyForward ctx data).1, (proxyForward ctx data).2, false⟩

def startResponse (ctx : ProxyCtx) (headerBuf : Bytes) : ProxyCtx :=
  { ctx with
    respStatus := respStatusOf headerBuf
    respState := if isChunkedResponse headerBuf then .chunked (.size []) else .plain }

def proxyReadHeaders (ctx : ProxyCtx) : Bytes → Bytes → Progress
  | headerBuf, [] => ⟨{ ctx with respState := .headers headerBuf }, [], false⟩
  | headerBuf, c :: rest =>
      let headerBuf := headerBuf ++ [c]
      if (crlf ++ crlf).isSuffixOf headerBuf then
        let ctx := startResponse ctx headerBuf
        let r := proxyForwardBody ctx rest
        ⟨r.ctx, .start ctx.respStatus :: r.out, r.finished⟩
      else proxyReadHeaders ctx headerBuf rest

def proxyProcessData (ctx : ProxyCtx) (data : Bytes) : Progress :=
  match ctx.respState with
  | .headers headerBuf => proxyReadHeaders ctx headerBuf data
  | _ => proxyForwardBody ctx data

def proxyReadPieces (ctx : ProxyCtx) : List Bytes → Progress
  | [] => ⟨ctx, [], false⟩
  | piece :: pieces =>
      let p := proxyProcessData ctx piece
      if p.finished then p
      else
        let r := proxyReadPieces p.ctx pieces
        ⟨r.ctx, p.out ++ r.out, r.finished⟩

def proxyRead (ctx : ProxyCtx) (segment : Bytes) : Progress :=
  proxyReadPieces ctx (segment.toChunks 16384)

def ProxyCtx.started (ctx : ProxyCtx) : List Int :=
  if ctx.responseStarted then [ctx.respStatus] else []

/-- Reading keeps the terms of the request, collects what it hands on, and starts the reply with the
status of the remote side. -/
structure ProxyCtx.Extends (ctx : ProxyCtx) (out : List Action) (ctx' : ProxyCtx) : Prop where
  apiKey : ctx'.apiKey = ctx.apiKey
  reservedCost : ctx'.reservedCost = ctx.reservedCost
  body : ctx'.responseBodyAccumulated = ctx.responseBodyAccumulated ++ forwarded out
  started : ctx'.started = ctx.started ++ starts out
  quiet : Quiet out

theorem ProxyCtx.Extends.trans {ctx ctx' ctx'' : ProxyCtx} {out out' : List Action}
    (h : ctx.Extends out ctx') (h' : ctx'.Extends out' ctx'') : ctx.Extends (out ++ out') ctx'' where
  apiKey := h'.apiKey.trans h.apiKey
  reservedCost := h'.reservedCost.trans h.reservedCost
  body := by rw [h'.body, h.body, forwarded_append, append_assoc]
  started := by rw [h'.started, h.started, starts_append, append_assoc]
  quiet := h.quiet.append h'.quiet

def ProxyCtx.inBody (ctx : ProxyCtx) (chunk : ProxyChunk) : ProxyCtx :=
  { ctx with respState := .chunked chunk }

theorem ProxyCtx.Extends.refl (ctx : ProxyCtx) : ctx.Extends [] ctx where
  apiKey := rfl
  reservedCost := rfl
  body := (append_nil _).symm
  started := (append_nil _).symm
  quiet := quiet_nil

theorem proxyForward_extends (ctx : ProxyCtx) (data : Bytes) :
    ctx.Extends (proxyForward ctx data).2 (proxyForward ctx data).1 where
  apiKey := rfl
  reservedCost := rfl
  body := by simp [proxyForward, forwarded]
  started := (append_nil _).symm
  quiet := quiet_forward data

variable {ctx : ProxyCtx}

theorem proxyDecodeByte_extends {chunk : ProxyChunk} {c : UInt8} {rest : Bytes}
    {turn : Turn (ProxyCtx × ProxyChunk)} (h : proxyDecodeByte ctx chunk c rest = some turn) :
    (ctx.inBody chunk).Extends turn.out (turn.ctx.1.inBody turn.ctx.2) := by
  have hstay (chunk' : ProxyChunk) : (ctx.inBody chunk).Extends [] (ctx.inBody chunk') :=
    ⟨rfl, rfl, (append_nil _).symm, rfl, quiet_nil⟩
  unfold proxyDecodeByte at h
  split at h
  · split at h
    · cases h
      exact hstay _
    split at h
    · cases h
      exact hstay _
    · cases h
      exact hstay _
  · dsimp only at h
    split at h
    · split at h
      · cases h
      · cases h
        exact hstay _
    · cases h
      exact hstay _
  · rename_i left
    cases h
    have hforward := proxyForward_extends ctx
      ((c :: rest).take (min (rest.length + 1) (left + 1)))
    exact ⟨hforward.apiKey, hforward.reservedCost, hforward.body, rfl, hforward.quiet⟩

theorem proxyDecode_extends (skip : Nat) (ctx : ProxyCtx) (chunk : ProxyChunk) (data : Bytes) :
    (ctx.inBody chunk).Extends (proxyDecode skip ctx chunk data).out
      (proxyDecode skip ctx chunk data).ctx := by
  induction data generalizing skip ctx chunk with
  | nil =>
    cases skip <;> exact ProxyCtx.Extends.refl _
  | cons c rest ih =>
    cases skip with
    | succ skip => exact ih skip ctx chunk
    | zero =>
      rw [proxyDecode]
      split
      · exact ProxyCtx.Extends.refl _
      · rename_i turn hturn
        exact (proxyDecodeByte_extends hturn).trans (ih turn.skip turn.ctx.1 turn.ctx.2)

theorem proxyForwardBody_extends (ctx : ProxyCtx) (data : Bytes) :
    ctx.Extends (proxyForwardBody ctx data).out (proxyForwardBody ctx data).ctx := by
  unfold proxyForwardBody
  split
  · exact ProxyCtx.Extends.refl ctx
  split
  · rename_i chunk hstate
    have hsame : ctx.inBody chunk = ctx := by rw [ProxyCtx.inBody, ← hstate]
    have hread := proxyDecode_extends 0 ctx chunk data
    rw [hsame] at hread
    exact hread
  · exact proxyForward_extends ctx data

theorem startResponse_extends (h : ctx.responseStarted = false) (headerBuf : Bytes) :
    ctx.Extends [.start (startResponse ctx headerBuf).respStatus] (startResponse ctx headerBuf) := by
  have hstarted : (startResponse ctx headerBuf).responseStarted = true := by
    rw [startResponse, ProxyCtx.responseStarted]
    cases isChunkedResponse headerBuf <;> rfl
  refine ⟨rfl, rfl, (append_nil _).symm, ?_, ⟨rfl, rfl⟩⟩
  rw [ProxyCtx.started, ProxyCtx.started, h, hstarted]
  rfl

theorem proxyReadHeaders_extends (h : ctx.responseStarted = false) (headerBuf data : Bytes) :
    ctx.Extends (proxyReadHeaders ctx headerBuf data).out
      (proxyReadHeaders ctx headerBuf data).ctx := by
  induction data generalizing headerBuf with
  | nil =>
    refine ⟨rfl, rfl, (append_nil _).symm, ?_, quiet_nil⟩
    rw [ProxyCtx.started, ProxyCtx.started, h]
    rfl
  | cons c rest ih =>
    rw [proxyReadHeaders]
    dsimp only
    split
    · exact (startResponse_extends h _).trans (proxyForwardBody_extends _ rest)
    · exact ih _

theorem proxyProcessData_extends (ctx : ProxyCtx) (data : Bytes) :
    ctx.Extends (proxyProcessData ctx data).out (proxyProcessData ctx data).ctx := by
  unfold proxyProcessData
  split
  · rename_i headerBuf hstate
    have hstarted : ctx.responseStarted = false := by rw [ProxyCtx.responseStarted, hstate]
    exact proxyReadHeaders_extends hstarted headerBuf data
  · exact proxyForwardBody_extends ctx data

theorem proxyReadPieces_extends (ctx : ProxyCtx) (pieces : List Bytes) :
    ctx.Extends (proxyReadPieces ctx pieces).out (proxyReadPieces ctx pieces).ctx := by
  induction pieces generalizing ctx with
  | nil => exact ProxyCtx.Extends.refl ctx
  | cons piece pieces ih =>
    have hpiece := proxyProcessData_extends ctx piece
    rw [proxyReadPieces]
    dsimp only
    split
    · exact hpiece
    · exact hpiece.trans (ih _)

theorem proxyRead_extends (ctx : ProxyCtx) (segment : Bytes) :
    ctx.Extends (proxyRead ctx segment).out (proxyRead ctx segment).ctx :=
  proxyReadPieces_extends ctx _

/-! ## Settling the request -/

def proxyTokensUsed (ctx : ProxyCtx) : Int :=
  let tokens := wrap 32 (wrap 32 (ctx.prompt.length / 4 : Nat) +
    wrap 32 (deltaCount ctx.responseBodyAccumulated))
  if tokens < 1 then 1 else tokens

def proxyCharge (ctx : ProxyCtx) : List Action :=
  let body := ctx.responseBodyAccumulated
  if ctx.apiKey ≠ [] ∧ body ≠ [] ∧ ctx.respStatus ≥ 200 ∧ ctx.respStatus < 300 then
    let minerError := hasErrorMarker body || wrap 32 (deltaCount body) = 0
    if proxyTokensUsed ctx > 0 ∧ minerError = false then
      [.charge (.checkAndDeductEscrow ctx.apiKey (proxyTokensUsed ctx))]
    else []
  else []

def proxyFinishCleanup (ctx : ProxyCtx) (clientDisconnected : Bool) : List Action :=
  proxyCharge ctx ++ releaseReserved ctx.apiKey ctx.reservedCost ++
    (if clientDisconnected = false ∧ ctx.responseStarted then [.finish] else [])

theorem one_le_proxyTokensUsed (ctx : ProxyCtx) : 1 ≤ proxyTokensUsed ctx := by
  unfold proxyTokensUsed
  dsimp only
  split <;> omega

/-- When a response of a key is charged for. -/
def ProxyCtx.Chargeable (ctx : ProxyCtx) : Prop :=
  hasErrorMarker ctx.responseBodyAccumulated = false ∧
    wrap 32 (deltaCount ctx.responseBodyAccumulated) ≠ 0

theorem charges_proxyCharge (hkey : ctx.apiKey ≠ []) (hbody : ctx.responseBodyAccumulated ≠ [])
    (hstatus : 200 ≤ ctx.respStatus ∧ ctx.respStatus < 300) :
    (ctx.Chargeable → charges (proxyCharge ctx) =
        [.checkAndDeductEscrow ctx.apiKey (proxyTokensUsed ctx)]) ∧
      (¬ ctx.Chargeable → charges (proxyCharge ctx) = []) := by
  have htokens : proxyTokensUsed ctx > 0 := one_le_proxyTokensUsed ctx
  have hcondition : ctx.apiKey ≠ [] ∧ ctx.responseBodyAccumulated ≠ [] ∧ ctx.respStatus ≥ 200 ∧
      ctx.respStatus < 300 := ⟨hkey, hbody, hstatus⟩
  simp only [proxyCharge, if_pos hcondition, ProxyCtx.Chargeable, htokens, true_and,
    Bool.or_eq_false_iff, decide_eq_false_iff_not]
  constructor
  · intro hclean
    rw [if_pos hclean]
    rfl
  · intro hdirty
    rw [if_neg hdirty]
    rfl

theorem releases_proxyCharge (ctx : ProxyCtx) : releases (proxyCharge ctx) = [] := by
  unfold proxyCharge
  dsimp only
  split
  · split <;> rfl
  · rfl

theorem releases_proxyFinish (ctx : ProxyCtx) (clientDisconnected : Bool) :
    releases (proxyFinishCleanup ctx clientDisconnected) =
      releases (releaseReserved ctx.apiKey ctx.reservedCost) := by
  have hend : releases (if clientDisconnected = false ∧ ctx.responseStarted then
      [Action.finish] else []) = [] := by
    split <;> rfl
  rw [proxyFinishCleanup, releases_append, releases_append, releases_proxyCharge, hend,
    nil_append, append_nil]

theorem charges_proxyFinish (ctx : ProxyCtx) (clientDisconnected : Bool) :
    charges (proxyFinishCleanup ctx clientDisconnected) = charges (proxyCharge ctx) := by
  have hend : charges (if clientDisconnected = false ∧ ctx.responseStarted then
      [Action.finish] else []) = [] := by
    split <;> rfl
  rw [proxyFinishCleanup, charges_append, charges_append, charges_releaseReserved, hend,
    append_nil, append_nil]

theorem forwarded_proxyFinish (ctx : ProxyCtx) (clientDisconnected : Bool) :
    forwarded (proxyFinishCleanup ctx clientDisconnected) = [] ∧
      starts (proxyFinishCleanup ctx clientDisconnected) = [] := by
  have hcharge : forwarded (proxyCharge ctx) = [] ∧ starts (proxyCharge ctx) = [] := by
    unfold proxyCharge
    dsimp only
    split
    · split <;> exact ⟨rfl, rfl⟩
    · exact ⟨rfl, rfl⟩
  have hrelease : forwarded (releaseReserved ctx.apiKey ctx.reservedCost) = [] ∧
      starts (releaseReserved ctx.apiKey ctx.reservedCost) = [] := by
    unfold releaseReserved
    split <;> exact ⟨rfl, rfl⟩
  rw [proxyFinishCleanup, forwarded_append, forwarded_append, starts_append, starts_append,
    hcharge.1, hcharge.2, hrelease.1, hrelease.2]
  split <;> exact ⟨rfl, rfl⟩

/-! ## Callbacks -/

def proxyError (message : String) : Bytes :=
  ascii "\x7b\"error\":\x7b\"message\":\"" ++ ascii message ++
    ascii "\",\"type\":\"proxy_error\"\x7d\x7d"

/-- Before the response has started, the end of the remote side deletes the context on the spot. -/
def proxyReact (ctx : ProxyCtx) : Event → Option ProxyCtx × List Action
  | .setup _ => (some ctx, [])
  | .connected => (some ctx, [.request ctx.forwardRequest])
  | .data segment =>
      let p := proxyRead ctx segment
      if p.finished then (none, p.out ++ proxyFinishCleanup p.ctx false) else (some p.ctx, p.out)
  | .ended =>
      if ctx.responseStarted then (none, proxyFinishCleanup ctx false)
      -- not through `ProxyFinishCleanup`, which would release the reservation
      else (none, [.reply 502 (proxyError "Remote server unreachable")])
  | .clientClose => (none, proxyFinishCleanup ctx true)
  | .keepalive => (some ctx, [])

def proxyConnect (ctx : ProxyCtx) (setup : Setup) : Option ProxyCtx × List Action :=
  match setup with
  -- both failures delete the context and leave its reservation
  | .noBufferevent => (none, [.reply 500 (proxyError "Internal proxy error")])
  | .noConnection => (none, [.reply 502 (proxyError "Cannot connect to remote server")])
  | .connecting => (some ctx, [])

end TKNC.Gateway
