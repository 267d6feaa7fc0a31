import TKNC.Lib.Wire

/-!
# ApiProtocol — the APIREQ and APIRESP payloads

The encoders and decoders of inference requests and responses.  Strings are written as a `size_t`
and their bytes, numbers in the byte order of the host, which is little-endian.

The encoder of requests does not advance its position over the signature, so that the token limit is
written over the first bytes of the signature: what it writes is the encoding of another request
(`serialize_eq_encode`), and `serialize_roundtrip_iff` says for which requests it is the same one.
-/

namespace TKNC.Net

open Lib Lib.ByteOrder Lib.ByteOrder.Word Lib.Numeral List UInt64

structure ChatMessage where
  role : Bytes
  content : Bytes
  deriving DecidableEq

structure APIRequest where
  apiKey : Bytes
  model : Bytes
  modelHash : Bytes
  messages : List ChatMessage
  nonce : UInt64
  requestId : UInt64
  signature : Bytes
  maxTokens : Int32
  deriving DecidableEq

structure APIResponse where
  content : Bytes
  promptTokens : Int32
  completionTokens : Int32
  tokensUsed : Int32
  cost : Int64
  requestId : UInt64
  signature : Bytes
  deriving DecidableEq

def APIRequest.serialize (r : APIRequest) : Bytes :=
  let w := Writer.atEnd []
  let w := ((w.putString r.apiKey).putString r.model).putString r.modelHash
  let w := w.putWord u32 (UInt32.ofNat r.messages.length)
  let w := r.messages.foldl (fun w msg => (w.putString msg.role).putString msg.content) w
  let w := (w.putWord u64 r.nonce).putWord u64 r.requestId
  let w := ((w.grow (8 + r.signature.length)).copy
    (u64.encode (UInt64.ofNat r.signature.length))).advance 8
  -- the position stays in front of the signature
  let w := w.copy r.signature
  let w := (w.grow 4).copy (i32.encode r.maxTokens)
  w.data

def APIResponse.serialize (r : APIResponse) : Bytes :=
  let w := (Writer.atEnd []).putString r.content
  let w := ((w.putWord i32 r.promptTokens).putWord i32 r.completionTokens).putWord i32 r.tokensUsed
  let w := (w.putWord i64 r.cost).putWord u64 r.requestId
  -- the source does not advance over this last string, and writes nothing behind it
  (w.putString r.signature).data

/-! ## Decoders -/

def string : Reader Bytes :=
  .lengthPrefixed u64 UInt64.toNat

def ChatMessage.readMany : Nat → Reader (List ChatMessage)
  | 0 => pure []
  | count + 1 => do
      let role ← string
      let content ← string
      let messages ← readMany count
      pure ({ role, content } :: messages)

def APIRequest.read : Reader APIRequest := do
  .atLeast (8 * 3 + 4 + 8)
  let apiKey ← string
  let model ← string
  let modelHash ← string
  let msgCount ← .word u32
  let messages ← ChatMessage.readMany msgCount.toNat
  let nonce ← .word u64
  let requestId ← .word u64
  let signature ← string
  let maxTokens ← .optionalWord i32 0
  pure { apiKey, model, modelHash, messages, nonce, requestId, signature, maxTokens }

def APIRequest.deserialize (data : Bytes) : Except Fault APIRequest :=
  APIRequest.read.decode data

def APIResponse.readTokens (remaining : Nat) : Reader (Int32 × Int32 × Int32) :=
  if 4 * 3 + 8 + 8 + 8 ≤ remaining then do
    let promptTokens ← .word i32
    let completionTokens ← .word i32
    let tokensUsed ← .word i32
    pure (promptTokens, completionTokens, tokensUsed)
  else if 4 + 8 + 8 + 8 ≤ remaining then do
    let tokensUsed ← .word i32
    pure (0, 0, tokensUsed)
  else do
    .require false
    pure (0, 0, 0)

def APIResponse.read : Reader APIResponse := do
  .atLeast (8 + 4 * 3 + 8)
  let content ← string
  let remaining ← .remaining
  let (promptTokens, completionTokens, tokensUsed) ← APIResponse.readTokens remaining
  let cost ← .word i64
  let requestId ← .word u64
  let signature ← string
  pure { content, promptTokens, completionTokens, tokensUsed, cost, requestId, signature }

def APIResponse.deserialize (data : Bytes) : Except Fault APIResponse :=
  APIResponse.read.decode data

/-! ## Layouts -/

def encodeString (bs : Bytes) : Bytes :=
  u64.encode (UInt64.ofNat bs.length) ++ bs

@[simp]
theorem length_encodeString (bs : Bytes) : (encodeString bs).length = 8 + bs.length := by
  simp [encodeString]

def ChatMessage.encode (msg : ChatMessage) : Bytes :=
  encodeString msg.role ++ encodeString msg.content

def APIRequest.encode (r : APIRequest) : Bytes :=
  encodeString r.apiKey ++ (encodeString r.model ++ (encodeString r.modelHash ++
    (u32.encode (UInt32.ofNat r.messages.length) ++ (r.messages.flatMap ChatMessage.encode ++
      (u64.encode r.nonce ++ (u64.encode r.requestId ++ (encodeString r.signature ++
        i32.encode r.maxTokens)))))))

def APIResponse.encodeTail (r : APIResponse) : Bytes :=
  i64.encode r.cost ++ (u64.encode r.requestId ++ encodeString r.signature)

def APIResponse.encode (r : APIResponse) : Bytes :=
  encodeString r.content ++ ((i32.encode r.promptTokens ++ (i32.encode r.completionTokens ++
    i32.encode r.tokensUsed)) ++ r.encodeTail)

def APIResponse.encodeOld (r : APIResponse) : Bytes :=
  encodeString r.content ++ (i32.encode r.tokensUsed ++ r.encodeTail)

/-- The bytes behind the signature's length: the limit stands over the first bytes of the signature,
and the last four bytes are the zeros the vector was grown by. -/
def APIRequest.tail (r : APIRequest) : Bytes :=
  i32.encode r.maxTokens ++ (r.signature ++ List.replicate 4 0).drop 4

def APIRequest.written (r : APIRequest) : APIRequest :=
  { r with
    signature := r.tail.take r.signature.length
    maxTokens := i32.decode (r.tail.drop r.signature.length) }

theorem foldl_putMessage (messages : List ChatMessage) (data : Bytes) :
    messages.foldl (fun w msg => (w.putString msg.role).putString msg.content)
        (Writer.atEnd data) =
      Writer.atEnd (data ++ messages.flatMap ChatMessage.encode) := by
  induction messages generalizing data with
  | nil => simp
  | cons msg messages ih =>
    simp [ih, ChatMessage.encode, encodeString]

namespace APIRequest

variable (r : APIRequest)

theorem length_tail : r.tail.length = r.signature.length + 4 := by
  simp only [tail, length_append, length_encode, width_i32, length_drop,
    length_replicate]
  omega

/-- Split at the length of the signature, the last bytes are the limit that is read back. -/
theorem tail_eq : r.tail = r.written.signature ++ i32.encode r.written.maxTokens := by
  have hlast : (r.tail.drop r.signature.length).length = i32.width := by
    rw [length_drop, r.length_tail, Nat.add_sub_cancel_left, width_i32]
  simp only [written, i32.encode_decode _ hlast, take_append_drop]

theorem copy_limit (front : Bytes) :
    ((({ data := front ++ replicate r.signature.length 0, pos := front.length } :
      Writer).copy r.signature).grow 4).copy (i32.encode r.maxTokens) =
        { data := front ++ r.tail, pos := front.length } := by
  have hhole : ((r.signature ++ replicate 4 0).take 4).length =
      (i32.encode r.maxTokens).length := by
    simp only [length_encode, width_i32, length_take, length_append,
      length_replicate]
    omega
  have hcopy := Writer.copy_append front hhole ((r.signature ++ replicate 4 0).drop 4)
  rw [take_append_drop] at hcopy
  rw [Writer.copy_replicate, Writer.grow, append_assoc, hcopy, tail]

theorem serialize_eq_encode : r.serialize = r.written.encode := by
  simp only [serialize, Writer.atEnd_putString, Writer.atEnd_putWord, foldl_putMessage,
    Writer.atEnd_putLength, r.copy_limit, r.tail_eq]
  simp [encode, encodeString, written, r.length_tail]

end APIRequest

theorem APIResponse.serialize_eq_encode (r : APIResponse) : r.serialize = r.encode := by
  simp [APIResponse.serialize, APIResponse.encode, APIResponse.encodeTail, encodeString]

open Reader (Passes Reads)

theorem reads_string (bs rest : Bytes) : Reads string (encodeString bs) rest bs := by
  intro done hsize
  have hlen : (ofNat bs.length).toNat = bs.length := by
    simp only [encodeString, length_append] at hsize
    have hlt : bs.length < 2 ^ 64 := by omega
    exact toNat_ofNat_of_lt hlt
  exact Reads.lengthPrefixed hlen rest done hsize

theorem reads_readMany (messages : List ChatMessage) (rest : Bytes) :
    Reads (ChatMessage.readMany messages.length) (messages.flatMap ChatMessage.encode) rest
      messages := by
  induction messages with
  | nil => exact Passes.refl _ rest
  | cons msg messages ih =>
    rw [flatMap_cons, ChatMessage.encode, append_assoc]
    exact (reads_string msg.role _).bind
      ((reads_string msg.content _).bind ih.last)

theorem APIRequest.reads_encode {r : APIRequest} (h : r.messages.length < 2 ^ 32) (rest : Bytes) :
    Reads APIRequest.read r.encode rest r := by
  have hcount : (UInt32.ofNat r.messages.length).toNat = r.messages.length :=
    UInt32.toNat_ofNat_of_lt h
  have hmessages := reads_readMany r.messages
  rw [← hcount] at hmessages
  refine (Reads.atLeast ?_).test ?_
  · simp only [APIRequest.encode, length_append, length_encodeString, length_encode, width_u32,
      width_u64]
    omega
  · exact (reads_string r.apiKey _).bind <| (reads_string r.model _).bind <|
      (reads_string r.modelHash _).bind <| (Reads.word u32 _ _).bind <| (hmessages _).bind <|
      (Reads.word u64 _ _).bind <| (Reads.word u64 _ _).bind <| (reads_string r.signature _).bind <|
      (Reads.optionalWord i32 0 _ _).last

/-! ## Round trip of requests -/

theorem overwrite_eq_append_iff {sig limit : Bytes} (h : limit.length = 4) :
    limit ++ (sig ++ replicate 4 0).drop 4 = sig ++ limit ↔
      sig = [] ∨ limit = replicate 4 0 ∧ ∀ b ∈ sig.take 4, b = 0 := by
  obtain ⟨a, b, c, d, rfl⟩ : ∃ a b c d, limit = [a, b, c, d] := by
    match limit, h with
    | [a, b, c, d], _ => exact ⟨a, b, c, d, rfl⟩
  -- a signature shorter than the limit moves the limit's own bytes to the end
  match sig with
  | [] => simp
  | [x] => simp; grind
  | [x, y] => simp; grind
  | [x, y, z] => simp; grind
  | x :: y :: z :: t :: sig => simp; grind

theorem length_readMany {count : Nat} {data : Bytes} {pos pos' : Nat} {messages : List ChatMessage}
    (h : ChatMessage.readMany count data pos = .ok (messages, pos')) :
    messages.length = count := by
  induction count generalizing pos messages with
  | zero =>
    cases h
    rfl
  | succ count ih =>
    simp only [ChatMessage.readMany, Reader.bind_eq_ok] at h
    obtain ⟨role, _, _, content, _, _, rest, _, hrest, hlast⟩ := h
    cases hlast
    rw [length_cons, ih hrest]

namespace APIRequest

theorem length_messages_lt {data : Bytes} {r : APIRequest} (h : deserialize data = .ok r) :
    r.messages.length < 2 ^ 32 := by
  rw [deserialize, Reader.decode_eq_ok] at h
  obtain ⟨_, h⟩ := h
  simp only [read, Reader.bind_eq_ok] at h
  obtain ⟨_, _, _, _, _, _, _, _, _, _, _, _, msgCount, _, _, messages, _, hmessages, _, _, _, _, _,
    _, _, _, _, _, _, _, hlast⟩ := h
  cases hlast
  rw [length_readMany hmessages]
  exact msgCount.toNat_lt

variable {r : APIRequest}

theorem written_eq_self_iff :
    r.written = r ↔ r.signature = [] ∨ r.maxTokens = 0 ∧ ∀ b ∈ r.signature.take 4, b = 0 := by
  have hzero : r.maxTokens = 0 ↔ i32.encode r.maxTokens = replicate 4 0 := by
    constructor
    · intro h
      rw [h]
      decide
    · intro h
      rw [← i32.decode_encode r.maxTokens, h]
      decide
  have htail : r.written = r ↔ r.tail = r.signature ++ i32.encode r.maxTokens := by
    constructor
    · intro h
      rw [r.tail_eq, h]
    · intro h
      simp [written, h]
  rw [htail, hzero, tail]
  exact overwrite_eq_append_iff (i32.length_encode r.maxTokens)

theorem deserialize_serialize (hsize : r.serialize.length < 2 ^ 63)
    (hcount : r.messages.length < 2 ^ 32) : deserialize r.serialize = .ok r.written := by
  rw [r.serialize_eq_encode] at hsize ⊢
  have hwritten : r.written.messages.length < 2 ^ 32 := hcount
  exact (reads_encode hwritten []).decode (by omega)

/-- Which requests are read back as they were written. -/
theorem serialize_roundtrip_iff (hsize : r.serialize.length < 2 ^ 63) :
    deserialize r.serialize = .ok r ↔
      r.messages.length < 2 ^ 32 ∧
        (r.signature = [] ∨ r.maxTokens = 0 ∧ ∀ b ∈ r.signature.take 4, b = 0) := by
  constructor
  · intro h
    have hcount := length_messages_lt h
    rw [deserialize_serialize hsize hcount, Except.ok.injEq] at h
    exact ⟨hcount, written_eq_self_iff.1 h⟩
  · rintro ⟨hcount, hsignature⟩
    rw [deserialize_serialize hsize hcount, written_eq_self_iff.2 hsignature]

def unsigned : APIRequest where
  apiKey := ascii "tkn_0"
  model := ascii "llama"
  modelHash := []
  messages := [{ role := ascii "user", content := ascii "hi" }]
  nonce := 8
  requestId := 7
  signature := []
  maxTokens := 16

theorem unsigned_roundtrip :
    unsigned.serialize.length < 2 ^ 63 ∧ deserialize unsigned.serialize = .ok unsigned :=
  ⟨by decide +kernel, (serialize_roundtrip_iff (by decide +kernel)).2 (by decide)⟩

/-- The first four bytes of the signature come back as the limit, and the limit as 0. -/
theorem signed_roundtrip_fails :
    deserialize { unsigned with signature := [1, 2, 3, 4, 5] }.serialize =
        .ok { unsigned with signature := [16, 0, 0, 0, 5], maxTokens := 0 } ∧
      deserialize { unsigned with signature := [1, 2, 3, 4, 5] }.serialize ≠
        .ok { unsigned with signature := [1, 2, 3, 4, 5] } := by
  decide +kernel

end APIRequest

/-! ## Round trips of responses -/

namespace APIResponse

theorem reads_tokens_new {remaining : Nat} (h : 36 ≤ remaining) (prompt completion used : Int32)
    (rest : Bytes) :
    Reads (readTokens remaining)
      (i32.encode prompt ++ (i32.encode completion ++ i32.encode used)) rest
      (prompt, completion, used) := by
  rw [readTokens, if_pos h]
  exact (Reads.word i32 _ _).bind ((Reads.word i32 _ _).bind (Reads.word i32 _ _).last)

theorem reads_tokens_old {remaining : Nat} (h : 28 ≤ remaining) (h' : remaining < 36)
    (used : Int32) (rest : Bytes) :
    Reads (readTokens remaining) (i32.encode used) rest (0, 0, used) := by
  have hnew : ¬4 * 3 + 8 + 8 + 8 ≤ remaining := by omega
  rw [readTokens, if_neg hnew, if_pos h]
  exact (Reads.word i32 _ _).last

/-- Up to the signature the decoder depends on the length of what follows only in its choice of the
token counts. -/
theorem passes_read (content : Bytes) {enc : Bytes} {prompt completion used : Int32} (cost : Int64)
    (requestId : UInt64) (rest : Bytes) (henc : 4 ≤ enc.length)
    (htokens : Reads (readTokens (enc.length + 16 + rest.length)) enc
      (i64.encode cost ++ u64.encode requestId ++ rest) (prompt, completion, used)) :
    Passes read
      (encodeString content ++ (enc ++ (i64.encode cost ++ u64.encode requestId))) rest
      (string >>= fun signature => pure
        { content, promptTokens := prompt, completionTokens := completion, tokensUsed := used, cost
          requestId, signature }) := by
  have hremaining : (enc ++ (i64.encode cost ++ u64.encode requestId) ++ rest).length =
      enc.length + 16 + rest.length := by
    simp only [length_append, length_encode, width_i64, width_u64]
  rw [← hremaining] at htokens
  refine (Reads.atLeast ?_).test ?_
  · simp only [length_append, length_encodeString, length_encode, width_i64, width_u64]
    omega
  · exact (reads_string content _).bind <| (Reads.remaining _).test <| htokens.bind <|
      (Reads.word i64 _ _).bind (Reads.word u64 _ _).last

variable {r : APIResponse}

theorem reads_layout {enc : Bytes} {prompt completion : Int32} (henc : 4 ≤ enc.length)
    (htokens : ∀ rest, Reads (readTokens (enc.length + 24 + r.signature.length)) enc rest
      (prompt, completion, r.tokensUsed)) :
    Reads read (encodeString r.content ++ (enc ++ r.encodeTail)) []
      { r with promptTokens := prompt, completionTokens := completion } := by
  have hlength : enc.length + 16 + (encodeString r.signature ++ []).length =
      enc.length + 24 + r.signature.length := by
    simp only [append_nil, length_encodeString]
    omega
  have hhead := passes_read r.content r.cost r.requestId (encodeString r.signature ++ []) henc
    (by rw [hlength]; exact htokens _)
  have hread := hhead.trans (reads_string r.signature []).last
  simpa only [encodeTail, append_assoc] using hread

theorem reads_encode (r : APIResponse) : Reads read r.encode [] r :=
  reads_layout (by simp) fun rest => reads_tokens_new (by simp) _ _ _ rest

theorem reads_encodeOld (h : r.signature.length < 8) :
    Reads read r.encodeOld [] { r with promptTokens := 0, completionTokens := 0 } :=
  reads_layout (by simp) fun rest => reads_tokens_old (by simp) (by simp; omega) _ rest

theorem encode_cost_eq (cost : Int64) :
    i64.encode cost =
      i32.encode (i32.decode ((i64.encode cost).take 4)) ++
        i32.encode (i32.decode ((i64.encode cost).drop 4)) := by
  rw [i32.encode_decode _ (by simp), i32.encode_decode _ (by simp), take_append_drop]

/-- An old response with a signature of eight bytes or more is read as a new one: each field is
taken for the one before it, and the length of the signature for the request id. -/
theorem passes_encodeOld (h : 8 ≤ r.signature.length) :
    Passes read
      (encodeString r.content ++ ((i32.encode r.tokensUsed ++ i64.encode r.cost) ++
        (u64.encode r.requestId ++ u64.encode (ofNat r.signature.length)))) r.signature
      (string >>= fun signature => pure
        { content := r.content
          promptTokens := r.tokensUsed
          completionTokens := i32.decode ((i64.encode r.cost).take 4)
          tokensUsed := i32.decode ((i64.encode r.cost).drop 4)
          cost := i64.decode (u64.encode r.requestId)
          requestId := ofNat r.signature.length
          signature }) := by
  have hid : u64.encode r.requestId = i64.encode (i64.decode (u64.encode r.requestId)) :=
    (i64.encode_decode _ (by simp)).symm
  have hhead := passes_read r.content (i64.decode (u64.encode r.requestId))
    (ofNat r.signature.length) r.signature (by simp)
    (reads_tokens_new (by simp; omega) r.tokensUsed (i32.decode ((i64.encode r.cost).take 4))
      (i32.decode ((i64.encode r.cost).drop 4)) _)
  rwa [← encode_cost_eq, ← hid] at hhead

theorem requestId_eq_zero {cost : Int64} {requestId : UInt64}
    (hlow : i32.decode ((i64.encode cost).take 4) = 0)
    (hhigh : i32.decode ((i64.encode cost).drop 4) = 0)
    (hid : i64.decode (u64.encode requestId) = cost) : requestId = 0 := by
  have hcost : i64.encode cost = replicate 8 0 := by
    rw [encode_cost_eq, hlow, hhigh]
    decide
  have hbytes : u64.encode requestId = replicate 8 0 := by
    rw [← hcost, ← hid, i64.encode_decode _ (by simp)]
  rw [← u64.decode_encode requestId, hbytes]
  decide

theorem deserialize_encodeOld_iff (hsize : r.encodeOld.length < 2 ^ 64) :
    deserialize r.encodeOld = .ok { r with promptTokens := 0, completionTokens := 0 } ↔
      r.signature.length < 8 := by
  constructor
  · intro h
    by_contra hlong
    have hdata : encodeString r.content ++ ((i32.encode r.tokensUsed ++ i64.encode r.cost) ++
        (u64.encode r.requestId ++ u64.encode (ofNat r.signature.length))) ++ r.signature =
          r.encodeOld := by
      simp [encodeOld, encodeTail, encodeString]
    have hrun := (passes_encodeOld (Nat.le_of_not_lt hlong)).run (by rwa [hdata])
    rw [hdata] at hrun
    rw [deserialize, Reader.decode_eq_ok] at h
    obtain ⟨pos, h⟩ := h
    rw [hrun, Reader.bind_eq_ok] at h
    obtain ⟨signature, mid, _, hlast⟩ := h
    simp only [Reader.pure_apply, Except.ok.injEq, Prod.mk.injEq, APIResponse.mk.injEq] at hlast
    obtain ⟨⟨_, hused, hlow, hhigh, hcost, hid, _⟩, _⟩ := hlast
    -- all fields are zero, and so the length of the signature would be
    have hzero := requestId_eq_zero hlow (hhigh.trans hused) hcost
    have hlength : r.signature.length < 2 ^ 64 := by
      simp only [encodeOld, encodeTail, length_append, length_encodeString] at hsize
      omega
    have hnat : (ofNat r.signature.length).toNat = r.signature.length :=
      toNat_ofNat_of_lt hlength
    rw [hid, hzero] at hnat
    exact hlong (by rw [← hnat]; decide)
  · intro h
    exact (reads_encodeOld h).decode hsize

/-- Both layouts are read back for exactly the signatures of less than eight bytes. -/
theorem layouts_roundtrip_iff {r : APIResponse} (hsize : r.serialize.length < 2 ^ 63) :
    (deserialize r.serialize = .ok r ∧
        deserialize r.encodeOld = .ok { r with promptTokens := 0, completionTokens := 0 }) ↔
      r.signature.length < 8 := by
  rw [r.serialize_eq_encode] at hsize ⊢
  have hnew : deserialize r.encode = .ok r := r.reads_encode.decode (by omega)
  have hold : r.encodeOld.length < 2 ^ 64 := by
    simp only [encode, encodeOld, length_append] at hsize ⊢
    omega
  rw [and_iff_right hnew, deserialize_encodeOld_iff hold]

def answer : APIResponse where
  content := ascii "ok"
  promptTokens := 3
  completionTokens := 2
  tokensUsed := 5
  cost := 0
  requestId := 7
  signature := []

theorem answer_layouts :
    answer.serialize.length < 2 ^ 63 ∧ deserialize answer.serialize = .ok answer ∧
      deserialize answer.encodeOld =
        .ok { answer with promptTokens := 0, completionTokens := 0 } :=
  ⟨by decide +kernel, (layouts_roundtrip_iff (by decide +kernel)).2 (by decide)⟩

/-- An old response with a signature of eight bytes: its count is taken for the prompt's, its id for
the cost, and the length of its signature for the id. -/
theorem signed_encodeOld_fails :
    deserialize { answer with signature := List.replicate 8 0 }.encodeOld =
        .ok { answer with
          promptTokens := 5, completionTokens := 0, tokensUsed := 0, cost := 7, requestId := 8
          signature := [] } ∧
      deserialize { answer with signature := List.replicate 8 0 }.encodeOld ≠
        .ok { answer with
          promptTokens := 0, completionTokens := 0, signature := List.replicate 8 0 } := by
  decide +kernel

end APIResponse

end TKNC.Net
