import TKNC.Lib.Wire

/-!
# P2PLLM — the frames of peer-to-peer inference

Six structures travel between a client and a miner, each as the payload of a frame: magic, type and
length in network order, and the payload.  Strings are a 32-bit length and their bytes.

`frame_roundtrip` is the round trip of every structure through a frame, with any bytes behind it; it
also says that no proper part of a frame is taken for one.
-/

namespace TKNC.Net

open Lib Lib.ByteOrder Lib.ByteOrder.Word Lib.Numeral
open Reader (Passes Reads)
open List UInt32

/-- `HtoN64` swaps the bytes of each half of a word and leaves the halves where they are: in memory
the low half comes first. -/
def halves : Word Int64 :=
  ((u32.reverse.pair u32.reverse).map lowHigh).map signed64

@[simp]
theorem width_halves : halves.width = 8 :=
  rfl

example : halves.encode 1 = [0, 0, 0, 1, 0, 0, 0, 0] := by decide

def writeString (s : Bytes) : Bytes :=
  u32.reverse.encode (UInt32.ofNat s.length) ++ s

def readString : Reader Bytes := do
  .fits 4
  .lengthPrefixed u32.reverse UInt32.toNat

theorem reads_text {s : Bytes} (h : s.length < 2 ^ 32) (rest : Bytes) :
    Reads (.lengthPrefixed u32.reverse toNat) (writeString s) rest s :=
  Reads.lengthPrefixed (toNat_ofNat_of_lt h) rest

theorem reads_readString {s : Bytes} (h : s.length < 2 ^ 32) (rest : Bytes) :
    Reads readString (writeString s) rest s := by
  exact (Reads.fits (by simp [writeString])).test (reads_text h rest)

@[simp]
theorem length_writeString (s : Bytes) : (writeString s).length = 4 + s.length := by
  simp [writeString]

/-- A text and a number behind it; the number is read without a test. -/
def readTextNumber {α : Type} (build : Bytes → Int32 → α) : Reader α := do
  .atLeast (4 + 4)
  let text ← .lengthPrefixed u32.reverse UInt32.toNat
  let number ← .word i32.reverse
  pure (build text number)

theorem reads_textNumber {α : Type} {build : Bytes → Int32 → α} {text : Bytes} {number : Int32}
    (h : (writeString text ++ i32.reverse.encode number).length < 2 ^ 32) (rest : Bytes) :
    Reads (readTextNumber build) (writeString text ++ i32.reverse.encode number) rest
      (build text number) := by
  simp only [length_append, length_writeString] at h
  refine (Reads.atLeast ?_).test ?_
  · simp
    omega
  · exact (reads_text (by omega) _).bind (Reads.word i32.reverse _ _).last

/-! ## The six structures -/

structure P2PLLMInferenceRequest where
  apiKey : Bytes
  systemPrompt : Bytes
  userMessage : Bytes
  maxTokens : Int32

structure P2PLLMInferenceToken where
  tokenText : Bytes
  tokenIndex : Int32

structure P2PLLMInferenceError where
  errorCode : Int32
  errorMessage : Bytes

structure P2PLLMInferenceDone where
  fullResponse : Bytes
  totalTokens : Int32

structure P2PLLMHandshakeReq where
  apiKey : Bytes
  modelName : Bytes
  testPrompt : Bytes
  clientTokensPerTknc : Int64

structure P2PLLMHandshakeResp where
  accepted : Bool
  testTokens : Bytes
  nodeTokenCount : Int32
  verifiedTokensPerTknc : Int64
  tokensPerTknc : Int64
  minerWallet : Bytes
  rejectionReason : Bytes

namespace P2PLLMInferenceRequest

def serialize (req : P2PLLMInferenceRequest) : Bytes :=
  writeString req.apiKey ++ (writeString req.systemPrompt ++ (writeString req.userMessage ++
    i32.reverse.encode req.maxTokens))

def read : Reader P2PLLMInferenceRequest := do
  .atLeast (4 * 3)
  let apiKey ← readString
  let systemPrompt ← readString
  let userMessage ← readString
  let maxTokens ← .optionalWord i32.reverse 0
  pure { apiKey, systemPrompt, userMessage, maxTokens }

end P2PLLMInferenceRequest

namespace P2PLLMInferenceToken

def serialize (token : P2PLLMInferenceToken) : Bytes :=
  writeString token.tokenText ++ i32.reverse.encode token.tokenIndex

def read : Reader P2PLLMInferenceToken :=
  readTextNumber fun tokenText tokenIndex => { tokenText, tokenIndex }

end P2PLLMInferenceToken

namespace P2PLLMInferenceError

def serialize (error : P2PLLMInferenceError) : Bytes :=
  i32.reverse.encode error.errorCode ++ writeString error.errorMessage

def read : Reader P2PLLMInferenceError := do
  .atLeast (4 + 4)
  let errorCode ← .word i32.reverse
  let errorMessage ← .lengthPrefixed u32.reverse UInt32.toNat
  pure { errorCode, errorMessage }

end P2PLLMInferenceError

namespace P2PLLMInferenceDone

def serialize (done : P2PLLMInferenceDone) : Bytes :=
  writeString done.fullResponse ++ i32.reverse.encode done.totalTokens

def read : Reader P2PLLMInferenceDone :=
  readTextNumber fun fullResponse totalTokens => { fullResponse, totalTokens }

end P2PLLMInferenceDone

namespace P2PLLMHandshakeReq

def serialize (req : P2PLLMHandshakeReq) : Bytes :=
  writeString req.apiKey ++ (writeString req.modelName ++ (writeString req.testPrompt ++
    halves.encode req.clientTokensPerTknc))

def read : Reader P2PLLMHandshakeReq := do
  let apiKey ← readString
  let modelName ← readString
  let testPrompt ← readString
  .fits 8
  let clientTokensPerTknc ← .word halves
  pure { apiKey, modelName, testPrompt, clientTokensPerTknc }

end P2PLLMHandshakeReq

namespace P2PLLMHandshakeResp

def serialize (resp : P2PLLMHandshakeResp) : Bytes :=
  u8.encode (if resp.accepted then 1 else 0) ++ (writeString resp.testTokens ++
    (i32.reverse.encode resp.nodeTokenCount ++ (halves.encode resp.verifiedTokensPerTknc ++
      (halves.encode resp.tokensPerTknc ++ (writeString resp.minerWallet ++
        writeString resp.rejectionReason)))))

def read : Reader P2PLLMHandshakeResp := do
  .atLeast 1
  let accepted ← .word u8
  let testTokens ← readString
  .fits 4
  let nodeTokenCount ← .word i32.reverse
  .fits 8
  let verifiedTokensPerTknc ← .word halves
  .fits 8
  let tokensPerTknc ← .word halves
  let minerWallet ← readString
  let rejectionReason ← readString
  pure
    { accepted := accepted ≠ 0
      testTokens, nodeTokenCount, verifiedTokensPerTknc, tokensPerTknc, minerWallet
      rejectionReason }

end P2PLLMHandshakeResp

/-! ## Round trips of the payloads -/

theorem P2PLLMInferenceRequest.reads_serialize {req : P2PLLMInferenceRequest}
    (h : req.serialize.length < 2 ^ 32) (rest : Bytes) : Reads read req.serialize rest req := by
  simp only [serialize, length_append, length_writeString] at h
  refine (Reads.atLeast ?_).test ?_
  · simp [serialize]
    omega
  · exact (reads_readString (by omega) _).bind <| (reads_readString (by omega) _).bind <|
      (reads_readString (by omega) _).bind (Reads.optionalWord i32.reverse 0 _ _).last

theorem P2PLLMInferenceToken.reads_serialize {token : P2PLLMInferenceToken}
    (h : token.serialize.length < 2 ^ 32) (rest : Bytes) :
    Reads read token.serialize rest token :=
  reads_textNumber h rest

theorem P2PLLMInferenceError.reads_serialize {error : P2PLLMInferenceError}
    (h : error.serialize.length < 2 ^ 32) (rest : Bytes) :
    Reads read error.serialize rest error := by
  simp only [serialize, length_append, length_writeString] at h
  refine (Reads.atLeast ?_).test ?_
  · simp [serialize]
    omega
  · exact (Reads.word i32.reverse _ _).bind (reads_text (by omega) _).last

theorem P2PLLMInferenceDone.reads_serialize {done : P2PLLMInferenceDone}
    (h : done.serialize.length < 2 ^ 32) (rest : Bytes) : Reads read done.serialize rest done :=
  reads_textNumber h rest

theorem P2PLLMHandshakeReq.reads_serialize {req : P2PLLMHandshakeReq}
    (h : req.serialize.length < 2 ^ 32) (rest : Bytes) : Reads read req.serialize rest req := by
  simp only [serialize, length_append, length_writeString] at h
  exact (reads_readString (by omega) _).bind <| (reads_readString (by omega) _).bind <|
    (reads_readString (by omega) _).bind <| (Reads.fits (by simp)).test
      (Reads.word halves _ _).last

theorem flag_readBack (flag : Bool) : decide ((if flag then (1 : UInt8) else 0) ≠ 0) = flag := by
  cases flag <;> rfl

theorem P2PLLMHandshakeResp.reads_serialize {resp : P2PLLMHandshakeResp}
    (h : resp.serialize.length < 2 ^ 32) (rest : Bytes) : Reads read resp.serialize rest resp := by
  simp only [serialize, length_append, length_writeString] at h
  have hread : Reads read resp.serialize rest
      { resp with accepted := decide ((if resp.accepted then (1 : UInt8) else 0) ≠ 0) } := by
    refine (Reads.atLeast ?_).test ?_
    · simp [serialize]
    · exact (Reads.word u8 _ _).bind <| (reads_readString (by omega) _).bind <|
        (Reads.fits (by simp)).test <| (Reads.word i32.reverse _ _).bind <|
        (Reads.fits (by simp)).test <| (Reads.word halves _ _).bind <|
        (Reads.fits (by simp)).test <| (Reads.word halves _ _).bind <|
        (reads_readString (by omega) _).bind (reads_readString (by omega) _).last
  rwa [flag_readBack] at hread

/-! ## Frames -/

inductive P2PLLMMessageType where
  | inferenceRequest
  | inferenceToken
  | inferenceError
  | inferenceDone
  | apiKeyValidate
  | handshakeReq
  | handshakeResp
  deriving DecidableEq

def P2PLLMMessageType.toUInt16 : P2PLLMMessageType → UInt16
  | .inferenceRequest => 1001
  | .inferenceToken => 1002
  | .inferenceError => 1003
  | .inferenceDone => 1004
  | .apiKeyValidate => 1005
  | .handshakeReq => 1006
  | .handshakeResp => 1007

def llmMagic : UInt32 := 0x544b4e4c

structure P2PLLMMessageHeader where
  magic : UInt32
  messageType : UInt16
  payloadLength : UInt32
  deriving DecidableEq

namespace P2PLLMMessageHeader

def serialize (header : P2PLLMMessageHeader) : Bytes :=
  u32.reverse.encode header.magic ++ (u16.reverse.encode header.messageType ++
    u32.reverse.encode header.payloadLength)

def read : Reader P2PLLMMessageHeader := do
  .atLeast 10
  let magic ← .word u32.reverse
  let messageType ← .word u16.reverse
  let payloadLength ← .word u32.reverse
  pure { magic, messageType, payloadLength }

def isValid (header : P2PLLMMessageHeader) : Bool :=
  header.magic = llmMagic ∧ 1001 ≤ header.messageType ∧ header.messageType ≤ 1007 ∧
    header.payloadLength ≤ 10 * 1024 * 1024

end P2PLLMMessageHeader

/-- The packet that `SendLLMMessage` hands to the socket. -/
def llmPacket (msgType : P2PLLMMessageType) (payload : Bytes) : Bytes :=
  let header : P2PLLMMessageHeader :=
    { magic := llmMagic
      messageType := msgType.toUInt16
      payloadLength := UInt32.ofNat payload.length }
  header.serialize ++ payload

def readLLMMessage : Reader (P2PLLMMessageHeader × Bytes) := do
  .atLeast 10
  let header ← P2PLLMMessageHeader.read
  .require header.isValid
  .atLeast (10 + header.payloadLength.toNat)
  let payload ← .bytes header.payloadLength.toNat
  pure (header, payload)

def parseLLMMessage (rawData : Bytes) : Except Fault (P2PLLMMessageHeader × Bytes) :=
  readLLMMessage.decode rawData

theorem parseLLMMessage_eq_ok {data payload : Bytes} {header : P2PLLMMessageHeader} :
    parseLLMMessage data = .ok (header, payload) ↔
      10 ≤ data.length ∧
        header = { magic := u32.reverse.peek data 0
                   messageType := u16.reverse.peek data 4
                   payloadLength := u32.reverse.peek data 6 } ∧
        header.isValid = true ∧ 10 + header.payloadLength.toNat ≤ data.length ∧
        payload = (data.drop 10).take header.payloadLength.toNat := by
  simp only [parseLLMMessage, Reader.decode_eq_ok, readLLMMessage, P2PLLMMessageHeader.read,
    Reader.bind_eq_ok, Reader.atLeast_eq_ok, Reader.word_eq_ok, Reader.bytes_eq_ok,
    Reader.require_eq_ok, Reader.pure_eq_ok, Prod.mk.injEq]
  constructor
  · rintro ⟨_, _, _, ⟨hsize, rfl⟩, _, _, ⟨_, _, ⟨_, rfl⟩, _, _, ⟨_, rfl, rfl⟩, _, _, ⟨_, rfl, rfl⟩,
      _, _, ⟨_, rfl, rfl⟩, rfl, rfl⟩, _, _, ⟨hvalid, rfl⟩, _, _, ⟨hlength, rfl⟩, _, _,
      ⟨_, rfl, rfl⟩, ⟨rfl, rfl⟩, rfl⟩
    exact ⟨hsize, rfl, hvalid, hlength, rfl⟩
  · rintro ⟨hsize, rfl, hvalid, hlength, rfl⟩
    have hpos {n : Nat} (h : n ≤ 10) : n ≤ data.length := Nat.le_trans h hsize
    exact ⟨_, (), 0, ⟨hsize, rfl⟩, _, 10, ⟨(), 0, ⟨hsize, rfl⟩, _, 4, ⟨hpos (by decide), rfl, rfl⟩,
      _, 6, ⟨hpos (by decide), rfl, rfl⟩, _, 10, ⟨hpos (by decide), rfl, rfl⟩, rfl, rfl⟩, (), 10,
      ⟨hvalid, rfl⟩, (), 10, ⟨hlength, rfl⟩, _, _, ⟨hlength, rfl, rfl⟩, ⟨rfl, rfl⟩, rfl⟩

/-- Every read of the parser is behind a test of the size. -/
theorem inBounds_readLLMMessage (data : Bytes) : Reader.InBounds readLLMMessage data 0 := by
  simp only [readLLMMessage, P2PLLMMessageHeader.read, bind_assoc, pure_bind,
    Reader.inBounds_atLeast_bind, Reader.inBounds_word_bind, Reader.inBounds_require_bind,
    Reader.inBounds_bytes_bind, Reader.inBounds_pure, width_reverse, width_u16, width_u32]
  intro hsize _
  exact ⟨by omega, by omega, by omega, fun _ hlength => ⟨fun _ => hlength, fun _ => trivial⟩⟩

theorem noThrow_readLLMMessage : Reader.NoThrow readLLMMessage := by
  have hheader : Reader.NoThrow P2PLLMMessageHeader.read :=
    (Reader.noThrow_atLeast 10).bind fun _ => (Reader.noThrow_word _).bind fun _ =>
      (Reader.noThrow_word _).bind fun _ => (Reader.noThrow_word _).bind fun _ =>
        Reader.noThrow_pure _
  refine (Reader.noThrow_atLeast 10).bind fun _ => hheader.bind fun header =>
    (Reader.noThrow_require _).bind fun _ => (Reader.noThrow_atLeast _).bind fun _ =>
      (Reader.noThrow_bytes ?_).bind fun _ => Reader.noThrow_pure _
  exact Nat.lt_trans header.payloadLength.toNat_lt (by decide)

/-- The fields of a packet, whatever stands behind it. -/
theorem peek_llmPacket (msgType : P2PLLMMessageType) (payload : Bytes) :
    u32.reverse.peek (llmPacket msgType payload) 0 = llmMagic ∧
      u16.reverse.peek (llmPacket msgType payload) 4 = msgType.toUInt16 ∧
      u32.reverse.peek (llmPacket msgType payload) 6 = ofNat payload.length := by
  have hmagic := u32.reverse.length_encode llmMagic
  have htype := u16.reverse.length_encode msgType.toUInt16
  simp only [llmPacket, P2PLLMMessageHeader.serialize, append_assoc]
  refine ⟨u32.reverse.peek_encode _ _, u16.reverse.peek_append hmagic _ _, ?_⟩
  rw [← append_assoc]
  exact u32.reverse.peek_append (by rw [length_append, hmagic, htype]; rfl) _ _

theorem length_llmPacket (msgType : P2PLLMMessageType) (payload : Bytes) :
    (llmPacket msgType payload).length = 10 + payload.length := by
  simp [llmPacket, P2PLLMMessageHeader.serialize]
  omega

section Frame

variable {msgType : P2PLLMMessageType} {payload : Bytes}

def packetHeader (msgType : P2PLLMMessageType) (payload : Bytes) : P2PLLMMessageHeader where
  magic := llmMagic
  messageType := msgType.toUInt16
  payloadLength := UInt32.ofNat payload.length

/-- A vector that continues like a packet, or stops within it, shows the packet's header. -/
theorem peek_of_append {data rest extra : Bytes} (hsize : 10 ≤ data.length)
    (h : data ++ rest = llmPacket msgType payload ++ extra) :
    ({ magic := u32.reverse.peek data 0
       messageType := u16.reverse.peek data 4
       payloadLength := u32.reverse.peek data 6 } : P2PLLMMessageHeader) =
      packetHeader msgType payload := by
  have hpacket := length_llmPacket msgType payload
  have hsame {α : Type} (w : Word α) {pos : Nat} (hpos : pos + w.width ≤ 10) :
      w.peek data pos = w.peek (llmPacket msgType payload) pos := by
    rw [← w.peek_append_left (hpos.trans hsize) rest, h, w.peek_append_left (by omega)]
  obtain ⟨hmagic, htype, hlength⟩ := peek_llmPacket msgType payload
  rw [hsame u32.reverse (by decide), hsame u16.reverse (by decide), hsame u32.reverse (by decide),
    hmagic, htype, hlength]
  rfl

theorem isValid_packetHeader (h : payload.length ≤ 10 * 1024 * 1024) :
    (packetHeader msgType payload).isValid = true := by
  have hlength : ofNat payload.length ≤ 10 * 1024 * 1024 := by
    rw [le_iff_toNat_le, toNat_ofNat']
    exact (Nat.mod_le _ _).trans h
  have htype : 1001 ≤ msgType.toUInt16 ∧ msgType.toUInt16 ≤ 1007 := by
    cases msgType <;> decide
  exact decide_eq_true ⟨rfl, htype.1, htype.2, hlength⟩

variable (h : payload.length ≤ 10 * 1024 * 1024)

include h

theorem toNat_payloadLength : (packetHeader msgType payload).payloadLength.toNat = payload.length :=
  toNat_ofNat_of_lt (Nat.lt_of_le_of_lt h (by decide))

theorem parseLLMMessage_packet (extra : Bytes) :
    parseLLMMessage (llmPacket msgType payload ++ extra) =
      .ok (packetHeader msgType payload, payload) := by
  have hpacket := length_llmPacket msgType payload
  have hsize : 10 ≤ (llmPacket msgType payload ++ extra).length := by
    rw [length_append]
    omega
  have hdrop : (llmPacket msgType payload ++ extra).drop 10 = payload ++ extra := by
    rw [llmPacket, append_assoc, drop_left' (by simp [P2PLLMMessageHeader.serialize])]
  rw [parseLLMMessage_eq_ok, toNat_payloadLength h, hdrop, take_left]
  refine ⟨hsize, (peek_of_append hsize (append_nil _)).symm, isValid_packetHeader h, ?_, rfl⟩
  rw [length_append]
  omega

theorem parseLLMMessage_part {part : Bytes} (hpart : part <+: llmPacket msgType payload)
    (hproper : part ≠ llmPacket msgType payload) : parseLLMMessage part = .error .rejected := by
  obtain ⟨rest, hrest⟩ := hpart
  have hlength : part.length < 10 + payload.length := by
    rw [← length_llmPacket msgType payload, ← hrest, length_append]
    have hne : rest ≠ [] := by
      rintro rfl
      exact hproper ((append_nil part).symm.trans hrest)
    have hpos := length_pos_iff.2 hne
    omega
  refine Reader.decode_eq_rejected (inBounds_readLLMMessage part) noThrow_readLLMMessage ?_
  rintro ⟨header, payload'⟩ hok
  obtain ⟨hsize, rfl, _, hneed, _⟩ := parseLLMMessage_eq_ok.1 hok
  rw [peek_of_append hsize (hrest.trans (append_nil _).symm), toNat_payloadLength h] at hneed
  omega

end Frame

/-! ## Structures in frames -/

inductive LLMStruct where
  | inferenceRequest
  | inferenceToken
  | inferenceError
  | inferenceDone
  | handshakeReq
  | handshakeResp

namespace LLMStruct

abbrev Carrier : LLMStruct → Type
  | inferenceRequest => P2PLLMInferenceRequest
  | inferenceToken => P2PLLMInferenceToken
  | inferenceError => P2PLLMInferenceError
  | inferenceDone => P2PLLMInferenceDone
  | handshakeReq => P2PLLMHandshakeReq
  | handshakeResp => P2PLLMHandshakeResp

def messageType : LLMStruct → P2PLLMMessageType
  | inferenceRequest => .inferenceRequest
  | inferenceToken => .inferenceToken
  | inferenceError => .inferenceError
  | inferenceDone => .inferenceDone
  | handshakeReq => .handshakeReq
  | handshakeResp => .handshakeResp

def serialize : (k : LLMStruct) → k.Carrier → Bytes
  | inferenceRequest => P2PLLMInferenceRequest.serialize
  | inferenceToken => P2PLLMInferenceToken.serialize
  | inferenceError => P2PLLMInferenceError.serialize
  | inferenceDone => P2PLLMInferenceDone.serialize
  | handshakeReq => P2PLLMHandshakeReq.serialize
  | handshakeResp => P2PLLMHandshakeResp.serialize

def read : (k : LLMStruct) → Reader k.Carrier
  | inferenceRequest => P2PLLMInferenceRequest.read
  | inferenceToken => P2PLLMInferenceToken.read
  | inferenceError => P2PLLMInferenceError.read
  | inferenceDone => P2PLLMInferenceDone.read
  | handshakeReq => P2PLLMHandshakeReq.read
  | handshakeResp => P2PLLMHandshakeResp.read

def deserialize (k : LLMStruct) (payload : Bytes) : Except Fault k.Carrier :=
  k.read.decode payload

theorem reads_serialize (k : LLMStruct) {m : k.Carrier} (h : (k.serialize m).length < 2 ^ 32)
    (rest : Bytes) : Reads k.read (k.serialize m) rest m := by
  cases k with
  | inferenceRequest => exact P2PLLMInferenceRequest.reads_serialize h rest
  | inferenceToken => exact P2PLLMInferenceToken.reads_serialize h rest
  | inferenceError => exact P2PLLMInferenceError.reads_serialize h rest
  | inferenceDone => exact P2PLLMInferenceDone.reads_serialize h rest
  | handshakeReq => exact P2PLLMHandshakeReq.reads_serialize h rest
  | handshakeResp => exact P2PLLMHandshakeResp.reads_serialize h rest

/-- Every structure is found again behind its frame, with any bytes after it; no proper part of a
frame is accepted. -/
theorem frame_roundtrip (k : LLMStruct) (m : k.Carrier)
    (h : (k.serialize m).length ≤ 10 * 1024 * 1024) :
    (∃ header : P2PLLMMessageHeader,
      (∀ extra, parseLLMMessage (llmPacket k.messageType (k.serialize m) ++ extra) =
        .ok (header, k.serialize m)) ∧
      header.messageType = k.messageType.toUInt16 ∧
      k.deserialize (k.serialize m) = .ok m) ∧
    ∀ part, part <+: llmPacket k.messageType (k.serialize m) →
      part ≠ llmPacket k.messageType (k.serialize m) →
      parseLLMMessage part = .error .rejected := by
  refine ⟨⟨packetHeader k.messageType (k.serialize m), ?_, rfl, ?_⟩, ?_⟩
  · exact fun extra => parseLLMMessage_packet h extra
  · exact (k.reads_serialize (by omega) []).decode (by omega)
  · exact fun part hpart hproper => parseLLMMessage_part h hpart hproper

theorem token_frame_roundtrip :
    (serialize .inferenceToken { tokenText := ascii "hi", tokenIndex := -1 }).length ≤
        10 * 1024 * 1024 ∧
      deserialize .inferenceToken
          (serialize .inferenceToken { tokenText := ascii "hi", tokenIndex := -1 }) =
        .ok { tokenText := ascii "hi", tokenIndex := -1 } := by
  have hsize : (serialize .inferenceToken { tokenText := ascii "hi", tokenIndex := -1 }).length ≤
      10 * 1024 * 1024 := by
    decide
  obtain ⟨⟨_, _, _, hread⟩, _⟩ := frame_roundtrip .inferenceToken _ hsize
  exact ⟨hsize, hread⟩

end LLMStruct

end TKNC.Net
