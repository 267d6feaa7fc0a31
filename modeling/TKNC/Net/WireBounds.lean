import TKNC.Net.ApiProtocol
import TKNC.Net.P2PLLM
import TKNC.Net.P2PMessage

/-!
# WireBounds — which vectors the decoders leave

For each decoder of bytes that a peer sends, the exact condition under which all of its reads stay
inside the vector.  The lengths in the data are arbitrary, and a field that is read without a test
may lie behind the end.  A length near the word size makes the sum that is tested wrap around: one
of 64 bits is then too long for a string, which the library notices before it reads, and one of 32
bits is not.
-/

namespace TKNC.Net

open Lib Lib.ByteOrder Lib.ByteOrder.Word Lib.Numeral
open Reader (InBounds)
open APIResponse

def stringEnd (data : Bytes) (pos : Nat) : Nat :=
  pos + 8 + (u64.peek data pos).toNat

inductive WireField where
  | word (width : Nat)
  | string

/-- The vector holds each of the fields from `pos` on, up to the first string that it cuts short:
words and the lengths of strings are complete. -/
def Laid (data : Bytes) : List WireField → Nat → Prop
  | [], _ => True
  | .word width :: fields, pos => pos + width ≤ data.length ∧ Laid data fields (pos + width)
  | .string :: fields, pos =>
      pos + 8 ≤ data.length ∧
        (stringEnd data pos ≤ data.length → Laid data fields (stringEnd data pos))

def messageFields (count : Nat) : List WireField :=
  (List.replicate count [WireField.string, WireField.string]).flatten

def requestFields (count : Nat) : List WireField :=
  .string :: .string :: .string :: .word 4 ::
    (messageFields count ++ [.word 8, .word 8, .string])

def msgCount (data : Bytes) : Nat :=
  (u32.peek data (stringEnd data (stringEnd data (stringEnd data 0)))).toNat

/-! ## Requests and responses -/

section Api

variable {β : Type} {data : Bytes} {pos : Nat}

theorem inBounds_string_bind {f : Bytes → Reader β} (hsize : data.length < 2 ^ 63) :
    InBounds (string >>= f) data pos ↔
      pos + 8 ≤ data.length ∧
        (stringEnd data pos ≤ data.length →
          InBounds (f ((data.drop (pos + 8)).take (u64.peek data pos).toNat)) data
            (stringEnd data pos)) :=
  Reader.inBounds_lengthPrefixed_bind UInt64.toNat_lt hsize

theorem inBounds_readMany_bind {f : List ChatMessage → Reader β} {fields : List WireField}
    (hsize : data.length < 2 ^ 63)
    (hf : ∀ messages pos, InBounds (f messages) data pos ↔ Laid data fields pos) (count : Nat) :
    InBounds (ChatMessage.readMany count >>= f) data pos ↔
      Laid data (messageFields count ++ fields) pos := by
  induction count generalizing pos f with
  | zero =>
    rw [ChatMessage.readMany, pure_bind]
    exact hf [] pos
  | succ count ih =>
    have hrest (role content : Bytes) (pos : Nat) :
        InBounds (ChatMessage.readMany count >>= fun messages =>
          pure ({ role, content } :: messages) >>= f) data pos ↔
            Laid data (messageFields count ++ fields) pos := by
      refine ih fun messages pos => ?_
      rw [pure_bind]
      exact hf _ pos
    simp only [ChatMessage.readMany, bind_assoc, inBounds_string_bind hsize, hrest]
    rfl

theorem APIRequest.inBounds_read_iff (hsize : data.length < 2 ^ 63) :
    InBounds APIRequest.read data 0 ↔
      (36 ≤ data.length → Laid data (requestFields (msgCount data)) 0) := by
  have htail (apiKey model modelHash : Bytes) (messages : List ChatMessage) (pos : Nat) :
      InBounds (do
        let nonce ← Reader.word u64
        let requestId ← Reader.word u64
        let signature ← string
        let maxTokens ← Reader.optionalWord i32 0
        pure ({ apiKey, model, modelHash, messages, nonce, requestId, signature, maxTokens } :
          APIRequest)) data pos ↔
        Laid data [.word 8, .word 8, .string] pos := by
    simp only [Reader.inBounds_word_bind, inBounds_string_bind hsize, width_u64, Laid]
    refine and_congr_right fun _ => and_congr_right fun _ => and_congr_right fun _ =>
      forall_congr' fun hend => iff_true_intro ?_
    exact Reader.inBounds_optionalWord_bind (by rw [width_i32]; omega) fun _ _ =>
      Reader.inBounds_pure _ _ _
  simp only [APIRequest.read, Reader.inBounds_atLeast_bind, inBounds_string_bind hsize,
    Reader.inBounds_word_bind, inBounds_readMany_bind hsize (htail _ _ _)]
  rfl

/-- Behind the content the decoder tests how much remains, so only the two strings could be cut
short. -/
theorem APIResponse.inBounds_read (hsize : data.length < 2 ^ 63) : InBounds read data 0 := by
  simp only [read, Reader.inBounds_atLeast_bind, inBounds_string_bind hsize,
    Reader.inBounds_remaining_bind]
  intro hmin
  refine ⟨by omega, fun hend => ?_⟩
  rw [readTokens]
  split_ifs with hnew hold
  · simp only [bind_assoc, pure_bind, Reader.inBounds_word_bind, inBounds_string_bind hsize,
      Reader.inBounds_pure, implies_true, and_true, width_i32, width_i64, width_u64]
    omega
  · simp only [bind_assoc, pure_bind, Reader.inBounds_word_bind, inBounds_string_bind hsize,
      Reader.inBounds_pure, implies_true, and_true, width_i32, width_i64, width_u64]
    omega
  · simp only [bind_assoc, pure_bind, Reader.inBounds_require_bind]
    exact fun h => absurd h (by decide)

end Api

theorem inBounds_readTextNumber_iff {α : Type} {build : Bytes → Int32 → α} {data : Bytes}
    (hsize : data.length < 2 ^ 63) :
    InBounds (readTextNumber build) data 0 ↔
      (8 ≤ data.length → 4 + (u32.reverse.peek data 0).toNat ≤ data.length →
        8 + (u32.reverse.peek data 0).toNat ≤ data.length) := by
  have hlen (n : UInt32) : n.toNat < 2 ^ 64 := Nat.lt_trans n.toNat_lt (by decide)
  have hpeek := (u32.reverse.peek data 0).toNat_lt
  simp only [readTextNumber, Reader.inBounds_atLeast_bind,
    Reader.inBounds_lengthPrefixed_bind hlen hsize,
    Reader.inBounds_word_bind, Reader.inBounds_pure, width_reverse, width_u32, width_i32, and_true]
  constructor
  · intro h hmin hfit
    have := (h hmin).2 (by omega)
    omega
  · intro h hmin
    exact ⟨by omega, fun hfit => by have := h hmin (by omega); omega⟩

theorem P2PMessage.inBounds_read_iff {data : Bytes} :
    InBounds P2PMessage.read data 0 ↔
      (24 ≤ data.length → u32.peek data 0 = networkMagic →
        24 + (u32.peek data 16).toNat < 2 ^ 32 ∨ 24 + (u32.peek data 16).toNat ≤ data.length) := by
  have hpeek := (u32.peek data 16).toNat_lt
  simp only [P2PMessage.read, P2PMessage.readPayload, Reader.inBounds_atLeast_bind,
    Reader.inBounds_word_bind, Reader.inBounds_require_bind, Reader.inBounds_bytes_bind,
    Reader.inBounds_pure, implies_true, and_true, width_u32, width_raw, Nat.zero_add,
    Nat.reduceAdd, decide_eq_true_eq]
  constructor
  · intro h hmin hmagic
    have hread := (h hmin).2 hmagic
    omega
  · intro h hmin
    refine ⟨by omega, fun hmagic => ?_⟩
    have hlength := h hmin hmagic
    omega

/-! ## The decoders together -/

inductive WireDecoder where
  | apiRequest
  | apiResponse
  | inferenceToken
  | inferenceDone
  | p2pMessage

namespace WireDecoder

/-- All reads of the decoder are inside the vector. -/
def ReadsInside (data : Bytes) : WireDecoder → Prop
  | apiRequest => InBounds APIRequest.read data 0
  | apiResponse => InBounds APIResponse.read data 0
  | inferenceToken => InBounds P2PLLMInferenceToken.read data 0
  | inferenceDone => InBounds P2PLLMInferenceDone.read data 0
  | p2pMessage => InBounds P2PMessage.read data 0

/-- What the size and the lengths in the data must satisfy. -/
def LengthsFit (data : Bytes) : WireDecoder → Prop
  | apiRequest => 36 ≤ data.length → Laid data (requestFields (msgCount data)) 0
  | apiResponse => True
  | inferenceToken | inferenceDone =>
      8 ≤ data.length → 4 + (u32.reverse.peek data 0).toNat ≤ data.length →
        8 + (u32.reverse.peek data 0).toNat ≤ data.length
  | p2pMessage =>
      24 ≤ data.length → u32.peek data 0 = networkMagic →
        24 + (u32.peek data 16).toNat < 2 ^ 32 ∨ 24 + (u32.peek data 16).toNat ≤ data.length

/-- The reads stay inside exactly the vectors whose lengths fit; a vector has at most `PTRDIFF_MAX`
elements. -/
theorem readsInside_iff_lengthsFit (decoder : WireDecoder) {data : Bytes}
    (hsize : data.length < 2 ^ 63) : decoder.ReadsInside data ↔ decoder.LengthsFit data := by
  cases decoder with
  | apiRequest => exact APIRequest.inBounds_read_iff hsize
  | apiResponse => exact iff_true_intro (inBounds_read hsize)
  | inferenceToken => exact inBounds_readTextNumber_iff hsize
  | inferenceDone => exact inBounds_readTextNumber_iff hsize
  | p2pMessage => exact P2PMessage.inBounds_read_iff

theorem shortToken_readsInside :
    ([0, 0, 0, 0, 0, 0, 0, 1] : Bytes).length < 2 ^ 63 ∧
      inferenceToken.ReadsInside [0, 0, 0, 0, 0, 0, 0, 1] :=
  ⟨by decide, (readsInside_iff_lengthsFit inferenceToken (by decide)).2 fun _ _ => by decide⟩

/-- A vector that the decoder leaves: a key that fills it, a text that ends it, a payload length that
wraps around.  There is none for responses. -/
def hostile : WireDecoder → Option Bytes
  | apiRequest => some (u64.encode 28 ++ List.replicate 28 0)
  | apiResponse => none
  | inferenceToken | inferenceDone => some (u32.reverse.encode 4 ++ List.replicate 4 0)
  | p2pMessage =>
      some (u32.encode networkMagic ++ List.replicate 12 0 ++ u32.encode 0xffffffff ++
        List.replicate 4 0)

theorem not_readsInside_hostile {decoder : WireDecoder} {data : Bytes}
    (h : decoder.hostile = some data) : ¬decoder.ReadsInside data := by
  cases decoder with
  | apiResponse => cases h
  | apiRequest =>
    cases h
    exact fun h => h rfl
  | inferenceToken =>
    cases h
    exact fun h => h rfl
  | inferenceDone =>
    cases h
    exact fun h => h rfl
  | p2pMessage =>
    cases h
    exact fun h => h rfl

/-- Thirty-six bytes, all of which after the first length belong to the key: the length of the model
name is read behind the end. -/
theorem request_outOfBounds :
    APIRequest.deserialize (u64.encode 28 ++ List.replicate 28 0) = .error .outOfBounds ∧
      ¬apiRequest.ReadsInside (u64.encode 28 ++ List.replicate 28 0) :=
  ⟨rfl, @not_readsInside_hostile apiRequest _ rfl⟩

end WireDecoder

end TKNC.Net
