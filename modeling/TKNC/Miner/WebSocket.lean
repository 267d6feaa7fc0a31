import TKNC.Lib.FrameReader
import TKNC.Miner.UniValue

/-!
# WebSocket — the frames that a client sends to the miner

The read callback appends what has arrived to a buffer and takes frames off it.  The size of a frame
is computed in 64 bits from a length that the client chooses, and it is compared with the buffer
before anything else is read; a length close to 2^64 wraps around and passes this test.

Every read of the buffer is checked here, so that a read behind its end is an ending of its own.
`append` and `assign` refuse a length above `max_size` before they read, and so does `push_back` for
one more byte.  The JSON parser and the tokens that the model generates are parameters.
-/

namespace TKNC.Miner

open Lib Lib.FrameReader Lib.Numeral

namespace WebSocket

/-! ## Reading a frame -/

inductive Ending where
  | closed
  | outOfBounds
  | lengthError
  | jsonError (error : UniValue.Error)
  | stuck
  deriving DecidableEq

def maxSize : Nat := 2 ^ 63 - 1

def byteAt (buffer : Bytes) (i : Nat) : Except Ending UInt8 :=
  match buffer[i]? with
  | some b => .ok b
  | none => .error .outOfBounds

def lengthLoop (buffer : Bytes) : Nat → Nat → Nat → Except Ending Nat
  | 0, _, payloadLen => .ok payloadLen
  | count + 1, i, payloadLen => do
      let b ← byteAt buffer i
      lengthLoop buffer count (i + 1) (payloadLen <<< 8 ||| b.toNat)

structure Header where
  opcode : UInt8
  masked : Bool
  payloadLen : Nat
  headerSize : Nat
  deriving DecidableEq

namespace Header

def dataOffset (h : Header) : Nat :=
  h.headerSize + if h.masked then 4 else 0

def frameSize (h : Header) : Nat :=
  (h.dataOffset + h.payloadLen) % 2 ^ 64

end Header

def readExtended (buffer : Bytes) (opcode : UInt8) (masked : Bool) (count : Nat) :
    Except Ending (Option Header) :=
  if buffer.length < 2 + count then .ok none
  else do
    let payloadLen ← lengthLoop buffer count 2 0
    return some ⟨opcode, masked, payloadLen, 2 + count⟩

def readHeader (buffer : Bytes) : Except Ending (Option Header) := do
  let p0 ← byteAt buffer 0
  let p1 ← byteAt buffer 1
  let opcode := p0 &&& 0x0F
  let masked : Bool := p1 &&& 0x80 ≠ 0
  let payloadLen := p1 &&& 0x7F
  if payloadLen = 126 then readExtended buffer opcode masked 2
  else if payloadLen = 127 then readExtended buffer opcode masked 8
  else return some ⟨opcode, masked, payloadLen.toNat, 2⟩

def copyBytes (buffer : Bytes) (size offset count : Nat) : Except Ending Bytes :=
  if maxSize < size + count then .error .lengthError
  else if offset + count ≤ buffer.length then .ok ((buffer.drop offset).take count)
  else .error .outOfBounds

def unmaskLoop (buffer : Bytes) (mk md : Nat) : Nat → Nat → Except Ending Bytes
  | 0, _ => .ok []
  | count + 1, i => do
      let d ← byteAt buffer (md + i)
      let k ← byteAt buffer (mk + i % 4)
      -- `push_back` on a string of size `i`
      if maxSize ≤ i then .error .lengthError
      else
        let rest ← unmaskLoop buffer mk md count (i + 1)
        return (d ^^^ k) :: rest

def readText (h : Header) (buffer : Bytes) : Except Ending Bytes :=
  if h.masked then unmaskLoop buffer h.headerSize (h.headerSize + 4) h.payloadLen 0
  else copyBytes buffer 0 h.headerSize h.payloadLen

/-! ## Answers -/

/-- A token longer than 65535 bytes is sent without a length. -/
def tokenFrame (token : Bytes) : Bytes :=
  let length :=
    if token.length < 126 then [UInt8.ofNat token.length]
    else if token.length < 65536 then
      [126, UInt8.ofNat (token.length >>> 8), UInt8.ofNat token.length]
    else []
  0x81 :: (length ++ token)

def messageFrame (message : String) : Bytes :=
  [0x81, UInt8.ofNat (ascii message).length] ++ ascii message

def doneFrame : Bytes :=
  messageFrame "\x7b\"type\":\"done\",\"status\":\"complete\"\x7d"

def errFrame : Bytes :=
  messageFrame "\x7b\"type\":\"error\",\"message\":\"Invalid key or balance\"\x7d"

def pongFrame (payloadLen : Nat) (data : Bytes) : Bytes :=
  [0x8A, UInt8.ofNat (payloadLen &&& 0x7F)] ++ data

def joinPrompt : List UniValue → Except UniValue.Error Bytes
  | [] => .ok []
  | m :: rest => do
      let content ← m.getOr UniValue.getStr "content" []
      return content ++ (← joinPrompt rest)

inductive Effect where
  | text (payload : Bytes) (replies : List Bytes)
  | pong (frame : Bytes)
  deriving DecidableEq

section Handler

variable (read : Bytes → Option UniValue) (generate : Bytes → List Bytes)

def handleText (payload : Bytes) : Except UniValue.Error (List Bytes) :=
  match read payload with
  | none => .ok []
  | some request =>
      if request.existsKey (ascii "api_key") && request.existsKey (ascii "messages") then do
        let apiKey ← (request.item (ascii "api_key")).getStr
        let prompt ← match request.item (ascii "messages") with
          | .arr messages => joinPrompt messages
          | _ => .ok []
        if prompt = [] then return []
        else if apiKey = [] then return [errFrame]
        else return (generate prompt).map tokenFrame ++ [doneFrame]
      else .ok []

def handleFrame (h : Header) (buffer : Bytes) : Round UInt8 Effect Ending :=
  if h.opcode = 0x8 then .stop [] .closed
  else if h.opcode = 0x9 then
    -- the payload is sent back as it stands in the buffer
    match copyBytes buffer 2 h.dataOffset h.payloadLen with
    | .error ending => .stop [] ending
    | .ok data => .next [.pong (pongFrame h.payloadLen data)] (buffer.drop h.frameSize)
  else if h.opcode = 0x1 then
    match readText h buffer with
    | .error ending => .stop [] ending
    | .ok payload =>
        match handleText read generate payload with
        | .error error => .stop [.text payload []] (.jsonError error)
        | .ok replies => .next [.text payload replies] (buffer.drop h.frameSize)
  else .next [] (buffer.drop h.frameSize)

def round (buffer : Bytes) : Round UInt8 Effect Ending :=
  if buffer.length < 2 then .wait
  else
    match readHeader buffer with
    | .error ending => .stop [] ending
    | .ok none => .wait
    | .ok (some h) =>
        if buffer.length < h.frameSize then .wait else handleFrame read generate h buffer

def readAll (segments : List Bytes) : Except Ending Bytes × List Effect :=
  Transducer.run (receive (round read generate) .stuck) (.ok []) segments

def loopHeads (segments : List Bytes) : List Bytes :=
  allHeads (round read generate) .stuck (.ok []) segments

end Handler

/-! ## Reads inside the buffer -/

variable {buffer : Bytes}

theorem byteAt_of_lt {i : Nat} (h : i < buffer.length) :
    byteAt buffer i = .ok buffer[i] := by
  rw [byteAt, List.getElem?_eq_getElem h]

theorem byteAt_of_le {i : Nat} (h : buffer.length ≤ i) :
    byteAt buffer i = .error .outOfBounds := by
  rw [byteAt, List.getElem?_eq_none h]

theorem lengthLoop_ok (count i payloadLen : Nat) (h : i + count ≤ buffer.length) :
    ∃ len, lengthLoop buffer count i payloadLen = .ok len := by
  induction count generalizing i payloadLen with
  | zero => exact ⟨payloadLen, rfl⟩
  | succ count ih =>
    rw [lengthLoop, byteAt_of_lt (by omega)]
    exact ih (i + 1) _ (by omega)

/-- A header as far as its size and the buffer are concerned. -/
structure Header.Fits (h : Header) (buffer : Bytes) : Prop where
  two_le : 2 ≤ h.headerSize
  le_ten : h.headerSize ≤ 10
  le_length : h.headerSize ≤ buffer.length

theorem readExtended_ok (buffer : Bytes) (opcode : UInt8) (masked : Bool) {count : Nat}
    (hcount : count ≤ 8) :
    ∃ header, readExtended buffer opcode masked count = .ok header ∧
      ∀ h ∈ header, h.Fits buffer := by
  unfold readExtended
  split
  · exact ⟨none, rfl, nofun⟩
  · rename_i hlength
    obtain ⟨len, hlen⟩ := lengthLoop_ok count 2 0 (show 2 + count ≤ buffer.length by omega)
    rw [hlen]
    refine ⟨_, rfl, ?_⟩
    rintro h ⟨⟩
    constructor <;> dsimp only <;> omega

theorem readHeader_ok (hlength : 2 ≤ buffer.length) :
    ∃ header, readHeader buffer = .ok header ∧ ∀ h ∈ header, h.Fits buffer := by
  rw [readHeader, byteAt_of_lt (by omega), byteAt_of_lt (by omega)]
  simp only [bind, Except.bind]
  split
  · exact readExtended_ok buffer _ _ (by decide)
  · split
    · exact readExtended_ok buffer _ _ (by decide)
    · refine ⟨_, rfl, ?_⟩
      rintro h ⟨⟩
      constructor <;> dsimp only <;> omega

section Unmask

variable {buffer : Bytes} {mk md : Nat}

variable {count i : Nat}

theorem unmaskLoop_ok (hmask : mk + 4 ≤ md) (hdata : md + i + count ≤ buffer.length)
    (hsize : i + count ≤ maxSize) : ∃ payload, unmaskLoop buffer mk md count i = .ok payload := by
  induction count generalizing i with
  | zero => exact ⟨[], rfl⟩
  | succ count ih =>
    obtain ⟨rest, hrest⟩ := ih (i := i + 1) (by omega) (by omega)
    have hk : mk + i % 4 < buffer.length := by
      have := Nat.mod_lt i (show 4 > 0 by decide)
      omega
    rw [unmaskLoop, byteAt_of_lt (by omega), byteAt_of_lt hk]
    simp only [bind, Except.bind, if_neg (show ¬ maxSize ≤ i by omega), hrest]
    exact ⟨_, rfl⟩

theorem unmaskLoop_outOfBounds (hdata : buffer.length ≤ md + maxSize) (hcount : maxSize < i + count)
    (hi : i ≤ maxSize) :
    unmaskLoop buffer mk md count i = .error .outOfBounds := by
  induction count generalizing i with
  | zero => omega
  | succ count ih =>
    rw [unmaskLoop]
    by_cases hd : buffer.length ≤ md + i
    · rw [byteAt_of_le hd]
      rfl
    · rw [byteAt_of_lt (by omega)]
      by_cases hk : buffer.length ≤ mk + i % 4
      · rw [byteAt_of_le hk]
        rfl
      · have hnext : ¬ maxSize ≤ i := by omega
        rw [byteAt_of_lt (by omega)]
        simp only [bind, Except.bind, if_neg hnext, ih (i := i + 1) (by omega) (by omega)]

theorem unmaskLoop_lengthError (hmask : mk + 4 ≤ md) (hdata : md + maxSize < buffer.length)
    (hcount : maxSize < i + count) (hi : i ≤ maxSize) :
    unmaskLoop buffer mk md count i = .error .lengthError := by
  induction count generalizing i with
  | zero => omega
  | succ count ih =>
    have hk : mk + i % 4 < buffer.length := by
      have := Nat.mod_lt i (show 4 > 0 by decide)
      omega
    rw [unmaskLoop, byteAt_of_lt (by omega), byteAt_of_lt hk]
    by_cases hfull : maxSize ≤ i
    · simp only [bind, Except.bind, if_pos hfull]
    · simp only [bind, Except.bind, if_neg hfull, ih (i := i + 1) (by omega) (by omega)]

end Unmask

/-! ## Which headers are harmless -/

/-- A round reads inside the buffer only, and it goes on only with at least two bytes less. -/
def SafeRound (buffer : Bytes) (r : Round UInt8 Effect Ending) : Prop :=
  (∀ out, r ≠ .stop out .outOfBounds) ∧
    ∀ out rest, r = .next out rest → rest.length + 2 ≤ buffer.length

theorem safeRound_wait (buffer : Bytes) : SafeRound buffer .wait :=
  ⟨nofun, nofun⟩

theorem safeRound_stop {out : List Effect} {ending : Ending} :
    SafeRound buffer (.stop out ending) ↔ ending ≠ .outOfBounds := by
  constructor
  · rintro ⟨hstop, _⟩ rfl
    exact hstop out rfl
  · intro hne
    refine ⟨?_, nofun⟩
    rintro out' ⟨⟩
    exact hne rfl

theorem safeRound_next {out : List Effect} {n : Nat} (hn : n ≤ buffer.length) :
    SafeRound buffer (.next out (buffer.drop n)) ↔ 2 ≤ n := by
  constructor
  · rintro ⟨_, hnext⟩
    have hlength := hnext out _ rfl
    rw [List.length_drop] at hlength
    omega
  · intro htwo
    refine ⟨nofun, ?_⟩
    rintro out' rest ⟨⟩
    rw [List.length_drop]
    omega

/-- The headers that get past the test of the size and then do harm: a masked text of a length that
no string can have, and a frame that is skipped though its size has wrapped around to less than
two. -/
def Header.Harms (h : Header) (buffer : Bytes) : Prop :=
  h.frameSize ≤ buffer.length ∧
    ((h.opcode = 0x1 ∧ h.masked = true ∧ maxSize < h.payloadLen ∧
        buffer.length ≤ h.dataOffset + maxSize) ∨
      (h.opcode ≠ 0x1 ∧ h.opcode ≠ 0x8 ∧ h.opcode ≠ 0x9 ∧ h.frameSize < 2))

section Safety

variable {read : Bytes → Option UniValue} {generate : Bytes → List Bytes} {h : Header}
  {buffer : Bytes}

theorem Header.Fits.dataOffset_le (hfits : h.Fits buffer) : h.dataOffset ≤ 14 := by
  have := hfits.le_ten
  unfold dataOffset
  split <;> omega

theorem Header.Fits.frameSize_eq (hfits : h.Fits buffer) (hlen : h.payloadLen ≤ maxSize) :
    h.frameSize = h.dataOffset + h.payloadLen := by
  have := hfits.dataOffset_le
  rw [maxSize] at hlen
  exact Nat.mod_eq_of_lt (by omega)

theorem Header.Fits.two_le_frameSize (hfits : h.Fits buffer) (hlen : h.payloadLen ≤ maxSize) :
    2 ≤ h.frameSize := by
  have := hfits.two_le
  rw [hfits.frameSize_eq hlen, dataOffset]
  omega

theorem copyBytes_cases (hfits : h.Fits buffer) (hsize : h.frameSize ≤ buffer.length) (size : Nat) :
    copyBytes buffer size h.dataOffset h.payloadLen = .error .lengthError ∨
      h.payloadLen ≤ maxSize ∧
        ∃ data, copyBytes buffer size h.dataOffset h.payloadLen = .ok data := by
  unfold copyBytes
  split
  · exact Or.inl rfl
  · have hlen : h.payloadLen ≤ maxSize := by omega
    rw [hfits.frameSize_eq hlen] at hsize
    rw [if_pos hsize]
    exact Or.inr ⟨hlen, _, rfl⟩

theorem readText_cases (hfits : h.Fits buffer) (hsize : h.frameSize ≤ buffer.length) :
    (readText h buffer = .error .outOfBounds ∧ h.masked = true ∧ maxSize < h.payloadLen ∧
        buffer.length ≤ h.dataOffset + maxSize) ∨
      ((h.masked = true → maxSize < h.payloadLen → h.dataOffset + maxSize < buffer.length) ∧
        (readText h buffer = .error .lengthError ∨
          h.payloadLen ≤ maxSize ∧ ∃ payload, readText h buffer = .ok payload)) := by
  unfold readText
  split
  · rename_i hmasked
    have hoffset : h.dataOffset = h.headerSize + 4 := by rw [Header.dataOffset, if_pos hmasked]
    rw [← hoffset]
    -- without a wrap-around the size test covers the payload
    by_cases hlen : h.payloadLen ≤ maxSize
    · refine Or.inr ⟨by omega, Or.inr ⟨hlen, ?_⟩⟩
      rw [hfits.frameSize_eq hlen] at hsize
      exact unmaskLoop_ok hoffset.ge (by omega) (by omega)
    · by_cases hdata : buffer.length ≤ h.dataOffset + maxSize
      · exact Or.inl ⟨unmaskLoop_outOfBounds hdata (by omega) (by omega), hmasked, by omega, hdata⟩
      · exact Or.inr ⟨by omega,
          Or.inl (unmaskLoop_lengthError hoffset.ge (by omega) (by omega) (by omega))⟩
  · rename_i hmasked
    have hoffset : h.dataOffset = h.headerSize := by
      rw [Header.dataOffset, if_neg hmasked, Nat.add_zero]
    rw [← hoffset]
    exact Or.inr ⟨fun hm => absurd hm hmasked, copyBytes_cases hfits hsize 0⟩

theorem Header.harms_text_iff (htext : h.opcode = 0x1) (hsize : h.frameSize ≤ buffer.length) :
    h.Harms buffer ↔ h.masked = true ∧ maxSize < h.payloadLen ∧
      buffer.length ≤ h.dataOffset + maxSize := by
  simp [Harms, htext, hsize]

theorem safeRound_text_iff (hfits : h.Fits buffer) (htext : h.opcode = 0x1)
    (hsize : h.frameSize ≤ buffer.length) :
    SafeRound buffer (handleFrame read generate h buffer) ↔ ¬ h.Harms buffer := by
  rw [Header.harms_text_iff htext hsize, handleFrame, if_neg (by simp [htext]),
    if_neg (by simp [htext]), if_pos htext]
  rcases readText_cases hfits hsize with
    ⟨herror, hharm⟩ | ⟨hharm, herror | ⟨hlen, payload, hpayload⟩⟩
  · rw [herror]
    exact iff_of_false (mt safeRound_stop.1 (not_not_intro rfl)) (not_not_intro hharm)
  · rw [herror]
    refine iff_of_true (safeRound_stop.2 (by decide)) ?_
    rintro ⟨hmasked, hlen, hdata⟩
    exact absurd (hharm hmasked hlen) (by omega)
  · rw [hpayload]
    refine iff_of_true ?_ fun hharm => by omega
    dsimp only
    cases handleText read generate payload with
    | error error => exact safeRound_stop.2 nofun
    | ok replies => exact (safeRound_next hsize).2 (hfits.two_le_frameSize hlen)

theorem safeRound_handleFrame_iff (hfits : h.Fits buffer) (hsize : h.frameSize ≤ buffer.length) :
    SafeRound buffer (handleFrame read generate h buffer) ↔ ¬ h.Harms buffer := by
  by_cases htext : h.opcode = 0x1
  · exact safeRound_text_iff hfits htext hsize
  · unfold handleFrame
    split
    · rename_i hclose
      exact iff_of_true (safeRound_stop.2 (by decide)) (by simp [Header.Harms, hclose])
    · rename_i hclose
      split
      · rename_i hping
        refine iff_of_true ?_ (by simp [Header.Harms, hping])
        rcases copyBytes_cases hfits hsize 2 with herror | ⟨hlen, data, hdata⟩
        · rw [herror]
          exact safeRound_stop.2 (by decide)
        · rw [hdata]
          exact (safeRound_next hsize).2 (hfits.two_le_frameSize hlen)
      · rename_i hping
        -- a frame that is skipped: only its size matters
        rw [safeRound_next hsize]
        constructor
        · rintro htwo ⟨_, ⟨htext', _⟩ | ⟨_, _, _, hsmall⟩⟩
          · exact htext htext'
          · omega
        · intro hharmless
          by_contra hsmall
          exact hharmless ⟨hsize, Or.inr ⟨htext, hclose, hping, by omega⟩⟩

/-- The buffer begins with a header that does harm. -/
def Overruns (buffer : Bytes) : Prop :=
  2 ≤ buffer.length ∧ ∃ h, readHeader buffer = .ok (some h) ∧ h.Harms buffer

theorem safeRound_round_iff (buffer : Bytes) :
    SafeRound buffer (round read generate buffer) ↔ ¬ Overruns buffer := by
  unfold round Overruns
  split
  · rename_i hshort
    exact iff_of_true (safeRound_wait buffer) fun hharm => by omega
  · rename_i hlength
    obtain ⟨header, hheader, hfits⟩ := readHeader_ok (show 2 ≤ buffer.length by omega)
    rw [hheader]
    cases header with
    | none => exact iff_of_true (safeRound_wait buffer) (by simp)
    | some h =>
      dsimp only
      split
      · rename_i hwait
        -- a harmful header has passed the test of the size
        refine iff_of_true (safeRound_wait buffer) ?_
        rintro ⟨_, h', ⟨⟩, hharm⟩
        exact absurd hharm.1 (by omega)
      · rename_i hsize
        rw [safeRound_handleFrame_iff (hfits h rfl) (by omega), not_iff_not]
        constructor
        · intro hharm
          exact ⟨by omega, h, rfl, hharm⟩
        · rintro ⟨_, h', ⟨⟩, hharm⟩
          exact hharm

end Safety

/-- Over every stream in any segments: all reads are inside the buffer and every round takes two
bytes or leaves the loop, exactly if no round begins with a harmful header. -/
theorem webSocket_rounds_safe_iff (read : Bytes → Option UniValue) (generate : Bytes → List Bytes)
    (segments : List Bytes) :
    (∀ buffer ∈ loopHeads read generate segments,
        SafeRound buffer (round read generate buffer)) ↔
      ∀ buffer ∈ loopHeads read generate segments, ¬ Overruns buffer :=
  forall₂_congr fun buffer _ => safeRound_round_iff buffer

def overrunningText : Bytes :=
  [0x81, 0xFF, 0xFF, 0xFF, 0xFF, 0xFF, 0xFF, 0xFF, 0xFF, 0xFF, 0, 0, 0]

theorem mem_loopHeads_singleton (read : Bytes → Option UniValue) (generate : Bytes → List Bytes)
    {segment : Bytes} (h : segment ≠ []) : segment ∈ loopHeads read generate [segment] := by
  rw [loopHeads, allHeads, if_neg h, heads]
  simp

/-- The first byte of this text is read behind the end of the buffer. -/
theorem overrunningText_overruns :
    ¬ ∀ buffer ∈ loopHeads (fun _ => none) (fun _ => []) [overrunningText],
      SafeRound buffer (round (fun _ => none) (fun _ => []) buffer) := by
  intro hsafe
  have hhead := mem_loopHeads_singleton (fun _ => none) (fun _ => [])
    (show overrunningText ≠ [] by decide)
  have hround : round (fun _ => none) (fun _ => []) overrunningText = .stop [] .outOfBounds := by
    decide
  exact (hsafe _ hhead).1 [] hround

end WebSocket

end TKNC.Miner
