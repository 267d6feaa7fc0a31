import TKNC.Lib.ByteOrder
import TKNC.Miner.WebSocket

/-!
# WebSocketFrames — the parser against the frames of RFC 6455

Unfragmented text and ping frames as a client sends them, masked or not, with the shortest of the
three encodings of their length.  The callback delivers every text unmasked, in any segmentation of
the stream; a ping is answered with its payload as it was sent, which is the application data only
where the mask changes nothing.  A text on which the handler throws is the last one that is looked
at.
-/

namespace TKNC.Miner.WebSocket

open Lib Lib.ByteOrder Lib.FrameReader Lib.Numeral List UInt8 Nat

inductive FrameKind where
  | text
  | ping
  deriving DecidableEq

def FrameKind.opcode : FrameKind → UInt8
  | text => 0x1
  | ping => 0x9

structure MaskKey where
  k0 : UInt8
  k1 : UInt8
  k2 : UInt8
  k3 : UInt8
  deriving DecidableEq

namespace MaskKey

def bytes (key : MaskKey) : Bytes :=
  [key.k0, key.k1, key.k2, key.k3]

def byte (key : MaskKey) (i : Nat) : UInt8 :=
  match i % 4 with
  | 0 => key.k0
  | 1 => key.k1
  | 2 => key.k2
  | _ => key.k3

def apply (key : MaskKey) : Nat → Bytes → Bytes
  | _, [] => []
  | i, b :: data => (b ^^^ key.byte i) :: key.apply (i + 1) data

theorem length_apply (key : MaskKey) (i : Nat) (data : Bytes) :
    (key.apply i data).length = data.length := by
  induction data generalizing i with
  | nil => rfl
  | cons b data ih => rw [apply, length_cons, length_cons, ih]

theorem apply_apply (key : MaskKey) (i : Nat) (data : Bytes) :
    key.apply i (key.apply i data) = data := by
  induction data generalizing i with
  | nil => rfl
  | cons b data ih => rw [apply, apply, ih, UInt8.xor_assoc, UInt8.xor_self, UInt8.xor_zero]

theorem getElem?_bytes (key : MaskKey) (i : Nat) : key.bytes[i % 4]? = some (key.byte i) := by
  have hlt := mod_lt i (show 4 > 0 by decide)
  unfold byte
  generalize i % 4 = r at hlt ⊢
  match r, hlt with
  | 0, _ => rfl
  | 1, _ => rfl
  | 2, _ => rfl
  | 3, _ => rfl

end MaskKey

structure Frame where
  kind : FrameKind
  mask : Option MaskKey
  payload : Bytes
  length_payload : payload.length < 2 ^ 63
  length_ping : kind = .ping → payload.length ≤ 125

def bigEndian (width n : Nat) : Bytes :=
  (leBytes width n).reverse

def lengthField (n : Nat) : UInt8 × Bytes :=
  if n ≤ 125 then (UInt8.ofNat n, [])
  else if n < 65536 then (126, bigEndian 2 n)
  else (127, bigEndian 8 n)

namespace Frame

def maskBytes (f : Frame) : Bytes :=
  match f.mask with
  | none => []
  | some key => key.bytes

def wireData (f : Frame) : Bytes :=
  match f.mask with
  | none => f.payload
  | some key => key.apply 0 f.payload

/-- The final bit with the opcode, the mask bit with the length, and the rest of the length. -/
def head (f : Frame) : Bytes :=
  [0x80 ||| f.kind.opcode,
    (if f.mask.isSome then 0x80 else 0) ||| (lengthField f.payload.length).1] ++
    (lengthField f.payload.length).2

def encode (f : Frame) : Bytes :=
  f.head ++ (f.maskBytes ++ f.wireData)

end Frame

/-! ## Reading at a position -/

variable {buffer rest : Bytes}

theorem byteAt_of_drop {i : Nat} {b : UInt8} (h : buffer.drop i = b :: rest) :
    byteAt buffer i = .ok b := by
  have hget : buffer[i]? = some b := by
    rw [← add_zero i, ← getElem?_drop, h]
    rfl
  rw [byteAt, hget]

theorem drop_succ_of_drop {i : Nat} {b : UInt8} (h : buffer.drop i = b :: rest) :
    buffer.drop (i + 1) = rest := by
  rw [← drop_drop, h]
  rfl

def shiftIn (payloadLen : Nat) (bytes : Bytes) : Nat :=
  bytes.foldl (fun len b => len <<< 8 ||| b.toNat) payloadLen

theorem lengthLoop_eq (bytes : Bytes) (i payloadLen : Nat) (h : buffer.drop i = bytes ++ rest) :
    lengthLoop buffer bytes.length i payloadLen = .ok (shiftIn payloadLen bytes) := by
  induction bytes generalizing i payloadLen with
  | nil => rfl
  | cons b bytes ih =>
    rw [length_cons, lengthLoop, byteAt_of_drop h]
    exact ih (i + 1) _ (drop_succ_of_drop h)

theorem shift_or_eq (len : Nat) (b : UInt8) : len <<< 8 ||| b.toNat = 256 * len + b.toNat := by
  rw [shiftLeft_eq, or_eq_add (i := 8) ⟨len, mul_comm _ _⟩ b.toNat_lt]
  omega

theorem shiftIn_reverse (bytes : Bytes) : shiftIn 0 bytes.reverse = leValue bytes := by
  induction bytes with
  | nil => rfl
  | cons b bytes ih =>
    rw [reverse_cons, shiftIn, foldl_append]
    change shiftIn 0 bytes.reverse <<< 8 ||| b.toNat = leValue (b :: bytes)
    rw [ih, shift_or_eq, leValue, add_comm]

theorem shiftIn_bigEndian {width n : Nat} (h : n < 256 ^ width) :
    shiftIn 0 (bigEndian width n) = n := by
  rw [bigEndian, shiftIn_reverse, leValue_leBytes_of_lt h]

theorem length_bigEndian (width n : Nat) : (bigEndian width n).length = width := by
  rw [bigEndian, length_reverse, length_leBytes]

theorem unmaskLoop_eq {mk : Nat} {key : MaskKey}
    (hkey : ∀ i, byteAt buffer (mk + i % 4) = .ok (key.byte i)) (md : Nat) (data : Bytes) (i : Nat)
    (hdata : buffer.drop (md + i) = data ++ rest) (hsize : i + data.length ≤ maxSize) :
    unmaskLoop buffer mk md data.length i = .ok (key.apply i data) := by
  -- the loop counts from the beginning of the payload, and so does the mask
  induction data generalizing i with
  | nil => rfl
  | cons b data ih =>
    rw [length_cons] at hsize
    have hrest := ih (i + 1) (drop_succ_of_drop hdata) (by omega)
    have hfull : ¬ maxSize ≤ i := by omega
    rw [length_cons, unmaskLoop, byteAt_of_drop hdata, hkey]
    simp only [bind, Except.bind, if_neg hfull, hrest]
    rfl

/-! ## The header of a frame -/

theorem FrameKind.opcode_of_first (kind : FrameKind) :
    (0x80 ||| kind.opcode) &&& 0x0F = kind.opcode := by
  cases kind <;> rfl

section SecondByte

variable {n : Nat} (h : n < 128) (masked : Bool)
include h

theorem length_of_second :
    ((if masked then 0x80 else 0) ||| ofNat n) &&& 0x7F = ofNat n := by
  revert n
  cases masked <;> decide

theorem masked_of_second :
    decide (((if masked then 0x80 else 0) ||| ofNat n) &&& 0x80 ≠ 0) = masked := by
  revert n
  cases masked <;> decide

end SecondByte

theorem readExtended_eq {buffer extension tail : Bytes} (opcode : UInt8) (masked : Bool)
    (hdrop : buffer.drop 2 = extension ++ tail) (hne : extension ≠ []) :
    readExtended buffer opcode masked extension.length =
      .ok (some ⟨opcode, masked, shiftIn 0 extension, 2 + extension.length⟩) := by
  have hlength := congrArg length hdrop
  have hpos := length_pos_iff.2 hne
  rw [length_drop, length_append] at hlength
  rw [readExtended, if_neg (by omega), lengthLoop_eq extension 2 0 hdrop]
  rfl

section ReadHeader

variable {b0 b1 : UInt8} {tail : Bytes}

theorem readHeader_cons :
    readHeader (b0 :: b1 :: tail) =
      if b1 &&& 0x7F = 126 then readExtended (b0 :: b1 :: tail) (b0 &&& 0x0F) (b1 &&& 0x80 ≠ 0) 2
      else if b1 &&& 0x7F = 127 then
        readExtended (b0 :: b1 :: tail) (b0 &&& 0x0F) (b1 &&& 0x80 ≠ 0) 8
      else .ok (some ⟨b0 &&& 0x0F, b1 &&& 0x80 ≠ 0, (b1 &&& 0x7F).toNat, 2⟩) :=
  rfl

/-- The seven bits announce an extension of `count` bytes. -/
def Announces (len7 : UInt8) (count : Nat) : Prop :=
  (len7 = 126 ∧ count = 2) ∨ (len7 = 127 ∧ count = 8)

theorem readHeader_of_announces {count : Nat} (h : Announces (b1 &&& 0x7F) count) :
    readHeader (b0 :: b1 :: tail) =
      readExtended (b0 :: b1 :: tail) (b0 &&& 0x0F) (b1 &&& 0x80 ≠ 0) count := by
  rw [readHeader_cons]
  rcases h with ⟨hlen, rfl⟩ | ⟨hlen, rfl⟩
  · rw [if_pos hlen]
  · rw [if_neg (by rw [hlen]; decide), if_pos hlen]

end ReadHeader

theorem ofNat_ne_code {n code : Nat} (hn : n ≤ 125) (hcode : 125 < code ∧ code < 128) :
    ofNat n ≠ ofNat code := by
  intro heq
  have hvalue := congrArg toNat heq
  rw [toNat_ofNat', toNat_ofNat'] at hvalue
  omega

theorem lengthField_cases {n : Nat} (h : n < 2 ^ 63) :
    (n ≤ 125 ∧ lengthField n = (ofNat n, [])) ∨
      ∃ code count, code < 128 ∧ Announces (ofNat code) count ∧ n < 256 ^ count ∧
        lengthField n = (ofNat code, bigEndian count n) := by
  unfold lengthField
  split
  · rename_i hshort
    exact Or.inl ⟨hshort, rfl⟩
  · split
    · rename_i hmedium
      exact Or.inr ⟨126, 2, by decide, Or.inl ⟨rfl, rfl⟩, hmedium, rfl⟩
    · exact Or.inr ⟨127, 8, by decide, Or.inr ⟨rfl, rfl⟩, by omega, rfl⟩

namespace Frame

def header (f : Frame) : Header where
  opcode := f.kind.opcode
  masked := f.mask.isSome
  payloadLen := f.payload.length
  headerSize := f.head.length

theorem readHeader_head (f : Frame) (rest : Bytes) :
    readHeader (f.head ++ rest) = .ok (some f.header) := by
  rw [header, head]
  rcases lengthField_cases f.length_payload with
    ⟨hn, hfield⟩ | ⟨code, count, hcode, hext, hn, hfield⟩
  · -- the seven bits are the length, and neither of the two codes
    have hn' : f.payload.length < 128 := by omega
    have h126 : ofNat f.payload.length ≠ 126 := ofNat_ne_code hn (by decide)
    have h127 : ofNat f.payload.length ≠ 127 := ofNat_ne_code hn (by decide)
    rw [hfield, append_nil, cons_append, singleton_append, readHeader_cons,
      length_of_second hn', if_neg h126, if_neg h127, masked_of_second hn',
      FrameKind.opcode_of_first, toNat_ofNat', mod_eq_of_lt (by omega)]
    rfl
  · -- the seven bits are a code, and the extension is read behind them
    have hne : bigEndian count f.payload.length ≠ [] := by
      rw [← length_pos_iff, length_bigEndian]
      rcases hext with ⟨-, rfl⟩ | ⟨-, rfl⟩ <;> decide
    rw [← length_of_second hcode f.mask.isSome] at hext
    rw [hfield, append_assoc, cons_append, singleton_append,
      readHeader_of_announces hext, masked_of_second hcode, FrameKind.opcode_of_first]
    have hread (b0 b1 : UInt8) :=
      readExtended_eq f.kind.opcode f.mask.isSome
        (show (b0 :: b1 :: (bigEndian count f.payload.length ++ rest)).drop 2 = _ from rfl) hne
    rw [shiftIn_bigEndian hn, length_bigEndian] at hread
    rw [hread, length_append, length_bigEndian]
    rfl

theorem readHeader_part (f : Frame) {part more : Bytes} (hhead : f.head = part ++ more)
    (hmore : more ≠ []) (hpart : 2 ≤ part.length) : readHeader part = .ok none := by
  obtain ⟨b0, b1, tail, rfl⟩ : ∃ b0 b1 tail, part = b0 :: b1 :: tail := by
    match part, hpart with
    | b0 :: b1 :: tail, _ => exact ⟨b0, b1, tail, rfl⟩
  have hpos := length_pos_iff.2 hmore
  rw [head, cons_append, singleton_append, cons_append, cons_append,
    cons.injEq, cons.injEq] at hhead
  obtain ⟨-, hb1, hextension⟩ := hhead
  have hlength := congrArg length hextension
  rw [length_append] at hlength
  rcases lengthField_cases f.length_payload with ⟨-, hfield⟩ | ⟨code, count, hcode, hext, -, hfield⟩
  · rw [hfield, length_nil] at hlength
    omega
  · rw [hfield, length_bigEndian] at hlength
    rw [← length_of_second hcode f.mask.isSome] at hext
    rw [hfield] at hb1
    rw [hb1] at hext
    have hshort : (b0 :: b1 :: tail).length < 2 + count := by
      rw [length_cons, length_cons]
      omega
    rw [readHeader_of_announces hext, readExtended, if_pos hshort]

/-! ## Whole frames -/

theorem length_wireData (f : Frame) : f.wireData.length = f.payload.length := by
  unfold wireData
  split
  · rfl
  · exact MaskKey.length_apply _ _ _

theorem dataOffset_header (f : Frame) :
    f.header.dataOffset = f.head.length + f.maskBytes.length := by
  rw [Header.dataOffset, header, maskBytes]
  cases f.mask <;> rfl

theorem length_encode (f : Frame) :
    f.encode.length = f.header.dataOffset + f.payload.length := by
  rw [encode, length_append, length_append, length_wireData, dataOffset_header,
    add_assoc]

theorem two_le_length_head (f : Frame) : 2 ≤ f.head.length := by
  rw [head, length_append]
  exact le_add_right 2 _

theorem frameSize_header (f : Frame) : f.header.frameSize = f.encode.length := by
  obtain ⟨header, hheader, hfits⟩ :=
    readHeader_ok (show 2 ≤ (f.head ++ []).length by simpa using f.two_le_length_head)
  rw [readHeader_head] at hheader
  cases hheader
  have hlength := f.length_payload
  rw [length_encode]
  exact (hfits f.header rfl).frameSize_eq (by rw [maxSize]; exact le_sub_one_of_lt hlength)

theorem drop_dataOffset (f : Frame) (rest : Bytes) :
    (f.encode ++ rest).drop f.header.dataOffset = f.wireData ++ rest := by
  rw [dataOffset_header, encode, ← append_assoc, append_assoc _ _ rest]
  exact drop_left' length_append

theorem copyBytes_encode (f : Frame) (rest : Bytes) (size : Nat)
    (hsize : size + f.payload.length ≤ maxSize) :
    copyBytes (f.encode ++ rest) size f.header.dataOffset f.payload.length = .ok f.wireData := by
  have hlength : f.header.dataOffset + f.payload.length ≤ (f.encode ++ rest).length := by
    rw [length_append, length_encode]
    exact le_add_right _ _
  rw [copyBytes, if_neg (by omega), if_pos hlength, drop_dataOffset, ← length_wireData,
    take_left]

theorem byteAt_mask (f : Frame) {key : MaskKey} (hmask : f.mask = some key) (rest : Bytes) (i : Nat)
    : byteAt (f.encode ++ rest) (f.head.length + i % 4) = .ok (key.byte i) := by
  have hlt := Nat.mod_lt i (show 4 > 0 by decide)
  have hget : (f.encode ++ rest)[f.head.length + i % 4]? = some (key.byte i) := by
    rw [encode, maskBytes, hmask, append_assoc, append_assoc,
      getElem?_append_right (Nat.le_add_right _ _), Nat.add_sub_cancel_left,
      getElem?_append_left hlt, MaskKey.getElem?_bytes]
  rw [byteAt, hget]

theorem readText_encode (f : Frame) (rest : Bytes) :
    readText f.header (f.encode ++ rest) = .ok f.payload := by
  have hlength : f.payload.length ≤ maxSize := le_sub_one_of_lt f.length_payload
  have hoffset := f.dataOffset_header
  cases hmask : f.mask with
  | none =>
    have hcopy := f.copyBytes_encode rest 0 (by omega)
    rw [maskBytes, hmask, length_nil, add_zero] at hoffset
    rw [hoffset, wireData, hmask] at hcopy
    rw [readText, if_neg (by simp [header, hmask])]
    exact hcopy
  | some key =>
    have hdrop := f.drop_dataOffset rest
    rw [maskBytes, hmask] at hoffset
    rw [hoffset, wireData, hmask] at hdrop
    rw [readText, if_pos (by simp [header, hmask])]
    have hunmask := unmaskLoop_eq (f.byteAt_mask hmask rest) (f.head.length + 4)
      (key.apply 0 f.payload) 0 hdrop (by rwa [MaskKey.length_apply, zero_add])
    rw [MaskKey.apply_apply, MaskKey.length_apply] at hunmask
    exact hunmask

end Frame

/-! ## What the callback does with frames -/

section Decode

variable (read : Bytes → Option UniValue) (generate : Bytes → List Bytes)

/-- What is written for a text; nothing if the handler throws. -/
def replies (payload : Bytes) : List Bytes :=
  match handleText read generate payload with
  | .ok frames => frames
  | .error _ => []

def thrown (f : Frame) : Option Ending :=
  match f.kind with
  | .ping => none
  | .text =>
      match handleText read generate f.payload with
      | .ok _ => none
      | .error error => some (.jsonError error)

def effect (f : Frame) : Effect :=
  match f.kind with
  | .text => .text f.payload (replies read generate f.payload)
  | .ping => .pong (pongFrame f.payload.length f.wireData)

def expected (f : Frame) : Effect :=
  match f.kind with
  | .text => .text f.payload (replies read generate f.payload)
  | .ping => .pong ([0x80 ||| 0xA, UInt8.ofNat f.payload.length] ++ f.payload)

variable {read generate}

theorem round_encode (f : Frame) (rest : Bytes) :
    round read generate (f.encode ++ rest) =
      handleFrame read generate f.header (f.encode ++ rest) := by
  have hlength : (f.encode ++ rest).length = f.header.frameSize + rest.length := by
    rw [length_append, Frame.frameSize_header]
  have htwo := f.two_le_length_head
  have hheader : readHeader (f.encode ++ rest) = .ok (some f.header) := by
    rw [Frame.encode, append_assoc]
    exact f.readHeader_head _
  have hlong : ¬ (f.encode ++ rest).length < 2 := by
    rw [Frame.encode, append_assoc, length_append]
    omega
  rw [round, if_neg hlong, hheader]
  dsimp only
  rw [if_neg (by omega)]

theorem round_part (f : Frame) {part more : Bytes} (hencode : f.encode = part ++ more)
    (hmore : more ≠ []) : round read generate part = .wait := by
  have hpos := length_pos_iff.2 hmore
  unfold round
  split
  · rfl
  · rename_i hlength
    have hcut := hencode.symm
    rw [Frame.encode] at hcut
    rcases Transducer.append_cut hcut with ⟨body, rfl, -⟩ | ⟨missing, hmissing, hhead⟩
    · -- the head is complete: the size of the frame is known, and not reached
      have hshort : (f.head ++ body).length < f.header.frameSize := by
        have hwhole := congrArg length hencode
        rw [length_append] at hwhole
        rw [Frame.frameSize_header]
        omega
      rw [f.readHeader_head]
      exact if_pos hshort
    · rw [f.readHeader_part hhead hmissing (by omega)]

theorem drop_frameSize (f : Frame) (rest : Bytes) :
    (f.encode ++ rest).drop f.header.frameSize = rest :=
  drop_left' f.frameSize_header.symm

theorem handleFrame_ping (f : Frame) (hkind : f.kind = .ping) (rest : Bytes) :
    handleFrame read generate f.header (f.encode ++ rest) =
      .next [effect read generate f] rest := by
  have hopcode : f.header.opcode = 0x9 := by rw [Frame.header, hkind]; rfl
  have hsize : 2 + f.payload.length ≤ maxSize :=
    (Nat.add_le_add_left (f.length_ping hkind) 2).trans (by decide)
  have hcopy : copyBytes (f.encode ++ rest) 2 f.header.dataOffset f.header.payloadLen =
      .ok f.wireData :=
    f.copyBytes_encode rest 2 hsize
  rw [handleFrame, if_neg (by rw [hopcode]; decide), if_pos hopcode, hcopy, drop_frameSize, effect,
    hkind]
  rfl

theorem handleFrame_text (f : Frame) (hkind : f.kind = .text) (rest : Bytes) :
    handleFrame read generate f.header (f.encode ++ rest) =
      match thrown read generate f with
      | none => .next [effect read generate f] rest
      | some ending => .stop [effect read generate f] ending := by
  have hopcode : f.header.opcode = 0x1 := by rw [Frame.header, hkind]; rfl
  rw [handleFrame, if_neg (by rw [hopcode]; decide), if_neg (by rw [hopcode]; decide),
    if_pos hopcode, f.readText_encode, drop_frameSize, thrown, effect, hkind, replies]
  dsimp only
  cases handleText read generate f.payload with
  | error error => rfl
  | ok frames => rfl

theorem takes_encode :
    Takes (round read generate) Frame.encode (fun f => [effect read generate f])
      (thrown read generate) where
  nonempty := by
    intro f hnil
    have hlength := f.two_le_length_head
    rw [Frame.encode, append_eq_nil_iff] at hnil
    rw [hnil.1, length_nil] at hlength
    omega
  empty := rfl
  part := fun f part more hencode hmore => round_part f hencode hmore
  goes_on := by
    intro f hthrown rest
    rw [round_encode]
    cases hkind : f.kind with
    | ping => exact handleFrame_ping f hkind rest
    | text => rw [handleFrame_text f hkind rest, hthrown]
  stops := by
    intro f ending hthrown rest
    rw [round_encode]
    cases hkind : f.kind with
    | ping =>
      rw [thrown, hkind] at hthrown
      cases hthrown
    | text => rw [handleFrame_text f hkind rest, hthrown]

/-- In any segmentation the frames are taken one after the other, up to a text on which the handler
throws. -/
theorem readAll_frames (frames : List Frame) {segments : List Bytes}
    (hsegments : segments.flatten = frames.flatMap Frame.encode) :
    (readAll read generate segments).2 =
      delivered (fun f => [effect read generate f]) (thrown read generate) frames :=
  takes_encode.run_segments rfl hsegments

/-- A ping is answered as it should be if its payload looks the same under the mask. -/
theorem effect_eq_expected_iff (f : Frame) :
    effect read generate f = expected read generate f ↔
      (f.kind = .ping → f.wireData = f.payload) := by
  rw [effect, expected]
  cases hkind : f.kind with
  | text => simp
  | ping =>
    -- the length of a ping fits into the seven bits
    have hlength := f.length_ping hkind
    have hlow : f.payload.length &&& 0x7F = f.payload.length := by
      rw [show 0x7F = 2 ^ 7 - 1 from rfl, and_two_pow_sub_one_eq_mod]
      exact mod_eq_of_lt (by omega)
    have hfirst : (0x80 ||| 0xA : UInt8) = 0x8A := rfl
    simp [pongFrame, hlow, hfirst]

end Decode

/-- The callback decodes a stream of frames as RFC 6455 has it, however it is cut, exactly if every
ping has a payload that its mask does not change and no text but the last frame makes the handler
throw. -/
theorem webSocket_decodes_iff (read : Bytes → Option UniValue) (generate : Bytes → List Bytes)
    (frames : List Frame) (segments : List Bytes)
    (hsegments : segments.flatten = frames.flatMap Frame.encode) :
    (readAll read generate segments).2 = frames.map (expected read generate) ↔
      (∀ f ∈ frames, f.kind = .ping → f.wireData = f.payload) ∧
        ∀ f ∈ frames.dropLast, thrown read generate f = none := by
  rw [readAll_frames frames hsegments, delivered_eq_map_iff]
  exact and_congr_left fun _ => forall₂_congr fun f _ => effect_eq_expected_iff f

/-- A masked text and a ping without a mask, cut behind the third byte. -/
def greeting : List Frame :=
  [⟨.text, some ⟨1, 2, 3, 4⟩, ascii "Hi", by decide, nofun⟩,
    ⟨.ping, none, ascii "p", by decide, by decide⟩]

theorem webSocket_decodes_greeting :
    (readAll (fun _ => none) (fun _ => []) [[0x81, 0x82, 1], [2, 3, 4, 73, 107, 0x89, 1, 112]]).2 =
      [.text (ascii "Hi") [], .pong [0x8A, 1, 112]] := by
  have hsegments : [[0x81, 0x82, 1], [2, 3, 4, 73, 107, 0x89, 1, 112]].flatten =
      greeting.flatMap Frame.encode := by
    decide
  have hpings : ∀ f ∈ greeting, f.kind = .ping → f.wireData = f.payload := by
    decide
  have hthrown : ∀ f ∈ greeting.dropLast, thrown (fun _ => none) (fun _ => []) f = none := by
    decide
  exact ((webSocket_decodes_iff _ _ greeting _ hsegments).2 ⟨hpings, hthrown⟩).trans (by decide)

def maskedPing : Frame :=
  ⟨.ping, some ⟨1, 2, 3, 4⟩, ascii "p", by decide, by decide⟩

/-- The pong carries the byte under its mask. -/
theorem maskedPing_not_decoded :
    (readAll (fun _ => none) (fun _ => []) [maskedPing.encode]).2 ≠
      [expected (fun _ => none) (fun _ => []) maskedPing] := by
  rw [readAll_frames [maskedPing] (by simp)]
  decide

end TKNC.Miner.WebSocket
