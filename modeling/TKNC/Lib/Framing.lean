import TKNC.Lib.ByteOrder

/-!
# Framing — messages behind a length in a byte stream

A stream carries messages, each behind its length as a 32-bit word.  A receiver splits what it has
into the complete messages and a remainder; a length of zero or above a limit ends the stream.

The split of a stream does not depend on how the stream was cut into pieces (`split_append`).
-/

namespace TKNC.Lib.Framing

open ByteOrder ByteOrder.Word Numeral List

/-- The complete messages of a stream, and what is left of it; `none` after a length that is not
allowed. -/
def split (limit : Nat) (stream : Bytes) : List Bytes × Option Bytes :=
  if stream.length < 4 then
    ([], some stream)
  else
    let len := (u32.peek stream 0).toNat
    if limit < len ∨ len = 0 then
      ([], none)
    else if stream.length < 4 + len then
      ([], some stream)
    else
      let s := split limit (stream.drop (4 + len))
      ((stream.drop 4).take len :: s.1, s.2)
termination_by stream.length
decreasing_by
  rw [List.length_drop]
  omega

def frame (message : Bytes) : Bytes :=
  u32.encode (UInt32.ofNat message.length) ++ message

section Split

variable {limit : Nat} {stream : Bytes}

theorem split_of_short (h : stream.length < 4) : split limit stream = ([], some stream) := by
  rw [split, if_pos h]

theorem split_of_invalid (h : 4 ≤ stream.length)
    (hlen : limit < (u32.peek stream 0).toNat ∨ (u32.peek stream 0).toNat = 0) :
    split limit stream = ([], none) := by
  rw [split, if_neg (by omega)]
  exact if_pos hlen

theorem split_of_incomplete (h : 4 ≤ stream.length)
    (hlen : ¬(limit < (u32.peek stream 0).toNat ∨ (u32.peek stream 0).toNat = 0))
    (hshort : stream.length < 4 + (u32.peek stream 0).toNat) :
    split limit stream = ([], some stream) := by
  rw [split, if_neg (by omega)]
  exact (if_neg hlen).trans (if_pos hshort)

theorem split_of_complete
    (hlen : ¬(limit < (u32.peek stream 0).toNat ∨ (u32.peek stream 0).toNat = 0))
    (h : 4 + (u32.peek stream 0).toNat ≤ stream.length) :
    split limit stream =
      ((stream.drop 4).take (u32.peek stream 0).toNat ::
        (split limit (stream.drop (4 + (u32.peek stream 0).toNat))).1,
       (split limit (stream.drop (4 + (u32.peek stream 0).toNat))).2) := by
  rw [split, if_neg (by omega)]
  exact (if_neg hlen).trans (if_neg (by omega))

end Split

theorem split_append (limit : Nat) (stream later : Bytes) :
    split limit (stream ++ later) =
      match (split limit stream).2 with
      | none => split limit stream
      | some rest =>
          ((split limit stream).1 ++ (split limit (rest ++ later)).1,
           (split limit (rest ++ later)).2) := by
  by_cases hshort : stream.length < 4
  · rw [split_of_short hshort]
    rfl
  · have hword : 0 + u32.width ≤ stream.length := by
      rw [width_u32]
      omega
    have hpeek : u32.peek (stream ++ later) 0 = u32.peek stream 0 :=
      u32.peek_append_left hword later
    have hlength : (stream ++ later).length = stream.length + later.length := length_append
    by_cases hlen : limit < (u32.peek stream 0).toNat ∨ (u32.peek stream 0).toNat = 0
    · rw [split_of_invalid (by omega) hlen, split_of_invalid (by omega) (by rwa [hpeek])]
    · by_cases hcomplete : 4 + (u32.peek stream 0).toNat ≤ stream.length
      · -- the first message is the same, and the induction is on what follows it
        have hbody : ((stream ++ later).drop 4).take (u32.peek stream 0).toNat =
            (stream.drop 4).take (u32.peek stream 0).toNat := by
          rw [drop_append_of_le_length (by omega), take_append_of_le_length]
          rw [length_drop]
          omega
        rw [split_of_complete hlen hcomplete,
          split_of_complete (by rwa [hpeek]) (by rw [hpeek]; omega), hpeek, hbody,
          drop_append_of_le_length hcomplete, split_append limit _ later]
        obtain ⟨messages, rest⟩ := split limit (stream.drop (4 + (u32.peek stream 0).toNat))
        cases rest <;> rfl
      · rw [split_of_incomplete (by omega) hlen (by omega)]
        rfl
termination_by stream.length
decreasing_by
  rw [length_drop]
  omega

variable {limit : Nat}

theorem split_rest {stream rest : Bytes} (h : (split limit stream).2 = some rest) :
    split limit rest = ([], some rest) := by
  fun_induction split limit stream with
  | case1 stream hshort =>
    cases h
    exact split_of_short hshort
  | case2 stream hshort len hlen => cases h
  | case3 stream hshort len hlen hincomplete =>
    cases h
    exact split_of_incomplete (by omega) hlen hincomplete
  | case4 stream hshort len hlen hincomplete s ih => exact ih h

theorem split_frame {message : Bytes} (hne : message ≠ []) (hlimit : message.length ≤ limit)
    (hword : message.length < 2 ^ 32) :
    split limit (frame message) = ([message], some []) := by
  have hpos := length_pos_iff.2 hne
  have hlength : (frame message).length = 4 + message.length := by simp [frame]
  have hpeek : (u32.peek (frame message) 0).toNat = message.length := by
    have hencoded : u32.peek (frame message) 0 = UInt32.ofNat message.length :=
      u32.peek_encode _ _
    rw [hencoded]
    exact UInt32.toNat_ofNat_of_lt hword
  have hbody : (frame message).drop 4 = message := drop_left' (u32.length_encode _)
  have hend : (frame message).drop (4 + message.length) = [] := drop_of_length_le (by omega)
  rw [split_of_complete (by omega) (by omega), hpeek, hbody, hend, take_length,
    split_of_short (by decide)]

theorem bounds_of_mem_split {stream message : Bytes} (h : message ∈ (split limit stream).1) :
    message ≠ [] ∧ message.length ≤ limit := by
  fun_induction split limit stream with
  | case1 stream hshort => cases h
  | case2 stream hshort len hlen => cases h
  | case3 stream hshort len hlen hincomplete => cases h
  | case4 stream hshort len hlen hincomplete s ih =>
    rcases mem_cons.1 h with rfl | h
    · have hlength : ((stream.drop 4).take len).length = len := by
        rw [length_take, length_drop]
        omega
      refine ⟨fun hnil => ?_, by omega⟩
      rw [hnil, length_nil] at hlength
      omega
    · exact ih h

theorem length_split_le (limit : Nat) (stream : Bytes) :
    ((split limit stream).1.map fun message => 4 + message.length).sum ≤ stream.length := by
  fun_induction split limit stream with
  | case1 stream hshort => exact Nat.zero_le _
  | case2 stream hshort len hlen => exact Nat.zero_le _
  | case3 stream hshort len hlen hincomplete => exact Nat.zero_le _
  | case4 stream hshort len hlen hincomplete s ih =>
    have hrest : (s.1.map fun message => 4 + message.length).sum ≤
        (stream.drop (4 + len)).length := ih
    rw [length_drop] at hrest
    rw [map_cons, sum_cons, length_take, length_drop]
    omega

theorem split_frames (hlimit : limit < 2 ^ 32) {messages : List Bytes}
    (h : ∀ message ∈ messages, message ≠ [] ∧ message.length ≤ limit) :
    split limit (messages.flatMap frame) = (messages, some []) := by
  induction messages with
  | nil => exact split_of_short (by decide)
  | cons message messages ih =>
    obtain ⟨⟨hne, hle⟩, hrest⟩ := forall_mem_cons.1 h
    rw [flatMap_cons, split_append, split_frame hne hle (by omega)]
    dsimp only
    rw [nil_append, ih hrest]
    rfl

theorem length_frame (message : Bytes) : (frame message).length = 4 + message.length := by
  rw [frame, length_append, u32.length_encode, width_u32]

/-! ## Segments taken for messages -/

section Segments

variable {α β : Type*} {take : List α → Option β} {encode : β → List α}

/-- A segment that yields at most one message, no longer than itself, yields no more than it has. -/
theorem length_flatMap_filterMap_le
    (hle : ∀ segment message, take segment = some message →
      (encode message).length ≤ segment.length) (segments : List (List α)) :
    ((segments.filterMap take).flatMap encode).length ≤ segments.flatten.length := by
  induction segments with
  | nil => exact Nat.le_refl 0
  | cons segment segments ih =>
    rw [flatten_cons, length_append]
    cases h : take segment with
    | none =>
      rw [filterMap_cons_none h]
      omega
    | some message =>
      have hfirst := hle segment message h
      rw [filterMap_cons_some h, flatMap_cons, length_append]
      omega

/-- If all messages of a stream are taken from its segments, one from each at most, then the
segments are the messages. -/
theorem segments_eq_of_filterMap
    (hle : ∀ segment message, take segment = some message →
      (encode message).length ≤ segment.length) {segments : List (List α)}
    (hne : ∀ segment ∈ segments, segment ≠ [])
    (hstream : segments.flatten = (segments.filterMap take).flatMap encode) :
    segments = (segments.filterMap take).map encode := by
  induction segments with
  | nil => rfl
  | cons segment segments ih =>
    obtain ⟨hsegment, hrest⟩ := forall_mem_cons.1 hne
    have hlater := length_flatMap_filterMap_le hle segments
    have hlength := congrArg length hstream
    rw [flatten_cons, length_append] at hlength
    cases h : take segment with
    | none =>
      -- the bytes of this segment are missing in the messages
      have hpos := length_pos_iff.2 hsegment
      rw [filterMap_cons_none h] at hlength
      omega
    | some message =>
      have hfirst := hle segment message h
      rw [filterMap_cons_some h, flatMap_cons, length_append] at hlength
      rw [flatten_cons, filterMap_cons_some h, flatMap_cons] at hstream
      obtain ⟨hhead, htail⟩ := append_inj hstream (by omega)
      rw [filterMap_cons_some h, map_cons, ← ih hrest htail, hhead]

end Segments

end TKNC.Lib.Framing
