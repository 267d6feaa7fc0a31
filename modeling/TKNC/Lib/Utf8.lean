import Mathlib.Data.List.Infix
import TKNC.Lib.Numeral
import TKNC.Lib.Transducer

/-!
# Utf8 — cutting a byte stream between characters

The first byte of a sequence tells its length.  `unitLength` is how far a tolerant reader gets at
the head of a text: over a whole sequence, over one byte if that is not the start of one, or not at
all if the text ends before the sequence does.  `unfinished` is where such a reader stops; it does
not depend on how the text was cut (`unfinished_append`), and in a valid text it stops between two
characters.
-/

namespace TKNC.Lib.Utf8

open Numeral List

def sequenceLength (lead : UInt8) : Nat :=
  if lead < 0x80 then 1
  else if lead &&& 0xE0 = 0xC0 then 2
  else if lead &&& 0xF0 = 0xE0 then 3
  else if lead &&& 0xF8 = 0xF0 then 4
  else 1

def isContinuation (b : UInt8) : Bool :=
  b &&& 0xC0 = 0x80

theorem sequenceLength_pos (lead : UInt8) : 0 < sequenceLength lead := by
  unfold sequenceLength
  repeat' split
  all_goals decide

/-- A first byte with the continuation bytes that it announces. -/
inductive IsSequence : Bytes → Prop
  | mk {lead : UInt8} {rest : Bytes} (hlength : rest.length + 1 = sequenceLength lead)
      (hrest : rest.all isContinuation = true) : IsSequence (lead :: rest)

variable {n : Nat}

theorem isContinuation_ofNat (h : n < 64) :
    isContinuation (UInt8.ofNat (n + 128)) = true := by
  revert n
  decide

theorem sequenceLength_one (h : n < 128) : sequenceLength (UInt8.ofNat n) = 1 := by
  revert n
  decide

theorem sequenceLength_two (h : n < 32) : sequenceLength (UInt8.ofNat (n + 192)) = 2 := by
  revert n
  decide

theorem sequenceLength_three (h : n < 16) :
    sequenceLength (UInt8.ofNat (n + 224)) = 3 := by
  revert n
  decide

theorem sequenceLength_four (h : n < 8) : sequenceLength (UInt8.ofNat (n + 240)) = 4 := by
  revert n
  decide

theorem isSequence_utf8EncodeChar (c : Char) : IsSequence (String.utf8EncodeChar c) := by
  have hcont (n : Nat) : isContinuation (UInt8.ofNat (n % 64 + 128)) = true :=
    isContinuation_ofNat (Nat.mod_lt n (by decide))
  unfold String.utf8EncodeChar
  dsimp only
  -- one case for each length, as the encoder chooses it
  split
  · rename_i hsmall
    exact .mk (sequenceLength_one (by omega)).symm rfl
  · split
    · refine .mk (sequenceLength_two (Nat.mod_lt _ (by decide))).symm ?_
      simp only [all_cons, all_nil, hcont, Bool.and_true]
    · split
      · refine .mk (sequenceLength_three (Nat.mod_lt _ (by decide))).symm ?_
        simp only [all_cons, all_nil, hcont, Bool.and_true]
      · refine .mk (sequenceLength_four (Nat.mod_lt _ (by decide))).symm ?_
        simp only [all_cons, all_nil, hcont, Bool.and_true]

/-! ## The reader -/

def unitLength : Bytes → Option Nat
  | [] => none
  | lead :: rest =>
      if sequenceLength lead ≤ rest.length + 1 then
        some (if (rest.take (sequenceLength lead - 1)).all isContinuation then sequenceLength lead
          else 1)
      else none

variable {data : Bytes}

theorem unitLength_bounds (h : unitLength data = some n) :
    0 < n ∧ n ≤ data.length := by
  cases data with
  | nil => cases h
  | cons lead rest =>
    have hpos := sequenceLength_pos lead
    rw [unitLength] at h
    split at h
    · cases h
      rw [length_cons]
      split <;> omega
    · cases h

theorem unitLength_append (h : unitLength data = some n) (more : Bytes) :
    unitLength (data ++ more) = some n := by
  cases data with
  | nil => cases h
  | cons lead rest =>
    rw [unitLength] at h
    split at h
    · rename_i hfits
      have hfits' : sequenceLength lead ≤ (rest ++ more).length + 1 := by
        rw [length_append]
        omega
      have htake : (rest ++ more).take (sequenceLength lead - 1) =
          rest.take (sequenceLength lead - 1) :=
        take_append_of_le_length (by omega)
      rw [cons_append, unitLength, if_pos hfits', htake]
      exact h
    · cases h

theorem unitLength_of_isSequence {seq : Bytes} (h : IsSequence seq) :
    unitLength seq = some seq.length := by
  obtain ⟨hlength, hrest⟩ := h
  rename_i lead rest
  have htake : rest.take (sequenceLength lead - 1) = rest :=
    take_of_length_le (by omega)
  rw [unitLength, if_pos hlength.ge, htake, if_pos hrest, length_cons, hlength]

theorem unitLength_of_part {part more : Bytes} (h : IsSequence (part ++ more)) (hmore : more ≠ []) :
    unitLength part = none := by
  cases part with
  | nil => rfl
  | cons lead rest =>
    obtain ⟨hlength, _⟩ := h
    have hpos := length_pos_iff.2 hmore
    rw [append_eq, length_append] at hlength
    rw [unitLength, if_neg (by omega)]

def unfinished (data : Bytes) : Bytes :=
  match h : unitLength data with
  | none => data
  | some n =>
      have := unitLength_bounds h
      unfinished (data.drop n)
termination_by data.length

theorem unfinished_of_none (h : unitLength data = none) :
    unfinished data = data := by
  rw [unfinished]
  split
  · rfl
  · rename_i hsome
    rw [h] at hsome
    cases hsome

theorem unfinished_of_some (h : unitLength data = some n) :
    unfinished data = unfinished (data.drop n) := by
  rw [unfinished]
  split
  · rename_i hnone
    rw [h] at hnone
    cases hnone
  · rename_i hsome
    rw [h] at hsome
    cases hsome
    rfl

@[simp] theorem unfinished_nil : unfinished [] = [] :=
  unfinished_of_none rfl

theorem unfinished_suffix (data : Bytes) : unfinished data <:+ data := by
  induction data using unfinished.induct with
  | case1 data h =>
    rw [unfinished_of_none h]
  | case2 data n h _ ih =>
    rw [unfinished_of_some h]
    exact ih.trans (drop_suffix n data)

/-- Reading on from where the reader stopped is reading the whole text. -/
theorem unfinished_append (data more : Bytes) :
    unfinished (unfinished data ++ more) = unfinished (data ++ more) := by
  induction data using unfinished.induct with
  | case1 data h => rw [unfinished_of_none h]
  | case2 data n h _ ih =>
    -- the head was complete, so it is read alike in front of `more`
    have hdrop : (data ++ more).drop n = data.drop n ++ more :=
      drop_append_of_le_length (unitLength_bounds h).2
    rw [unfinished_of_some h, ih, unfinished_of_some (unitLength_append h more), hdrop]

theorem unfinished_unfinished (data : Bytes) : unfinished (unfinished data) = unfinished data := by
  simpa using unfinished_append data []

def finished (data : Bytes) : Bytes :=
  data.take (data.length - (unfinished data).length)

theorem finished_append_unfinished (data : Bytes) : finished data ++ unfinished data = data := by
  obtain ⟨front, hfront⟩ := unfinished_suffix data
  have hlength := congrArg length hfront
  rw [length_append] at hlength
  have hcut : data.length - (unfinished data).length = front.length := by omega
  rw [finished, hcut]
  nth_rewrite 1 [← hfront]
  rw [take_left' rfl]
  exact hfront

theorem take_length_finished (data : Bytes) :
    data.take (finished data).length = finished data := by
  have htake := congrArg (take (finished data).length) (finished_append_unfinished data)
  rwa [take_left, eq_comm] at htake

theorem drop_length_finished (data : Bytes) :
    data.drop (finished data).length = unfinished data := by
  have hdrop := congrArg (drop (finished data).length) (finished_append_unfinished data)
  rwa [drop_left, eq_comm] at hdrop

/-! ## Valid texts -/

/-- The encoding of a list of characters. -/
def Valid (data : Bytes) : Prop :=
  ∃ chars : List Char, data = chars.flatMap String.utf8EncodeChar

theorem unfinished_sequence_append {seq : Bytes} (h : IsSequence seq) (data : Bytes) :
    unfinished (seq ++ data) = unfinished data := by
  rw [unfinished_of_some (unitLength_append (unitLength_of_isSequence h) data),
    drop_left' rfl]

theorem finished_sequence_append {seq : Bytes} (h : IsSequence seq) (data : Bytes) :
    finished (seq ++ data) = seq ++ finished data := by
  have hwhole := finished_append_unfinished (seq ++ data)
  rw [unfinished_sequence_append h] at hwhole
  refine append_cancel_right (hwhole.trans ?_)
  rw [append_assoc, finished_append_unfinished]

theorem Valid.unfinished_eq_nil (h : Valid data) : unfinished data = [] := by
  obtain ⟨chars, rfl⟩ := h
  induction chars with
  | nil => exact unfinished_nil
  | cons c chars ih =>
    rw [flatMap_cons, unfinished_sequence_append (isSequence_utf8EncodeChar c), ih]

/-- At any cut of a valid text the reader has read whole characters, and what it has not read goes
on to a valid text. -/
theorem Valid.cut {data more : Bytes} (h : Valid (data ++ more)) :
    Valid (finished data) ∧ Valid (unfinished data ++ more) := by
  obtain ⟨chars, hchars⟩ := h
  -- induction on the characters: the cut is behind the first one or inside it
  induction chars generalizing data with
  | nil =>
    have hnil := append_eq_nil_iff.1 hchars
    rw [hnil.1, hnil.2]
    exact ⟨⟨[], by simp [finished]⟩, ⟨[], by simp⟩⟩
  | cons c chars ih =>
    have hseq := isSequence_utf8EncodeChar c
    rw [flatMap_cons] at hchars
    rcases Transducer.append_cut hchars with ⟨rest, rfl, hrest⟩ | ⟨more, hmore, hpart⟩
    · obtain ⟨⟨before, hbefore⟩, hafter⟩ := ih hrest
      rw [unfinished_sequence_append hseq, finished_sequence_append hseq]
      exact ⟨⟨c :: before, by rw [hbefore, flatMap_cons]⟩, hafter⟩
    · -- inside the first character nothing is read yet
      rw [hpart] at hseq
      have hnone := unfinished_of_none (unitLength_of_part hseq hmore)
      rw [finished, hnone, Nat.sub_self, take_zero]
      exact ⟨⟨[], rfl⟩, ⟨c :: chars, hchars.trans flatMap_cons.symm⟩⟩

end TKNC.Lib.Utf8
