import Mathlib.Data.List.DropRight
import TKNC.Lib.TextSearch
import TKNC.Lib.Transducer
import TKNC.Lib.Utf8

/-!
# StreamFilter — what a streamed chat reply contains

The callback of `ProcessAsyncChatTask` gets the output of the model token by token.  It stops at the
first control mark, holds back a lone `<` and the bytes of an unfinished character, and sends the
rest as chunks; bytes that are still held back at the end are flushed.

Without control marks all but a last lone `<` is sent.  At a control mark everything that is held
back is dropped, and so is the token that completes the mark, whatever stands in front of the mark.
-/

namespace TKNC.Miner

open Lib Lib.Numeral Lib.TextSearch Lib.Transducer Lib.Utf8 List

/-! ## Complete characters -/

/-- The loop of `ExtractCompleteUtf8`: where the complete part ends, and how many bytes of an
unfinished sequence follow. -/
def extractLoop (data : Bytes) (i completeEnd : Nat) : Nat × Nat :=
  if h : i < data.length then
    let charLen := sequenceLength data[i]
    if i + charLen ≤ data.length then
      let valid := ((data.drop (i + 1)).take (charLen - 1)).all isContinuation
      let next := if valid then i + charLen else i + 1
      extractLoop data next next
    else (completeEnd, data.length - i)
  else (completeEnd, 0)
termination_by data.length - i
decreasing_by
  have := sequenceLength_pos data[i]
  split <;> omega

def extractCompleteUtf8 (data : Bytes) : Nat × Nat :=
  extractLoop data 0 0

theorem unitLength_drop {data : Bytes} {i : Nat} (h : i < data.length) :
    unitLength (data.drop i) =
      if i + sequenceLength data[i] ≤ data.length then
        some (if ((data.drop (i + 1)).take (sequenceLength data[i] - 1)).all isContinuation then
          sequenceLength data[i] else 1)
      else none := by
  have hfits : sequenceLength data[i] ≤ (data.drop (i + 1)).length + 1 ↔
      i + sequenceLength data[i] ≤ data.length := by
    rw [length_drop]
    omega
  rw [drop_eq_getElem_cons h, unitLength]
  simp only [hfits]

theorem extractLoop_eq (data : Bytes) (i : Nat) (hi : i ≤ data.length) :
    extractLoop data i i =
      (data.length - (unfinished (data.drop i)).length, (unfinished (data.drop i)).length) := by
  -- both positions of the loop are the same at the beginning of a round
  rw [extractLoop]
  split
  · rename_i hlt
    have hpos := sequenceLength_pos data[i]
    have hunit := unitLength_drop hlt
    dsimp only
    split
    · rename_i hfits
      rw [if_pos hfits] at hunit
      rw [unfinished_of_some hunit, drop_drop]
      have hnext : ∀ b : Bool,
          (if b = true then i + sequenceLength data[i] else i + 1) =
            i + if b = true then sequenceLength data[i] else 1 := by
        intro b
        cases b <;> rfl
      rw [hnext]
      apply extractLoop_eq
      split <;> omega
    · rename_i hfits
      rw [if_neg hfits] at hunit
      rw [unfinished_of_none hunit, length_drop]
      congr 1
      omega
  · rename_i hge
    rw [drop_of_length_le (by omega), unfinished_nil]
    congr 1
    rw [length_nil]
    omega
termination_by data.length - i
decreasing_by
  split <;> omega

theorem extractCompleteUtf8_eq (data : Bytes) :
    extractCompleteUtf8 data = ((finished data).length, (unfinished data).length) := by
  have hlength := congrArg length (finished_append_unfinished data)
  rw [length_append] at hlength
  rw [extractCompleteUtf8, extractLoop_eq data 0 (Nat.zero_le _), drop_zero]
  congr 1
  omega

structure StreamFilter where
  fullResponse : Bytes
  stopEmitting : Bool
  pendingLt : Bytes
  pendingUtf8 : Bytes
  deriving DecidableEq

def controlStart : Bytes := ascii "<|"

def controlEnd : Bytes := ascii "|>"

def loneLt : Bytes := ascii "<"

def isRoleMarker (token : Bytes) : Bool :=
  token = ascii "Human:" || token = ascii "Assistant:"

def sendSseContent (text : Bytes) : List Bytes :=
  if text = [] then [] else [text]

namespace StreamFilter

def init : StreamFilter where
  fullResponse := []
  stopEmitting := false
  pendingLt := []
  pendingUtf8 := []

def onToken (s : StreamFilter) (token : Bytes) : StreamFilter × List Bytes :=
  let s := { s with fullResponse := s.fullResponse ++ token }
  if s.stopEmitting then (s, [])
  else if contains controlStart s.fullResponse then
    -- the token is dropped as a whole, and so is all that is held back
    ({ s with stopEmitting := true, pendingLt := [], pendingUtf8 := [] }, [])
  else if s.pendingLt ≠ [] ∧ token.head? = some 124 then ({ s with pendingLt := [] }, [])
  else
    -- nothing changes here if no `<` is held back
    let s := { s with pendingLt := [], pendingUtf8 := s.pendingUtf8 ++ s.pendingLt }
    if contains controlEnd token then (s, [])
    else if isRoleMarker token then (s, [])
    else if token = loneLt then ({ s with pendingLt := loneLt }, [])
    else
      let pendingUtf8 := s.pendingUtf8 ++ token
      let extracted := extractCompleteUtf8 pendingUtf8
      if extracted.1 > 0 then
        ({ s with pendingUtf8 := if extracted.2 > 0 then pendingUtf8.drop extracted.1 else [] },
          sendSseContent (pendingUtf8.take extracted.1))
      else ({ s with pendingUtf8 := pendingUtf8 }, [])

def flush (s : StreamFilter) : List Bytes :=
  if s.pendingUtf8 ≠ [] ∧ s.stopEmitting = false then sendSseContent s.pendingUtf8 else []

end StreamFilter

open StreamFilter (onToken)

def streamedChunks (tokens : List Bytes) : List Bytes :=
  (run onToken StreamFilter.init tokens).2

def flushedChunks (tokens : List Bytes) : List Bytes :=
  (run onToken StreamFilter.init tokens).1.flush

def emittedText (tokens : List Bytes) : Bytes :=
  (streamedChunks tokens ++ flushedChunks tokens).flatten

@[simp] theorem flatten_sendSseContent (text : Bytes) : (sendSseContent text).flatten = text := by
  unfold sendSseContent
  split
  · rename_i hnil
    rw [hnil, flatten_nil]
  · exact flatten_singleton

namespace StreamFilter

variable {s : StreamFilter} {token : Bytes}

def held (s : StreamFilter) : Bytes :=
  s.pendingUtf8 ++ s.pendingLt

theorem onToken_of_stopped (hstop : s.stopEmitting = true) :
    onToken s token = ({ s with fullResponse := s.fullResponse ++ token }, []) := by
  rw [onToken, if_pos hstop]

theorem onToken_of_control (hstop : s.stopEmitting = false)
    (hcontrol : contains controlStart (s.fullResponse ++ token) = true) :
    onToken s token = (⟨s.fullResponse ++ token, true, [], []⟩, []) := by
  rw [onToken, if_neg (by simp [hstop]), if_pos hcontrol]

/-- The token goes through all tests up to the one for a lone `<`. -/
structure Passes (s : StreamFilter) (token : Bytes) : Prop where
  running : s.stopEmitting = false
  control : contains controlStart (s.fullResponse ++ token) = false
  bar : ¬ (s.pendingLt ≠ [] ∧ token.head? = some 124)
  fragment : contains controlEnd token = false
  role : isRoleMarker token = false

theorem Passes.onToken_loneLt (h : Passes s loneLt) :
    onToken s loneLt = (⟨s.fullResponse ++ loneLt, false, loneLt, s.held⟩, []) := by
  rw [onToken, if_neg (by simp [h.running]), if_neg (by simp [h.control]), if_neg h.bar,
    if_neg (by simp [h.fragment]), if_neg (by simp [h.role]), if_pos rfl, h.running]
  rfl

theorem Passes.onToken_of_ne (h : Passes s token) (hne : token ≠ loneLt) :
    onToken s token =
      (⟨s.fullResponse ++ token, false, [], unfinished (s.held ++ token)⟩,
        sendSseContent (finished (s.held ++ token))) := by
  rw [onToken, if_neg (by simp [h.running]), if_neg (by simp [h.control]), if_neg h.bar,
    if_neg (by simp [h.fragment]), if_neg (by simp [h.role]), if_neg hne, h.running]
  dsimp only
  rw [← held, extractCompleteUtf8_eq]
  dsimp only
  rw [take_length_finished, drop_length_finished]
  split
  · have hpending : (if (unfinished (s.held ++ token)).length > 0 then
        unfinished (s.held ++ token) else []) = unfinished (s.held ++ token) := by
      split
      · rfl
      · rename_i hzero
        exact (length_eq_zero_iff.1 (by omega)).symm
    rw [hpending]
  · rename_i hzero
    have hnil : finished (s.held ++ token) = [] := length_eq_zero_iff.1 (by omega)
    have hwhole := finished_append_unfinished (s.held ++ token)
    rw [hnil, nil_append] at hwhole
    rw [hnil, hwhole]
    rfl

end StreamFilter

/-! ## Tokens without a control mark -/

/-- What is held back behind tokens without a control mark: the bytes of an unfinished character,
and the lone `<` at the end. -/
def heldBack (tokens : List Bytes) : Bytes :=
  unfinished (tokens.rdropWhile (· = loneLt)).flatten ++
    (tokens.rtakeWhile (· = loneLt)).flatten

theorem heldBack_concat_loneLt (tokens : List Bytes) :
    heldBack (tokens ++ [loneLt]) = heldBack tokens ++ loneLt := by
  rw [heldBack, rdropWhile_concat_pos _ _ _ (by simp),
    rtakeWhile_concat_pos _ _ _ (by simp), flatten_append, flatten_singleton,
    ← append_assoc]
  rfl

theorem unfinished_heldBack_append (tokens : List Bytes) (more : Bytes) :
    unfinished (heldBack tokens ++ more) = unfinished (tokens.flatten ++ more) := by
  have hparts : (tokens.rdropWhile (· = loneLt)).flatten ++
      (tokens.rtakeWhile (· = loneLt)).flatten = tokens.flatten := by
    rw [← flatten_append, rdropWhile_append_rtakeWhile]
  rw [heldBack, append_assoc, unfinished_append, ← append_assoc, hparts]

variable {token : Bytes}

theorem heldBack_concat_of_ne (tokens : List Bytes) (h : token ≠ loneLt) :
    heldBack (tokens ++ [token]) = unfinished (heldBack tokens ++ token) := by
  rw [unfinished_heldBack_append, heldBack, rdropWhile_concat_neg _ _ _ (by simpa using h),
    rtakeWhile_concat_neg _ _ _ (by simpa using h), flatten_append,
    flatten_singleton, flatten_nil, append_nil]

/-- The filter has not met a control mark: it has sent what it does not hold back. -/
structure Tracks (s : StreamFilter) (tokens chunks : List Bytes) : Prop where
  full : s.fullResponse = tokens.flatten
  running : s.stopEmitting = false
  lt : s.pendingLt = if tokens.getLast? = some loneLt then loneLt else []
  held : s.held = heldBack tokens
  sent : chunks.flatten ++ s.held = tokens.flatten

theorem tracks_init : Tracks StreamFilter.init [] [] where
  full := rfl
  running := rfl
  lt := rfl
  held := by simp [StreamFilter.held, StreamFilter.init, heldBack]
  sent := rfl

theorem controlStart_eq : controlStart = [60, 124] := by
  decide

theorem loneLt_eq : loneLt = [60] := by
  decide

theorem contains_controlStart_of_bar {tokens : List Bytes} (hlast : tokens.getLast? = some loneLt)
    (hbar : token.head? = some 124) :
    contains controlStart (tokens.flatten ++ token) = true := by
  obtain ⟨front, rfl⟩ := getLast?_eq_some_iff.1 hlast
  obtain ⟨rest, rfl⟩ := head?_eq_some_iff.1 hbar
  rw [ contains_iff_infix, controlStart_eq, flatten_append, flatten_singleton, loneLt_eq]
  exact ⟨front.flatten, rest, by simp⟩

variable {s : StreamFilter}

theorem Tracks.passes {tokens chunks : List Bytes} (h : Tracks s tokens chunks)
    (hcontrol : contains controlStart (tokens.flatten ++ token) = false)
    (hfragment : contains controlEnd token = false) (hrole : isRoleMarker token = false) :
    s.Passes token where
  running := h.running
  control := by rw [h.full, hcontrol]
  bar := by
    rintro ⟨hlt, hbar⟩
    rw [h.lt] at hlt
    split at hlt
    · rename_i hlast
      rw [contains_controlStart_of_bar hlast hbar] at hcontrol
      cases hcontrol
    · exact hlt rfl
  fragment := hfragment
  role := hrole

theorem Tracks.step {tokens chunks : List Bytes} (h : Tracks s tokens chunks)
    (hpasses : s.Passes token) :
    Tracks (onToken s token).1 (tokens ++ [token]) (chunks ++ (onToken s token).2) := by
  have hsent := h.sent
  -- a lone `<` is held back; any other token takes along what was held back
  by_cases hlt : token = loneLt
  · subst hlt
    rw [hpasses.onToken_loneLt]
    constructor
    · rw [h.full, flatten_append, flatten_singleton]
    · rfl
    · rw [getLast?_concat, if_pos rfl]
    · rw [heldBack_concat_loneLt, ← h.held]
      rfl
    · rw [append_nil, flatten_append, flatten_singleton, ← hsent, append_assoc]
      rfl
  · rw [hpasses.onToken_of_ne hlt]
    constructor
    · rw [h.full, flatten_append, flatten_singleton]
    · rfl
    · rw [getLast?_concat, if_neg (by simpa using hlt)]
    · rw [heldBack_concat_of_ne tokens hlt, ← h.held]
      exact append_nil _
    · have hwhole := finished_append_unfinished (s.held ++ token)
      have hheld : StreamFilter.held ⟨s.fullResponse ++ token, false, [],
          unfinished (s.held ++ token)⟩ = unfinished (s.held ++ token) :=
        append_nil _
      rw [hheld, flatten_append, flatten_sendSseContent, append_assoc, hwhole,
        ← append_assoc, hsent, flatten_append, flatten_singleton]

/-! ## Whole streams -/

/-- No token has an end of a control mark before a mark has begun, and none is a bare role
marker. -/
def AdmissibleFrom (output : Bytes) : List Bytes → Prop
  | [] => True
  | token :: rest =>
      (contains controlEnd token = true → contains controlStart (output ++ token) = true) ∧
        isRoleMarker token = false ∧ AdmissibleFrom (output ++ token) rest

instance AdmissibleFrom.instDecidable :
    (output : Bytes) → (tokens : List Bytes) → Decidable (AdmissibleFrom output tokens)
  | _, [] => .isTrue trivial
  | output, token :: rest =>
      have := AdmissibleFrom.instDecidable (output ++ token) rest
      inferInstanceAs (Decidable (_ ∧ _ ∧ _))

def controlAt (before : List Bytes) : List Bytes → Option (List Bytes × Bytes)
  | [] => none
  | token :: rest =>
      if contains controlStart (before.flatten ++ token) then some (before, token)
      else controlAt (before ++ [token]) rest

theorem contains_of_controlAt_eq_none {before tokens : List Bytes}
    (hbefore : contains controlStart before.flatten = false)
    (h : controlAt before tokens = none) :
    contains controlStart (before ++ tokens).flatten = false := by
  induction tokens generalizing before with
  | nil => rwa [append_nil]
  | cons token rest ih =>
    rw [controlAt] at h
    split at h
    · cases h
    · rename_i hcontrol
      have hnext : contains controlStart (before ++ [token]).flatten = false := by
        simpa using hcontrol
      have htokens := ih hnext h
      rwa [append_assoc, singleton_append] at htokens

theorem of_controlAt_eq_some {before tokens front : List Bytes}
    (hbefore : contains controlStart before.flatten = false)
    (h : controlAt before tokens = some (front, token)) :
    contains controlStart front.flatten = false ∧
      contains controlStart (front.flatten ++ token) = true ∧
      ∃ after, before ++ tokens = front ++ token :: after := by
  induction tokens generalizing before with
  | nil => cases h
  | cons head rest ih =>
    rw [controlAt] at h
    split at h
    · rename_i hcontrol
      cases h
      exact ⟨hbefore, hcontrol, rest, rfl⟩
    · rename_i hcontrol
      have hnext : contains controlStart (before ++ [head]).flatten = false := by
        simpa using hcontrol
      have htokens := ih hnext h
      rwa [append_assoc, singleton_append] at htokens

theorem run_of_stopped (hstop : s.stopEmitting = true) (tokens : List Bytes) :
    (run onToken s tokens).2 = [] ∧ (run onToken s tokens).1.stopEmitting = true := by
  induction tokens generalizing s with
  | nil => exact ⟨rfl, hstop⟩
  | cons token rest ih =>
    rw [run, StreamFilter.onToken_of_stopped hstop]
    exact ih hstop

theorem Tracks.passes_of_admissible {before chunks rest : List Bytes} (h : Tracks s before chunks)
    (hadm : AdmissibleFrom before.flatten (token :: rest))
    (hcontrol : ¬ contains controlStart (before.flatten ++ token) = true) : s.Passes token := by
  have hfragment : ¬ contains controlEnd token = true := fun hend => hcontrol (hadm.1 hend)
  rw [Bool.not_eq_true] at hcontrol hfragment
  exact h.passes hcontrol hfragment hadm.2.1

theorem Tracks.run_of_none {before chunks tokens : List Bytes} (h : Tracks s before chunks)
    (hadm : AdmissibleFrom before.flatten tokens) (hnone : controlAt before tokens = none) :
    Tracks (run onToken s tokens).1 (before ++ tokens) (chunks ++ (run onToken s tokens).2) := by
  induction tokens generalizing s before chunks with
  | nil => simpa [run] using h
  | cons token rest ih =>
    rw [controlAt] at hnone
    split at hnone
    · cases hnone
    · rename_i hcontrol
      have hstep := h.step (h.passes_of_admissible hadm hcontrol)
      have hrest : AdmissibleFrom (before ++ [token]).flatten rest := by
        simpa using hadm.2.2
      have htracks := ih hstep hrest hnone
      rwa [append_assoc, append_assoc, singleton_append] at htracks

/-- From the token that completes a control mark on nothing is sent, and what was held back is
lost. -/
theorem Tracks.run_of_some {before chunks tokens front : List Bytes} (h : Tracks s before chunks)
    (hadm : AdmissibleFrom before.flatten tokens)
    (hsome : controlAt before tokens = some (front, token)) :
    (chunks ++ (run onToken s tokens).2).flatten ++ heldBack front = front.flatten ∧
      (run onToken s tokens).1.stopEmitting = true := by
  induction tokens generalizing s before chunks with
  | nil => cases hsome
  | cons head rest ih =>
    rw [controlAt] at hsome
    split at hsome
    · rename_i hcontrol
      cases hsome
      rw [← h.full] at hcontrol
      rw [run, StreamFilter.onToken_of_control h.running hcontrol]
      -- from here on the filter is stopped, and `h` says what has been sent
      have hstopped := run_of_stopped (s := ⟨s.fullResponse ++ token, true, [], []⟩) rfl rest
      dsimp only
      rw [hstopped.1, append_nil, append_nil, ← h.held]
      exact ⟨h.sent, hstopped.2⟩
    · rename_i hcontrol
      have hstep := h.step (h.passes_of_admissible hadm hcontrol)
      have hrest : AdmissibleFrom (before ++ [head]).flatten rest := by
        simpa using hadm.2.2
      have htracks := ih hstep hrest hsome
      rwa [append_assoc] at htracks

/-! ## What is sent of the output -/

/-- Without a control mark the last token is not a lone `<`; otherwise all that is held back when
the mark is completed, with the token that completes it, starts with the mark. -/
def KeepsText (tokens : List Bytes) : Prop :=
  match controlAt [] tokens with
  | none => tokens.getLast? ≠ some loneLt
  | some (front, token) => controlStart <+: heldBack front ++ token

theorem StreamFilter.flatten_flush (hrunning : s.stopEmitting = false) :
    s.flush.flatten = s.pendingUtf8 := by
  unfold flush
  split
  · exact flatten_sendSseContent _
  · rename_i hnil
    rw [flatten_nil]
    by_contra hne
    exact hnil ⟨Ne.symm hne, hrunning⟩

theorem StreamFilter.flush_of_stopped (hstop : s.stopEmitting = true) :
    s.flush = [] := by
  simp [flush, hstop]

/-- Of the output, the part in front of the first control mark is sent exactly under this
condition. -/
theorem emittedText_eq_beforeFirst_iff (tokens : List Bytes) (hadm : AdmissibleFrom [] tokens) :
    emittedText tokens = beforeFirst controlStart tokens.flatten ↔ KeepsText tokens := by
  have hnil : contains controlStart ([] : List Bytes).flatten = false := by decide
  rw [emittedText, flatten_append, flushedChunks]
  unfold KeepsText
  cases hcontrol : controlAt [] tokens with
  | none =>
    -- sent and held-back text make up the output, and the flush leaves out `pendingLt`
    have htracks := tracks_init.run_of_none hadm hcontrol
    rw [nil_append, nil_append] at htracks
    have hnone := contains_of_controlAt_eq_none hnil hcontrol
    rw [← Bool.not_eq_true, contains_iff_infix, nil_append] at hnone
    rw [beforeFirst_eq_self hnone, StreamFilter.flatten_flush htracks.running,
      ← htracks.sent, StreamFilter.held, htracks.lt, ← append_assoc, streamedChunks,
      self_eq_append_right]
    split
    · rename_i hlast
      exact iff_of_false (by decide) (not_not_intro hlast)
    · rename_i hlast
      exact iff_of_true rfl hlast
  | some found =>
    obtain ⟨front, token⟩ := found
    -- what is held back is lost, so it has to begin with the mark
    have hstopped := tracks_init.run_of_some hadm hcontrol
    rw [nil_append] at hstopped
    obtain ⟨hfront, htoken, after, htokens⟩ := of_controlAt_eq_some hnil hcontrol
    rw [← Bool.not_eq_true, contains_iff_infix] at hfront
    rw [ contains_iff_infix] at htoken
    rw [nil_append] at htokens
    have hflatten : tokens.flatten = front.flatten ++ token ++ after.flatten := by
      rw [htokens, flatten_append, flatten_cons, append_assoc]
    rw [StreamFilter.flush_of_stopped hstopped.2, flatten_nil, append_nil, hflatten,
      beforeFirst_append htoken, streamedChunks, eq_comm]
    rw [← hstopped.1] at hfront htoken ⊢
    rw [controlStart_eq] at hfront htoken ⊢
    exact beforeFirst_eq_iff (by decide) hfront htoken

/-- A mark that is split behind its first byte: the space in front of it is sent. -/
theorem emittedText_of_split_mark :
    emittedText [ascii "Hi ", ascii "<", ascii "|im_end|>"] = ascii "Hi " := by
  have hvalid : Valid (ascii "Hi ") := ⟨"Hi ".toList, by decide⟩
  have hheld : heldBack [ascii "Hi ", ascii "<"] = ascii "<" := by
    have hparts : heldBack [ascii "Hi ", ascii "<"] = unfinished (ascii "Hi ") ++ ascii "<" := by
      rfl
    rw [hparts, hvalid.unfinished_eq_nil, nil_append]
  have hkeeps : KeepsText [ascii "Hi ", ascii "<", ascii "|im_end|>"] := by
    change controlStart <+: heldBack [ascii "Hi ", ascii "<"] ++ ascii "|im_end|>"
    rw [hheld]
    decide
  exact ((emittedText_eq_beforeFirst_iff _ (by decide)).2 hkeeps).trans (by decide)

/-- The text in front of a mark in the same token is lost. -/
theorem emittedText_of_hello :
    AdmissibleFrom [] [ascii "hello<|im_end|>"] ∧ emittedText [ascii "hello<|im_end|>"] = [] ∧
      emittedText [ascii "hello<|im_end|>"] ≠
        beforeFirst controlStart [ascii "hello<|im_end|>"].flatten := by
  decide

/-! ## Text without marks -/

/-- Nothing but an unfinished character is held back. -/
structure Settled (s : StreamFilter) : Prop where
  running : s.stopEmitting = false
  full : 60 ∉ s.fullResponse
  lt : s.pendingLt = []
  unfinished_pending : unfinished s.pendingUtf8 = s.pendingUtf8

/-- A token without the bytes of the marks. -/
structure IsPlain (token : Bytes) : Prop where
  lt : 60 ∉ token
  bar : 124 ∉ token
  role : isRoleMarker token = false

theorem Settled.onToken_eq (h : Settled s) (hplain : IsPlain token) :
    onToken s token =
      (⟨s.fullResponse ++ token, false, [], unfinished (s.pendingUtf8 ++ token)⟩,
        sendSseContent (finished (s.pendingUtf8 ++ token))) := by
  have hlt : 60 ∉ s.fullResponse ++ token := not_mem_append h.full hplain.lt
  have hpasses : s.Passes token :=
    { running := h.running
      control := contains_eq_false_of_not_mem (by decide) hlt
      bar := fun hbar => hbar.1 h.lt
      fragment := contains_eq_false_of_not_mem (by decide) hplain.bar
      role := hplain.role }
  have hne : token ≠ loneLt := by
    rintro rfl
    exact hplain.lt (by decide)
  have hheld : s.held = s.pendingUtf8 := by rw [StreamFilter.held, h.lt, append_nil]
  rw [hpasses.onToken_of_ne hne, hheld]

/-- Whole characters are sent, and nothing is held back behind the last one. -/
theorem Settled.run_valid (h : Settled s) {tokens : List Bytes}
    (hplain : ∀ token ∈ tokens, IsPlain token) (hvalid : Valid (s.pendingUtf8 ++ tokens.flatten)) :
    (∀ chunk ∈ (run onToken s tokens).2, Valid chunk) ∧
      (run onToken s tokens).1.pendingUtf8 = [] ∧
      (run onToken s tokens).2.flatten = s.pendingUtf8 ++ tokens.flatten := by
  -- induction on the tokens: what is held back goes on to a valid text
  induction tokens generalizing s with
  | nil =>
    rw [flatten_nil, append_nil] at hvalid ⊢
    have hpending := hvalid.unfinished_eq_nil
    rw [h.unfinished_pending] at hpending
    exact ⟨nofun, hpending, hpending.symm⟩
  | cons token rest ih =>
    have htoken := hplain token mem_cons_self
    rw [flatten_cons, ← append_assoc] at hvalid
    obtain ⟨hready, hrest⟩ := hvalid.cut
    have hsettled : Settled ⟨s.fullResponse ++ token, false, [],
        unfinished (s.pendingUtf8 ++ token)⟩ :=
      { running := rfl
        full := not_mem_append h.full htoken.lt
        lt := rfl
        unfinished_pending := unfinished_unfinished _ }
    obtain ⟨hchunks, hend, hflatten⟩ :=
      ih hsettled (fun token' hmem => hplain token' (mem_cons_of_mem _ hmem)) hrest
    rw [run, h.onToken_eq htoken]
    dsimp only
    refine ⟨?_, hend, ?_⟩
    · intro chunk hmem
      rcases mem_append.1 hmem with hsent | hmem
      · unfold sendSseContent at hsent
        split at hsent
        · cases hsent
        · rw [mem_singleton.1 hsent]
          exact hready
      · exact hchunks chunk hmem
    · rw [flatten_append, flatten_sendSseContent, hflatten, ← append_assoc,
        finished_append_unfinished, flatten_cons, append_assoc]

/-- However a valid text is cut into tokens, each chunk that is sent is valid by itself, nothing is
left for the final flush, and the chunks make up the text. -/
theorem streamedChunks_utf8 (text : Bytes) (hvalid : Valid text) (hlt : 60 ∉ text)
    (hbar : 124 ∉ text) (tokens : List Bytes) (hsplit : tokens.flatten = text)
    (hrole : ∀ token ∈ tokens, isRoleMarker token = false) :
    (∀ chunk ∈ streamedChunks tokens, Valid chunk) ∧ flushedChunks tokens = [] ∧
      (streamedChunks tokens).flatten = text := by
  subst hsplit
  have hplain : ∀ token ∈ tokens, IsPlain token := fun token hmem =>
    { lt := fun hbyte => hlt (mem_flatten_of_mem hmem hbyte)
      bar := fun hbyte => hbar (mem_flatten_of_mem hmem hbyte)
      role := hrole token hmem }
  have hinit : Settled StreamFilter.init :=
    { running := rfl
      full := nofun
      lt := rfl
      unfinished_pending := unfinished_nil }
  obtain ⟨hchunks, hend, hflatten⟩ := hinit.run_valid hplain hvalid
  refine ⟨hchunks, ?_, hflatten⟩
  rw [flushedChunks, StreamFilter.flush, if_neg fun hpending => hpending.1 hend]

/-- A character of two bytes that is cut in the middle. -/
theorem streamedChunks_utf8_of_cut_character :
    flushedChunks [[0xC3], [0xA9]] = [] ∧
      (streamedChunks [[0xC3], [0xA9]]).flatten = [0xC3, 0xA9] := by
  have hvalid : Valid [0xC3, 0xA9] := ⟨[Char.ofNat 0xE9], by decide⟩
  exact (streamedChunks_utf8 [0xC3, 0xA9] hvalid (by decide) (by decide) [[0xC3], [0xA9]] rfl
    (by decide)).2

end TKNC.Miner
