import TKNC.Lib.Transducer

/-!
# FrameReader — taking frames off a buffer that fills in segments

A reader appends each segment to its buffer and then takes frames off it in a loop: a round waits
for more, goes on with what is left, or stops for good.  A round that leaves the buffer as it was
would be repeated for ever; such a reader is stuck.

If every frame is taken as soon as it is complete, then what comes out does not depend on how the
stream was cut (`Takes.run_segments`).
-/

namespace TKNC.Lib.FrameReader

open List Transducer

inductive Round (α β ε : Type) where
  | wait
  | next (out : List β) (rest : List α)
  | stop (out : List β) (reason : ε)
  deriving DecidableEq

variable {α β ε φ : Type} (take : List α → Round α β ε) (stuck : ε)

def drain (buffer : List α) : List β × Except ε (List α) :=
  match take buffer with
  | .wait => ([], .ok buffer)
  | .stop out reason => (out, .error reason)
  | .next out rest =>
      if rest.length < buffer.length then
        let later := drain rest
        (out ++ later.1, later.2)
      else (out, .error stuck)
termination_by buffer.length

def heads (buffer : List α) : List (List α) :=
  buffer ::
    match take buffer with
    | .wait => []
    | .stop _ _ => []
    | .next _ rest => if rest.length < buffer.length then heads rest else []
termination_by buffer.length

def receive (status : Except ε (List α)) (segment : List α) : Except ε (List α) × List β :=
  match status with
  | .error reason => (.error reason, [])
  | .ok buffer =>
      if segment = [] then (.ok buffer, [])
      else ((drain take stuck (buffer ++ segment)).2, (drain take stuck (buffer ++ segment)).1)

def allHeads : Except ε (List α) → List (List α) → List (List α)
  | _, [] => []
  | .error _, _ :: _ => []
  | .ok buffer, segment :: segments =>
      if segment = [] then allHeads (.ok buffer) segments
      else heads take (buffer ++ segment) ++
        allHeads (receive take stuck (.ok buffer) segment).1 segments

/-! ## Frames -/

/-- A frame is taken when it is complete and not before; some frames end the reading. -/
structure Takes (encode : φ → List α) (out : φ → List β) (ends : φ → Option ε) : Prop where
  nonempty : ∀ f, encode f ≠ []
  empty : take [] = .wait
  part : ∀ f part more, encode f = part ++ more → more ≠ [] → take part = .wait
  goes_on : ∀ f, ends f = none → ∀ rest, take (encode f ++ rest) = .next (out f) rest
  stops : ∀ f reason, ends f = some reason →
    ∀ rest, take (encode f ++ rest) = .stop (out f) reason

def delivered (out : φ → List β) (ends : φ → Option ε) : List φ → List β
  | [] => []
  | f :: frames => out f ++ if ends f = none then delivered out ends frames else []

variable {take} {stuck} {encode : φ → List α} {out : φ → List β} {ends : φ → Option ε}

variable {buffer : List α}

theorem drain_of_wait (h : take buffer = .wait) :
    drain take stuck buffer = ([], .ok buffer) := by
  rw [drain, h]

variable {bs : List β}

theorem drain_of_stop {reason : ε} (h : take buffer = .stop bs reason) :
    drain take stuck buffer = (bs, .error reason) := by
  rw [drain, h]

theorem drain_of_next {buffer rest : List α} (h : take buffer = .next bs rest)
    (hlength : rest.length < buffer.length) :
    drain take stuck buffer =
      (bs ++ (drain take stuck rest).1, (drain take stuck rest).2) := by
  rw [drain, h]
  exact if_pos hlength

variable {frames : List φ}

variable (stuck) in
/-- A buffer that ends inside a stream of frames: the loop takes the complete ones, and what is left
goes on with the others; or it stops, and nothing is missing. -/
theorem Takes.drain_frames (h : Takes take encode out ends) {buffer later : List α}
    (hstream : buffer ++ later = frames.flatMap encode) :
    (∃ bs rest frames', drain take stuck buffer = (bs, .ok rest) ∧ take rest = .wait ∧
        rest ++ later = frames'.flatMap encode ∧
        delivered out ends frames = bs ++ delivered out ends frames') ∨
      ∃ reason, drain take stuck buffer = (delivered out ends frames, .error reason) := by
  -- induction on the frames: the first one is complete in the buffer, or the loop waits
  induction frames generalizing buffer with
  | nil =>
    have hnil := (append_eq_nil_iff.1 hstream).1
    subst hnil
    exact Or.inl ⟨[], [], [], drain_of_wait h.empty, h.empty, hstream, rfl⟩
  | cons f frames ih =>
    have hcut := hstream
    rw [flatMap_cons] at hcut
    rcases append_cut hcut with ⟨rest, rfl, hrest⟩ | ⟨more, hmore, hpart⟩
    · have hlength : rest.length < (encode f ++ rest).length := by
        have hpos := length_pos_iff.2 (h.nonempty f)
        rw [length_append]
        omega
      cases hends : ends f with
      | some reason =>
        refine Or.inr ⟨reason, ?_⟩
        rw [drain_of_stop (h.stops f reason hends rest), delivered, hends]
        simp
      | none =>
        rw [drain_of_next (h.goes_on f hends rest) hlength, delivered, if_pos hends]
        rcases ih hrest with
          ⟨bs, rest', frames', hdrain, hwait, hlater, hout⟩ | ⟨reason, hdrain⟩
        · refine Or.inl ⟨out f ++ bs, rest', frames', ?_, hwait, hlater, ?_⟩
          · rw [hdrain]
          · rw [hout, append_assoc]
        · exact Or.inr ⟨reason, by rw [hdrain]⟩
    · have hwait := h.part f buffer more hpart hmore
      exact Or.inl ⟨[], buffer, f :: frames, drain_of_wait hwait, hwait, hstream, rfl⟩

theorem run_receive_error (reason : ε) (segments : List (List α)) :
    (run (receive take stuck) (.error reason) segments).2 = [] := by
  rw [run_of_absorbing fun _ => rfl]

theorem Takes.run_segments (h : Takes take encode out ends) (hwait : take buffer = .wait)
    {segments : List (List α)} (hstream : buffer ++ segments.flatten = frames.flatMap encode) :
    (run (receive take stuck) (.ok buffer) segments).2 =
      delivered out ends frames := by
  -- induction on the segments: the buffer and what is to come are always whole frames
  induction segments generalizing buffer frames with
  | nil =>
    rw [flatten_nil, append_nil] at hstream
    cases frames with
    | nil => rfl
    | cons f frames =>
      -- a complete frame in the buffer would have been taken
      rw [hstream, flatMap_cons] at hwait
      cases hends : ends f with
      | none => cases (h.goes_on f hends _).symm.trans hwait
      | some reason => cases (h.stops f reason hends _).symm.trans hwait
  | cons segment segments ih =>
    rw [run, receive]
    split
    · rename_i hsegment
      rw [hsegment, flatten_cons, nil_append] at hstream
      exact ih hwait hstream
    · rw [flatten_cons, ← append_assoc] at hstream
      rcases h.drain_frames stuck hstream with
        ⟨bs, rest, frames', hdrain, hrest, hlater, hout⟩ | ⟨reason, hdrain⟩
      · rw [hdrain, hout]
        dsimp only
        rw [ih hrest hlater]
      · rw [hdrain]
        dsimp only
        rw [run_receive_error, append_nil]

/-- With one output for each frame: all of them are as expected, and only the last frame may end the
reading. -/
theorem delivered_eq_map_iff {g e : φ → β} :
    delivered (fun f => [g f]) ends frames = frames.map e ↔
      (∀ f ∈ frames, g f = e f) ∧ ∀ f ∈ frames.dropLast, ends f = none := by
  induction frames with
  | nil => exact iff_of_true rfl ⟨nofun, nofun⟩
  | cons f frames ih =>
    rw [delivered, singleton_append, map_cons, cons.injEq, forall_mem_cons]
    cases frames with
    | nil => simp [delivered]
    | cons f' frames =>
      have hlast : (∀ x ∈ f :: (f' :: frames).dropLast, ends x = none) ↔
          ends f = none ∧ ∀ x ∈ (f' :: frames).dropLast, ends x = none :=
        forall_mem_cons
      rw [dropLast_cons_cons, hlast, and_assoc]
      refine and_congr_right fun _ => ?_
      by_cases hends : ends f = none
      · rw [if_pos hends, ih, and_iff_right hends]
      · -- a frame that ends the reading has others behind it
        rw [if_neg hends]
        exact iff_of_false nofun fun h => hends h.2.1

end TKNC.Lib.FrameReader
