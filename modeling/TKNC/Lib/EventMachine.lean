import Mathlib.Tactic.TypeStar

/-!
# EventMachine — runs of a machine driven by events

A machine is a step function on states and events.  `GoodRun` restricts its runs to events that meet
a condition in the state they arrive in; both are computed, so a concrete run can be evaluated.
-/

namespace TKNC.Lib.EventMachine

variable {σ ε : Type*} (step : σ → ε → σ) (good : σ → ε → Prop)

def run (s : σ) (events : List ε) : σ :=
  events.foldl step s

theorem run_concat (s : σ) (events : List ε) (event : ε) :
    run step s (events ++ [event]) = step (run step s events) event := by
  rw [run, List.foldl_append]
  rfl

theorem run_append_cons (s : σ) (before : List ε) (event : ε) (after : List ε) :
    run step s (before ++ event :: after) = run step (step (run step s before) event) after := by
  rw [run, List.foldl_append, List.foldl_cons]
  rfl

/-- Every event of the run is good in the state it arrives in. -/
def GoodRun : σ → List ε → Prop
  | _, [] => True
  | s, event :: events => good s event ∧ GoodRun (step s event) events

instance GoodRun.instDecidable [∀ s event, Decidable (good s event)] :
    (s : σ) → (events : List ε) → Decidable (GoodRun step good s events)
  | _, [] => .isTrue trivial
  | s, event :: events =>
      have := GoodRun.instDecidable (step s event) events
      inferInstanceAs (Decidable (good s event ∧ GoodRun step good (step s event) events))

variable {step good}

variable {Inv : σ → Prop} {s : σ}

theorem run_invariant (hstep : ∀ s event, Inv s → Inv (step s event)) (h : Inv s)
    (events : List ε) :
    Inv (run step s events) := by
  induction events generalizing s with
  | nil => exact h
  | cons event events ih => exact ih (hstep s event h)

variable {events : List ε}

theorem GoodRun.invariant (hstep : ∀ s event, Inv s → good s event → Inv (step s event)) (h : Inv s)
    (hrun : GoodRun step good s events) : Inv (run step s events) := by
  -- the first event leads to a state from which the rest is again a good run
  induction events generalizing s with
  | nil => exact h
  | cons event events ih => exact ih (hstep s event h hrun.1) hrun.2

variable {good' : σ → ε → Prop}

/-- A condition that good events imply under their invariant holds along every good run. -/
theorem GoodRun.mono (hstep : ∀ s event, Inv s → good s event → Inv (step s event))
    (hgood : ∀ s event, Inv s → good s event → good' s event) (h : Inv s)
    (hrun : GoodRun step good s events) : GoodRun step good' s events := by
  induction events generalizing s with
  | nil => trivial
  | cons event events ih =>
    exact ⟨hgood s event h hrun.1, ih (hstep s event h hrun.1) hrun.2⟩

theorem GoodRun.congr (h : ∀ s event, good s event ↔ good' s event) (s : σ) (events : List ε) :
    GoodRun step good s events ↔ GoodRun step good' s events := by
  induction events generalizing s with
  | nil => exact Iff.rfl
  | cons event events ih => exact and_congr (h s event) (ih (step s event))

/-- Conditions that are equivalent under an invariant of the machine allow the same runs. -/
theorem GoodRun.congr_of_invariant (hstep : ∀ s event, Inv s → Inv (step s event))
    (h : ∀ s event, Inv s → (good s event ↔ good' s event)) (hs : Inv s) (events : List ε) :
    GoodRun step good s events ↔ GoodRun step good' s events := by
  induction events generalizing s with
  | nil => exact Iff.rfl
  | cons event events ih => exact and_congr (h s event hs) (ih (hstep s event hs))

variable (step) in
theorem goodRun_iff_forall_mem {p : ε → Prop} (s : σ) (events : List ε) :
    GoodRun step (fun _ event => p event) s events ↔ ∀ event ∈ events, p event := by
  induction events generalizing s with
  | nil => exact iff_of_true trivial nofun
  | cons event events ih =>
    rw [List.forall_mem_cons]
    exact and_congr_right fun _ => ih (step s event)

theorem goodRun_and :
    GoodRun step (fun s event => good s event ∧ good' s event) s events ↔
      GoodRun step good s events ∧ GoodRun step good' s events := by
  induction events generalizing s with
  | nil => exact iff_of_true trivial ⟨trivial, trivial⟩
  | cons event events ih =>
    constructor
    · rintro ⟨⟨hgood, hgood'⟩, hrest⟩
      exact ⟨⟨hgood, (ih.1 hrest).1⟩, ⟨hgood', (ih.1 hrest).2⟩⟩
    · rintro ⟨⟨hgood, hrest⟩, ⟨hgood', hrest'⟩⟩
      exact ⟨⟨hgood, hgood'⟩, ih.2 ⟨hrest, hrest'⟩⟩

/-! ## Properties of every state -/

variable (step) in
/-- `P` holds in every state of the run, the first and the last included. -/
def Always (P : σ → Prop) : σ → List ε → Prop
  | s, [] => P s
  | s, event :: events => P s ∧ Always P (step s event) events

theorem Always.last {P : σ → Prop} (h : Always step P s events) :
    P (run step s events) := by
  induction events generalizing s with
  | nil => exact h
  | cons event events ih => exact ih h.2

/-- What an invariant of the good events implies holds throughout every good run. -/
theorem GoodRun.always {Inv P : σ → Prop}
    (hstep : ∀ s event, Inv s → good s event → Inv (step s event)) (hP : ∀ s, Inv s → P s)
    (h : Inv s) (hrun : GoodRun step good s events) :
    Always step P s events := by
  induction events generalizing s with
  | nil => exact hP s h
  | cons event events ih => exact ⟨hP s h, ih (hstep s event h hrun.1) hrun.2⟩

/-- If exactly the good events keep a property, then it holds throughout exactly the good runs. -/
theorem always_iff_goodRun {Inv P : σ → Prop} (hstep : ∀ s event, Inv s → Inv (step s event))
    (hkeep : ∀ s event, Inv s → P s → (P (step s event) ↔ good s event)) (h : Inv s) (hP : P s) :
    Always step P s events ↔ GoodRun step good s events := by
  induction events generalizing s with
  | nil => exact iff_of_true hP trivial
  | cons event events ih =>
    constructor
    · rintro ⟨_, hrest⟩
      -- the rest of the run starts with the property, so the first event kept it
      have hnext : P (step s event) := by
        cases events with
        | nil => exact hrest
        | cons event' events => exact hrest.1
      exact ⟨(hkeep s event h hP).1 hnext, (ih (hstep s event h) hnext).1 hrest⟩
    · rintro ⟨hgood, hrest⟩
      exact ⟨hP, (ih (hstep s event h) ((hkeep s event h hP).2 hgood)).2 hrest⟩

end TKNC.Lib.EventMachine
