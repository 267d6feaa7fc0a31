import TKNC.Lib.EventMachine

/-!
# Session — callbacks on a context that is deleted at the end

A session is driven by callbacks that act on its context and may delete it.  What the callbacks do
to the outside is written to a log, which outlives the context; callbacks that come later find
nothing to act on.
-/

namespace TKNC.Lib

open EventMachine

structure Session (κ α : Type*) where
  ctx : Option κ
  log : List α

namespace Session

variable {κ α ε : Type*} (react : κ → ε → Option κ × List α)

def step (s : Session κ α) (event : ε) : Session κ α :=
  match s.ctx with
  | none => s
  | some ctx => ⟨(react ctx event).1, s.log ++ (react ctx event).2⟩

def emitted (s : Session κ α) (event : ε) : List α :=
  match s.ctx with
  | none => []
  | some ctx => (react ctx event).2

theorem log_step (s : Session κ α) (event : ε) :
    (step react s event).log = s.log ++ emitted react s event := by
  rcases s with ⟨_ | ctx, log⟩
  · exact (List.append_nil log).symm
  · rfl

/-- One assertion about the context and the log while the session lives, one about the log after its
end. -/
def Holds (live : κ → List α → Prop) (gone : List α → Prop) (s : Session κ α) : Prop :=
  match s.ctx with
  | none => gone s.log
  | some ctx => live ctx s.log

variable {react} {live : κ → List α → Prop} {gone : List α → Prop}

theorem Holds.step
    (hreact : ∀ ctx log event, live ctx log →
      Holds live gone ⟨(react ctx event).1, log ++ (react ctx event).2⟩)
    {s : Session κ α} (h : Holds live gone s) (event : ε) :
    Holds live gone (step react s event) := by
  rcases s with ⟨_ | ctx, log⟩
  · exact h
  · exact hreact ctx log event h

end Session
end TKNC.Lib
