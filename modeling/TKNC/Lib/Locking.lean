import TKNC.Lib.EventMachine

/-!
# Locking — call chains that take mutexes

A call chain computes on a state and knows the mutexes that it holds.  A mutex is not recursive: a
chain that locks one it holds already waits for itself, and has no result.  Other threads are not
part of a chain; what they do to the state while it holds no mutex is a `modify` in it.
-/

namespace TKNC.Lib.Locking

open EventMachine

variable {μ σ ι α β : Type}

abbrev Chain (μ σ : Type) := ReaderT (List μ) (StateT σ Option)

def withLock [DecidableEq μ] (mutex : μ) (body : Chain μ σ α) : Chain μ σ α := fun held s =>
  if mutex ∈ held then none else body (mutex :: held) s

def forEach (items : List ι) (body : ι → Chain μ σ Unit) : Chain μ σ Unit :=
  match items with
  | [] => pure ()
  | item :: rest => body item >>= fun _ => forEach rest body

/-- Called without any mutex, the chain never waits for itself. -/
def Completes (code : Chain μ σ α) (s : σ) : Prop :=
  (code [] s).isSome

instance (code : Chain μ σ α) (s : σ) : Decidable (Completes code s) :=
  inferInstanceAs (Decidable ((code [] s).isSome = true))

def leaves (code : Chain μ σ α) (s : σ) : σ :=
  ((code [] s).map Prod.snd).getD s

section Apply

variable (held : List μ) (s : σ)

@[simp]
theorem pure_apply (a : α) : (pure a : Chain μ σ α) held s = some (a, s) :=
  rfl

@[simp]
theorem bind_apply (code : Chain μ σ α) (next : α → Chain μ σ β) :
    (code >>= next) held s = (code held s).bind fun r => next r.1 held r.2 :=
  rfl

@[simp]
theorem get_apply : (get : Chain μ σ σ) held s = some (s, s) :=
  rfl

@[simp]
theorem modify_apply (f : σ → σ) : (modify f : Chain μ σ Unit) held s = some ((), f s) :=
  rfl

variable [DecidableEq μ] {held}

theorem withLock_of_mem {mutex : μ} (h : mutex ∈ held) (body : Chain μ σ α) :
    withLock mutex body held s = none :=
  if_pos h

theorem withLock_of_not_mem {mutex : μ} (h : mutex ∉ held) (body : Chain μ σ α) :
    withLock mutex body held s = body (mutex :: held) s :=
  if_neg h

end Apply

/-- A loop completes exactly if each of its turns does, in the state that the turns before left. -/
theorem completes_forEach_iff (items : List ι) (body : ι → Chain μ σ Unit) (s : σ) :
    Completes (forEach items body) s ↔
      GoodRun (fun s item => leaves (body item) s) (fun s item => Completes (body item) s) s
        items := by
  induction items generalizing s with
  | nil => exact iff_of_true rfl trivial
  | cons item rest ih =>
    cases hturn : body item [] s with
    | none => simp [Completes, forEach, GoodRun, hturn]
    | some r =>
      have hleaves : leaves (body item) s = r.2 := by simp [leaves, hturn]
      have hrest : Completes (forEach (item :: rest) body) s ↔
          Completes (forEach rest body) r.2 := by
        simp only [Completes, forEach, bind_apply, hturn, Option.bind_some]
      rw [hrest, ih, GoodRun, hleaves]
      simp [Completes, hturn]

end TKNC.Lib.Locking
