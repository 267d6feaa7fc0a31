import Mathlib.Data.List.Perm.Basic

/-!
# Replay — deliveries in any order, any number of times

A state is updated by a sequence of messages.  When the updates by the messages of a class commute
and a message that comes again changes nothing, the final state depends only on the set of messages
that were delivered.
-/

namespace TKNC.Lib.Replay

open List

variable {σ α : Type*} {f : σ → α → σ} {S : α → Prop}

/-- The messages of the class `S` can be delivered in any order and repeated. -/
structure Mergeable (f : σ → α → σ) (S : α → Prop) : Prop where
  comm : ∀ s a b, S a → S b → f (f s a) b = f (f s b) a
  idem : ∀ s a, S a → f (f s a) a = f s a

namespace Mergeable

variable {l l' : List α}

theorem foldl_perm (h : Mergeable f S) (hperm : l.Perm l') (hl : ∀ a ∈ l, S a) (s : σ) :
    l.foldl f s = l'.foldl f s :=
  hperm.foldl_eq' (fun a ha b hb s => h.comm s a b (hl a ha) (hl b hb)) s

theorem absorb (h : Mergeable f S) {l : List α} {a : α} (hl : ∀ b ∈ l, S b) (ha : a ∈ l) (s : σ) :
    f (l.foldl f s) a = l.foldl f s := by
  induction l generalizing s with
  | nil => cases ha
  | cons b l ih =>
    have hrest : ∀ c ∈ l, S c := fun c hc => hl c (mem_cons_of_mem _ hc)
    rcases mem_cons.1 ha with rfl | ha
    · -- the second delivery is moved forward to the first
      have hmove : (l ++ [a]).foldl f (f s a) = (a :: l).foldl f (f s a) := by
        refine h.foldl_perm (perm_append_singleton a l) ?_ _
        intro c hc
        rcases mem_append.1 hc with hc | hc
        · exact hrest c hc
        · exact mem_singleton.1 hc ▸ hl a ha
      rw [foldl_append, foldl_cons, foldl_nil, foldl_cons,
        h.idem s a (hl a ha)] at hmove
      exact hmove
    · exact ih hrest ha (f s b)

theorem absorb_all (h : Mergeable f S) (hl : ∀ b ∈ l, S b) (hsub : ∀ a ∈ l', a ∈ l) (s : σ) :
    l'.foldl f (l.foldl f s) = l.foldl f s := by
  induction l' with
  | nil => rfl
  | cons a l' ih =>
    rw [foldl_cons, h.absorb hl (hsub a mem_cons_self)]
    exact ih fun b hb => hsub b (mem_cons_of_mem _ hb)

theorem foldl_eq_of_mem_iff (h : Mergeable f S) (hl : ∀ a ∈ l, S a) (hmem : ∀ a, a ∈ l ↔ a ∈ l')
    (s : σ) : l.foldl f s = l'.foldl f s := by
  have hl' : ∀ a ∈ l', S a := fun a ha => hl a ((hmem a).2 ha)
  have hboth : ∀ a ∈ l ++ l', S a := by
    intro a ha
    rcases mem_append.1 ha with ha | ha
    · exact hl a ha
    · exact hl' a ha
  calc l.foldl f s = l'.foldl f (l.foldl f s) :=
        (h.absorb_all hl (fun a ha => (hmem a).2 ha) s).symm
    _ = (l ++ l').foldl f s := (foldl_append).symm
    _ = (l' ++ l).foldl f s := h.foldl_perm perm_append_comm hboth s
    _ = l.foldl f (l'.foldl f s) := foldl_append
    _ = l'.foldl f s := h.absorb_all hl' (fun a ha => (hmem a).1 ha) s

end Mergeable

end TKNC.Lib.Replay
