import Mathlib.Data.List.Basic

/-!
# PrefixCode — texts whose symbols can be read off one by one

Every symbol is written as a piece of text.  If a reader finds the first symbol whatever follows it,
and finds none at the stop, then a stopped text is the text of one sequence of symbols only
(`Readable.flatMap_inj`).  Symbols that are no stops read as themselves (`append_stop_inj`).
-/

namespace TKNC.Lib.PrefixCode

open List

variable {α β : Type*}

/-- `read` finds the first symbol of every text, and none in front of `stop`. -/
structure Readable (code : α → List β) (read : List β → Option α) (stop : β) : Prop where
  symbol : ∀ a rest, read (code a ++ rest) = some a
  stopped : ∀ rest, read (stop :: rest) = none

variable {code : α → List β} {read : List β → Option α} {stop : β}

theorem Readable.flatMap_inj (h : Readable code read stop) {s t : List α} {u v : List β}
    (heq : s.flatMap code ++ stop :: u = t.flatMap code ++ stop :: v) : s = t ∧ u = v := by
  -- along both sequences; the reader sees the same text, so their first symbols agree
  induction s generalizing t with
  | nil =>
    cases t with
    | nil => exact ⟨rfl, (cons.inj heq).2⟩
    | cons b t =>
      have hread := congrArg read heq
      rw [flatMap_nil, nil_append, h.stopped, flatMap_cons, append_assoc,
        h.symbol] at hread
      cases hread
  | cons a s ih =>
    rw [flatMap_cons, append_assoc] at heq
    have hread := congrArg read heq
    rw [h.symbol] at hread
    cases t with
    | nil =>
      rw [flatMap_nil, nil_append, h.stopped] at hread
      cases hread
    | cons b t =>
      rw [flatMap_cons, append_assoc, h.symbol] at hread
      cases hread
      rw [flatMap_cons, append_assoc] at heq
      have hrest := ih (append_cancel_left heq)
      exact ⟨congrArg (a :: ·) hrest.1, hrest.2⟩

theorem append_stop_inj {s t u v : List β} (hs : stop ∉ s) (ht : stop ∉ t)
    (heq : s ++ stop :: u = t ++ stop :: v) : s = t ∧ u = v := by
  induction s generalizing t with
  | nil =>
    cases t with
    | nil => exact ⟨rfl, (cons.inj heq).2⟩
    | cons b t => exact absurd (cons.inj heq).1 fun h => ht (h ▸ mem_cons_self)
  | cons a s ih =>
    rw [mem_cons, not_or] at hs
    cases t with
    | nil => exact absurd (cons.inj heq).1.symm hs.1
    | cons b t =>
      rw [mem_cons, not_or] at ht
      rcases cons.inj heq with ⟨rfl, htail⟩
      have hrest := ih hs.2 ht.2 htail
      exact ⟨congrArg (a :: ·) hrest.1, hrest.2⟩

/-! ## Texts that differ -/

/-- The texts differ at some place, so that nothing that follows makes them equal. -/
def Clash (s t : List β) : Prop :=
  ∃ u b b' v v', s = u ++ b :: v ∧ t = u ++ b' :: v' ∧ b ≠ b'

variable {s t : List β}

theorem Clash.append_left (h : Clash s t) (u : List β) :
    Clash (u ++ s) (u ++ t) := by
  obtain ⟨w, b, b', v, v', rfl, rfl, hne⟩ := h
  exact ⟨u ++ w, b, b', v, v', (append_assoc ..).symm, (append_assoc ..).symm, hne⟩

theorem Clash.append_right (h : Clash s t) (v v' : List β) :
    Clash (s ++ v) (t ++ v') := by
  obtain ⟨u, b, b', w, w', rfl, rfl, hne⟩ := h
  exact ⟨u, b, b', w ++ v, w' ++ v', append_assoc .., append_assoc .., hne⟩

theorem Clash.ne (h : Clash s t) : s ≠ t := by
  obtain ⟨u, b, b', v, v', rfl, rfl, hne⟩ := h
  intro heq
  exact hne (cons.inj (append_cancel_left heq)).1

/-- The texts are equal if the condition holds, and clash otherwise. -/
def EqualIff (s t : List β) (good : Prop) : Prop :=
  (s = t ∧ good) ∨ (Clash s t ∧ ¬ good)

theorem EqualIff.refl (s : List β) : EqualIff s s True :=
  Or.inl ⟨rfl, trivial⟩

variable {s t u v : List β} {p q : Prop}

theorem EqualIff.append (h : EqualIff s t p) (h' : EqualIff u v q) :
    EqualIff (s ++ u) (t ++ v) (p ∧ q) := by
  rcases h with ⟨rfl, hp⟩ | ⟨hclash, hp⟩
  · rcases h' with ⟨rfl, hq⟩ | ⟨hclash, hq⟩
    · exact Or.inl ⟨rfl, hp, hq⟩
    · exact Or.inr ⟨hclash.append_left s, fun hall => hq hall.2⟩
  · exact Or.inr ⟨hclash.append_right u v, fun hall => hp hall.1⟩

/-- Texts of which neither begins with the other, unless they are equal. -/
theorem EqualIff.of_prefix (h : s <+: t → s = t) (h' : t <+: s → s = t) :
    EqualIff s t (s = t) := by
  by_cases heq : s = t
  · exact Or.inl ⟨heq, heq⟩
  refine Or.inr ⟨?_, heq⟩
  induction s generalizing t with
  | nil => exact absurd (h nil_prefix) heq
  | cons b s ih =>
    cases t with
    | nil => exact absurd (h' nil_prefix) heq
    | cons b' t =>
      by_cases hb : b = b'
      · subst hb
        rw [cons_prefix_cons, cons_inj_right] at h h'
        rw [cons_inj_right] at heq
        exact (ih (fun hp => h ⟨rfl, hp⟩) (fun hp => h' ⟨rfl, hp⟩) heq).append_left [b]
      · exact ⟨[], b, b', s, t, rfl, rfl, hb⟩

theorem EqualIff.flatMap {code code' : α → List β} {good : α → Prop} {as : List α}
    (h : ∀ a ∈ as, EqualIff (code a) (code' a) (good a)) :
    EqualIff (as.flatMap code) (as.flatMap code') (∀ a ∈ as, good a) := by
  induction as with
  | nil => exact Or.inl ⟨rfl, forall_mem_nil _⟩
  | cons a as ih =>
    rw [forall_mem_cons] at h ⊢
    rw [flatMap_cons, flatMap_cons]
    exact h.1.append (ih h.2)

theorem EqualIff.eq (h : EqualIff s t p) : EqualIff s t (s = t) :=
  h.imp (fun h => ⟨h.1, h.1⟩) fun h => ⟨h.1, h.1.ne⟩

theorem EqualIff.append_eq_append_iff (h : EqualIff s t p) : s ++ u = t ++ v ↔ p ∧ u = v := by
  rcases h with ⟨rfl, hp⟩ | ⟨hclash, hp⟩
  · rw [append_cancel_left_eq, and_iff_right hp]
  · exact iff_of_false (hclash.append_right u v).ne fun hall => hp hall.1

theorem EqualIff.eq_nil_iff (h : EqualIff s t p) : s = [] ↔ t = [] := by
  rcases h with ⟨rfl, _⟩ | ⟨⟨u, b, b', v, v', rfl, rfl, _⟩, _⟩
  · exact Iff.rfl
  · simp

end TKNC.Lib.PrefixCode
