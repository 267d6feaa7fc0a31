import Mathlib.Data.List.Nodup
import Mathlib.Logic.Function.Basic

/-!
# Turnover — what is created and what is spent

A partial map from keys to values changes in steps that create entries and spend others.  `Turnover`
says what a step did as a whole: the created keys were free and are all different, and the map
afterwards holds them together with the old entries that were not spent.  Steps compose as long as
no step spends what another one creates.
-/

namespace TKNC.Lib

open List

variable {K V : Type*}

structure Turnover (created : List (K × V)) (spent : List K) (before after : K → Option V) :
    Prop where
  fresh : ∀ k ∈ created.map Prod.fst, before k = none
  nodup : (created.map Prod.fst).Nodup
  after_iff : ∀ k v, after k = some v ↔ (k, v) ∈ created ∨ (before k = some v ∧ k ∉ spent)

namespace Turnover

variable {created created' : List (K × V)} {spent spent' : List K} {before mid after : K → Option V}
  {k : K} {v : V}

theorem after_of_mem (h : Turnover created spent before after) (hmem : (k, v) ∈ created) :
    after k = some v :=
  (h.after_iff k v).2 (Or.inl hmem)

theorem after_of_spent (h : Turnover created spent before after)
    (hnot : k ∉ created.map Prod.fst) (hspent : k ∈ spent) : after k = none := by
  rw [Option.eq_none_iff_forall_ne_some]
  intro v hafter
  rcases (h.after_iff k v).1 hafter with hmem | ⟨_, hkept⟩
  · exact hnot (mem_map_of_mem hmem)
  · exact hkept hspent

theorem after_of_kept (h : Turnover created spent before after)
    (hnot : k ∉ created.map Prod.fst) (hkept : k ∉ spent) : after k = before k := by
  refine Option.ext fun v => ?_
  rw [h.after_iff]
  constructor
  · rintro (hmem | ⟨hbefore, _⟩)
    · exact absurd (mem_map_of_mem hmem) hnot
    · exact hbefore
  · intro hbefore
    exact Or.inr ⟨hbefore, hkept⟩

/-- What holds of the old entries and of the created ones holds of all. -/
theorem forall_after (h : Turnover created spent before after) {P : K → V → Prop}
    (hbefore : ∀ k v, before k = some v → P k v) (hcreated : ∀ e ∈ created, P e.1 e.2) :
    ∀ k v, after k = some v → P k v := by
  intro k v hafter
  rcases (h.after_iff k v).1 hafter with hmem | ⟨hold, _⟩
  · exact hcreated (k, v) hmem
  · exact hbefore k v hold

/-! ## Building blocks -/

theorem refl (before : K → Option V) : Turnover [] [] before before where
  fresh := nofun
  nodup := nodup_nil
  after_iff := by simp

variable [DecidableEq K]

theorem create (hfree : before k = none) (v : V) :
    Turnover [(k, v)] [] before (Function.update before k (some v)) where
  fresh := by simpa using hfree
  nodup := nodup_singleton k
  after_iff := by
    intro k' v'
    by_cases hk : k' = k
    · subst hk
      simp [hfree, eq_comm]
    · simp [hk]

theorem spendAll (spent : List K) (before : K → Option V) :
    Turnover [] spent before (spent.foldl (fun m k => Function.update m k none) before) where
  fresh := nofun
  nodup := nodup_nil
  after_iff := by
    intro k v
    induction spent generalizing before with
    | nil => simp
    | cons key spent ih =>
      rw [foldl_cons, ih]
      by_cases hk : k = key
      · simp [hk]
      · simp [hk]

omit [DecidableEq K] in
/-- Two steps, neither of which spends what the other creates, make one. -/
theorem trans (h : Turnover created spent before mid) (h' : Turnover created' spent' mid after)
    (hlater : ∀ k ∈ created.map Prod.fst, k ∉ spent')
    (hearlier : ∀ k ∈ created'.map Prod.fst, k ∉ spent) :
    Turnover (created ++ created') (spent ++ spent') before after where
  fresh := by
    intro k hmem
    rw [map_append, mem_append] at hmem
    rcases hmem with hmem | hmem
    · exact h.fresh k hmem
    · -- an old entry would have survived the first step
      rw [Option.eq_none_iff_forall_ne_some]
      intro v hbefore
      have hmid := (h.after_iff k v).2 (Or.inr ⟨hbefore, hearlier k hmem⟩)
      rw [h'.fresh k hmem] at hmid
      cases hmid
  nodup := by
    rw [map_append, nodup_append]
    refine ⟨h.nodup, h'.nodup, ?_⟩
    intro k hmem k' hmem' heq
    subst heq
    rcases mem_map.1 hmem with ⟨⟨key, v⟩, hpair, rfl⟩
    have hmid := h.after_of_mem hpair
    rw [h'.fresh key hmem'] at hmid
    cases hmid
  after_iff := by
    intro k v
    rw [h'.after_iff, h.after_iff, mem_append, mem_append, not_or]
    constructor
    · rintro (hmem | ⟨hmem | ⟨hbefore, hkept⟩, hkept'⟩)
      · exact Or.inl (Or.inr hmem)
      · exact Or.inl (Or.inl hmem)
      · exact Or.inr ⟨hbefore, hkept, hkept'⟩
    · rintro ((hmem | hmem) | ⟨hbefore, hkept, hkept'⟩)
      · exact Or.inr ⟨Or.inl hmem, hlater k (mem_map_of_mem hmem)⟩
      · exact Or.inl hmem
      · exact Or.inr ⟨Or.inr ⟨hbefore, hkept⟩, hkept'⟩

end Turnover

end TKNC.Lib
