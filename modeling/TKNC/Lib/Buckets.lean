import Mathlib.Data.List.Nodup
import Mathlib.Logic.Function.Basic

/-!
# Buckets — entries in bounded buckets that their keys determine

A table has a bucket for every index, and a key belongs into one bucket.  `Valid` says that every
entry is where its key belongs, no key is twice in a bucket, and no bucket is over its capacity.

The keys of the buckets decide it: an operation that only drops keys keeps it (`Valid.of_sublist`),
and so does a new key at the end of its bucket (`Valid.insert`).
-/

namespace TKNC.Lib.Buckets

open List

variable {ι α κ : Type*}

def mapFirst (p : α → Bool) (f : α → α) : List α → List α
  | [] => []
  | a :: l => if p a then f a :: l else a :: mapFirst p f l

theorem map_mapFirst {p : α → Bool} {f : α → α} {key : α → κ}
    (h : ∀ a, p a = true → key (f a) = key a) (l : List α) :
    (mapFirst p f l).map key = l.map key := by
  induction l with
  | nil => rfl
  | cons a l ih =>
    rw [mapFirst]
    split
    · next ha => rw [map_cons, h a ha, map_cons]
    · rw [map_cons, ih, map_cons]

/-! ## The invariant -/

structure Valid (key : α → κ) (index : κ → ι) (capacity : Nat) (buckets : ι → List α) : Prop where
  placed : ∀ i, ∀ a ∈ buckets i, index (key a) = i
  once : ∀ i, ((buckets i).map key).Nodup
  bounded : ∀ i, (buckets i).length ≤ capacity

section Valid

variable {key : α → κ} {index : κ → ι} {capacity : Nat} {buckets buckets' : ι → List α}

theorem valid_empty : Valid key index capacity (fun _ => []) where
  placed _ _ h := by cases h
  once _ := nodup_nil
  bounded _ := Nat.zero_le _

theorem Valid.placed_key (h : Valid key index capacity buckets) {i : ι} {k : κ}
    (hmem : k ∈ (buckets i).map key) : index k = i := by
  obtain ⟨a, ha, rfl⟩ := mem_map.1 hmem
  exact h.placed i a ha

/-- Dropping keys, or changing what stands beside them. -/
theorem Valid.of_sublist (h : Valid key index capacity buckets)
    (hsub : ∀ i, ((buckets' i).map key).Sublist ((buckets i).map key)) :
    Valid key index capacity buckets' where
  placed i a hmem := h.placed_key ((hsub i).subset (mem_map_of_mem hmem))
  once i := (hsub i).nodup (h.once i)
  bounded i := by
    have hlength := (hsub i).length_le
    rw [length_map, length_map] at hlength
    exact Nat.le_trans hlength (h.bounded i)

variable [DecidableEq ι]

theorem Valid.update (h : Valid key index capacity buckets) {i : ι} {l : List α}
    (hsub : (l.map key).Sublist ((buckets i).map key)) :
    Valid key index capacity (Function.update buckets i l) := by
  apply h.of_sublist
  intro j
  by_cases hj : j = i
  · rw [hj, Function.update_self]
    exact hsub
  · rw [Function.update_of_ne hj]

/-- A new key at the end of what is left of its bucket. -/
theorem Valid.insert (h : Valid key index capacity buckets) {a : α} {l : List α}
    (hsub : l.Sublist (buckets (index (key a)))) (hroom : l.length < capacity)
    (hnew : key a ∉ (buckets (index (key a))).map key) :
    Valid key index capacity (Function.update buckets (index (key a)) (l ++ [a])) where
  placed j b hmem := by
    by_cases hj : j = index (key a)
    · rw [hj, Function.update_self, mem_append, mem_singleton] at hmem
      rcases hmem with hmem | rfl
      · exact hj ▸ h.placed _ b (hsub.subset hmem)
      · exact hj.symm
    · rw [Function.update_of_ne hj] at hmem
      exact h.placed j b hmem
  once j := by
    by_cases hj : j = index (key a)
    · rw [hj, Function.update_self, map_append, map_singleton]
      apply List.Nodup.append ((hsub.map key).nodup (h.once _)) (nodup_singleton _)
      rw [disjoint_singleton]
      exact fun hmem => hnew ((hsub.map key).subset hmem)
    · rw [Function.update_of_ne hj]
      exact h.once j
  bounded j := by
    by_cases hj : j = index (key a)
    · rw [hj, Function.update_self, length_append, length_singleton]
      exact hroom
    · rw [Function.update_of_ne hj]
      exact h.bounded j

omit [DecidableEq ι] in
theorem Valid.nodup (h : Valid key index capacity buckets) {indices : List ι}
    (hindices : indices.Nodup) : ((indices.flatMap buckets).map key).Nodup := by
  rw [map_flatMap, nodup_flatMap]
  refine ⟨fun i _ => h.once i, hindices.imp ?_⟩
  intro i j hne k hi hj
  exact hne ((h.placed_key hi).symm.trans (h.placed_key hj))

omit [DecidableEq ι] in
theorem Valid.length_le (h : Valid key index capacity buckets) (indices : List ι) :
    (indices.flatMap buckets).length ≤ indices.length * capacity := by
  induction indices with
  | nil => exact Nat.zero_le _
  | cons i indices ih =>
    have hfirst := h.bounded i
    rw [flatMap_cons, length_append, length_cons, Nat.succ_mul]
    omega

end Valid

end TKNC.Lib.Buckets
