import TKNC.Lib.OrderedMap

/-!
# SecondaryKey — ordered maps whose values know their key and do not clash

Every value is stored under the key that it names, and no two entries clash, for a symmetric
relation on values such as agreement in a second attribute.  One lemma for each way in which a map
is changed.
-/

namespace TKNC.Lib

open OrderedMap

structure Indexed {K V : Type} [LinearOrder K] (key : V → K) (clash : V → V → Prop)
    (m : OrderedMap K V) : Prop where
  own_key : ∀ e ∈ m.entries, key e.2 = e.1
  apart : ∀ e ∈ m.entries, ∀ e' ∈ m.entries, clash e.2 e'.2 → e = e'

namespace Indexed

variable {K V : Type} [LinearOrder K] {key : V → K} {clash : V → V → Prop} {m : OrderedMap K V}

theorem empty : Indexed key clash (empty : OrderedMap K V) where
  own_key := nofun
  apart := nofun

theorem filter (h : Indexed key clash m) (p : K × V → Bool) : Indexed key clash (m.filter p) where
  own_key := fun e hmem => h.own_key e (mem_entries_filter.1 hmem).1
  apart := fun e hmem e' hmem' =>
    h.apart e (mem_entries_filter.1 hmem).1 e' (mem_entries_filter.1 hmem').1

/-- A value that clashes with no entry under another key can be stored. -/
theorem insert (h : Indexed key clash m) (hsymm : ∀ v v', clash v v' → clash v' v) {v : V}
    (hv : ∀ e ∈ m.entries, e.1 ≠ key v → ¬ clash v e.2) :
    Indexed key clash (m.insert (key v) v) := by
  constructor
  · intro e hmem
    rcases mem_entries_insert.1 hmem with rfl | ⟨_, hmem⟩
    · rfl
    · exact h.own_key e hmem
  · intro e hmem e' hmem' hclash
    rcases mem_entries_insert.1 hmem with rfl | ⟨hne, hold⟩ <;>
      rcases mem_entries_insert.1 hmem' with rfl | ⟨hne', hold'⟩
    · rfl
    · exact absurd hclash (hv e' hold' hne')
    · exact absurd (hsymm _ _ hclash) (hv e hold hne)
    · exact h.apart e hold e' hold' hclash

theorem mapValues (h : Indexed key clash m) {f : V → V} (hkey : ∀ v, key (f v) = key v)
    (hclash : ∀ v v', clash (f v) (f v') → clash v v') : Indexed key clash (m.mapValues f) := by
  constructor
  · intro e hmem
    rcases mem_entries_mapValues.1 hmem with ⟨old, hold, rfl⟩
    exact (hkey old.2).trans (h.own_key old hold)
  · intro e hmem e' hmem' hboth
    rcases mem_entries_mapValues.1 hmem with ⟨old, hold, rfl⟩
    rcases mem_entries_mapValues.1 hmem' with ⟨old', hold', rfl⟩
    rw [h.apart old hold old' hold' (hclash _ _ hboth)]

theorem replace (h : Indexed key clash m) (hsymm : ∀ v v', clash v v' → clash v' v) {k : K}
    {old v : V} (hold : m.get? k = some old) (hkey : key v = key old)
    (hclash : ∀ w, clash v w → clash old w) : Indexed key clash (m.insert k v) := by
  have hmem := get?_eq_some_iff.1 hold
  have hk : key v = k := hkey.trans (h.own_key _ hmem)
  subst hk
  refine h.insert hsymm ?_
  intro e he hne hboth
  exact hne (congrArg Prod.fst (h.apart _ hmem e he (hclash e.2 hboth))).symm

end Indexed

end TKNC.Lib
