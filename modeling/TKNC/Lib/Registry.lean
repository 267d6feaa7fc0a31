import Mathlib.Data.List.Basic
import Mathlib.Logic.Function.Basic

/-!
# Registry — a table of the parties that wait under a key

The table names a party by its position in a list that only grows.  `Owned` says that every entry
names a party that fits the key it stands under; it is kept by the changes of the table and of the
list that the lemmas here name.
-/

namespace TKNC.Lib.Registry

open List

variable {κ α β : Type*} {Fits : κ → α → Prop} {table : κ → Option Nat} {parties : List α}

/-- Every entry of the table names a party that fits its key. -/
def Owned (Fits : κ → α → Prop) (table : κ → Option Nat) (parties : List α) : Prop :=
  ∀ key i, table key = some i → ∃ party, parties[i]? = some party ∧ Fits key party

theorem owned_empty : Owned Fits (fun _ => none) parties := by
  rintro _ _ ⟨⟩

variable {party : α} {i : Nat}

theorem Owned.fits (h : Owned Fits table parties) {key : κ} (hentry : table key = some i)
    (hparty : parties[i]? = some party) : Fits key party := by
  obtain ⟨party', hparty', hfits⟩ := h key i hentry
  rw [hparty, Option.some.injEq] at hparty'
  exact hparty' ▸ hfits

theorem Owned.append (h : Owned Fits table parties) (party : α) :
    Owned Fits table (parties ++ [party]) := by
  intro key i hentry
  obtain ⟨party', hparty, hfits⟩ := h key i hentry
  have hlt : i < parties.length := (List.getElem?_eq_some_iff.1 hparty).1
  exact ⟨party', by rw [List.getElem?_append_left hlt, hparty], hfits⟩

/-! ## Changes of one entry -/

section Table

variable [DecidableEq κ]

theorem update_none_eq_some {table : κ → Option β} {key key' : κ} {b : β} :
    Function.update table key none key' = some b ↔ key' ≠ key ∧ table key' = some b := by
  by_cases hkey : key' = key
  · simp [hkey]
  · simp [hkey]

theorem update_some_eq_some {table : κ → Option β} {key key' : κ} {b c : β} :
    Function.update table key (some c) key' = some b ↔
      key' = key ∧ c = b ∨ key' ≠ key ∧ table key' = some b := by
  by_cases hkey : key' = key
  · simp [hkey]
  · simp [hkey]

theorem Owned.erase (h : Owned Fits table parties) (key : κ) :
    Owned Fits (Function.update table key none) parties :=
  fun key' i hentry => h key' i (update_none_eq_some.1 hentry).2

theorem Owned.insert (h : Owned Fits table parties) {key : κ} {j : Nat} {party : α}
    (hparty : parties[j]? = some party) (hfits : Fits key party) :
    Owned Fits (Function.update table key (some j)) parties := by
  intro key' i hentry
  rcases update_some_eq_some.1 hentry with ⟨rfl, rfl⟩ | ⟨_, hentry⟩
  · exact ⟨party, hparty, hfits⟩
  · exact h key' i hentry

end Table

variable {f : α → α}

theorem getElem?_modify_eq_some {i j : Nat} :
    (parties.modify i f)[j]? = some party ↔
      ∃ party', parties[j]? = some party' ∧ (if i = j then f party' else party') = party := by
  rw [getElem?_modify]
  exact Option.map_eq_some_iff

theorem getElem?_modify_self (h : parties[i]? = some party) :
    (parties.modify i f)[i]? = some (f party) :=
  getElem?_modify_eq_some.2 ⟨party, h, if_pos rfl⟩

theorem Owned.modify (h : Owned Fits table parties)
    (hf : ∀ key party, table key = some i → parties[i]? = some party → Fits key party →
      Fits key (f party)) :
    Owned Fits table (parties.modify i f) := by
  intro key j hentry
  obtain ⟨party, hparty, hfits⟩ := h key j hentry
  refine ⟨_, getElem?_modify_eq_some.2 ⟨party, hparty, rfl⟩, ?_⟩
  split
  · rename_i hij
    subst hij
    exact hf key party hentry hparty hfits
  · exact hfits

theorem getElem?_concat_eq_some {party party' : α} :
    (parties ++ [party])[i]? = some party' ↔
      parties[i]? = some party' ∨ i = parties.length ∧ party = party' := by
  rw [getElem?_append]
  split
  · rename_i hlt
    simp [Nat.ne_of_lt hlt]
  · rename_i hle
    rw [getElem?_singleton, getElem?_eq_none_iff.2 (Nat.not_lt.1 hle)]
    grind

theorem forall_getElem?_concat_iff {P : Nat → α → Prop} :
    (∀ i party', (parties ++ [party])[i]? = some party' → P i party') ↔
      (∀ i party', parties[i]? = some party' → P i party') ∧ P parties.length party := by
  simp only [getElem?_concat_eq_some]
  grind

/-- If all parties have a property, all keep it as soon as the changed one does. -/
theorem forall_getElem?_modify_iff {P : Nat → α → Prop}
    (h : ∀ i party, parties[i]? = some party → P i party) (hparty : parties[i]? = some party) :
    (∀ j party', (parties.modify i f)[j]? = some party' → P j party') ↔ P i (f party) := by
  constructor
  · intro hall
    exact hall i _ (getElem?_modify_self hparty)
  · intro hparty' j party' hj
    obtain ⟨old, hold, rfl⟩ := getElem?_modify_eq_some.1 hj
    split
    · rename_i hij
      subst hij
      rw [hparty, Option.some.injEq] at hold
      exact hold ▸ hparty'
    · exact h j old hold

theorem forall_mem_modify_iff {P : α → Prop} (h : ∀ party ∈ parties, P party)
    (hparty : parties[i]? = some party) :
    (∀ party' ∈ parties.modify i f, P party') ↔ P (f party) := by
  rw [← forall_getElem?_modify_iff (fun j party' hj => h party' (mem_of_getElem? hj)) hparty]
  constructor
  · exact fun hall j party' hj => hall party' (mem_of_getElem? hj)
  · intro hall party' hmem
    obtain ⟨j, hj⟩ := mem_iff_getElem?.1 hmem
    exact hall j party' hj

end TKNC.Lib.Registry
