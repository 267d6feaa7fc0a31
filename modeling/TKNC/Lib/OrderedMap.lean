import Mathlib.Data.List.Pairwise
import Mathlib.Order.Lattice

/-!
# OrderedMap — finite maps iterated in key order

A finite map as the list of its entries in strictly increasing key order: what an ordered
container or an ordered key-value store shows to an iteration.  The order is a field, so a map
never holds a key twice and membership in the list determines the map.
-/

namespace TKNC.Lib

open List

structure OrderedMap (K V : Type) [LinearOrder K] where
  entries : List (K × V)
  sorted : entries.Pairwise (fun a b => a.1 < b.1)

namespace OrderedMap

variable {K V : Type} [LinearOrder K]

def empty : OrderedMap K V :=
  { entries := []
    sorted := List.Pairwise.nil }

def lookup (k : K) : List (K × V) → Option V
  | [] => none
  | (k', v) :: rest => if k' = k then some v else lookup k rest

def get? (m : OrderedMap K V) (k : K) : Option V :=
  lookup k m.entries

def insertEntry (k : K) (v : V) : List (K × V) → List (K × V)
  | [] => [(k, v)]
  | (k', v') :: rest =>
      if k < k' then (k, v) :: (k', v') :: rest
      else if k = k' then (k, v) :: rest
      else (k', v') :: insertEntry k v rest

/-! ## Insertion keeps the order -/

variable {e : K × V} {l : List (K × V)} {v : V}

theorem mem_insertEntry {k : K} (hsorted : l.Pairwise (fun a b => a.1 < b.1)) :
    e ∈ insertEntry k v l ↔ e = (k, v) ∨ (e.1 ≠ k ∧ e ∈ l) := by
  induction l with
  | nil => simp [insertEntry]
  | cons head rest ih =>
    rcases head with ⟨k', v'⟩
    rcases pairwise_cons.1 hsorted with ⟨hhead, hrest⟩
    -- keys behind `k'` are larger than `k'`, hence none of them is a `k ≤ k'`
    have hlater : ∀ e ∈ rest, k ≤ k' → e.1 ≠ k := by
      intro e hmem hle heq
      have hlt := hhead e hmem
      exact absurd (heq ▸ hlt) (not_lt.2 hle)
    by_cases hlt : k < k'
    · rw [insertEntry, if_pos hlt]
      constructor
      · intro hmem
        rcases mem_cons.1 hmem with rfl | hmem
        · exact Or.inl rfl
        · rcases mem_cons.1 hmem with rfl | hmem'
          · exact Or.inr ⟨hlt.ne', hmem⟩
          · exact Or.inr ⟨hlater e hmem' hlt.le, hmem⟩
      · rintro (rfl | ⟨_, hmem⟩)
        · exact mem_cons_self
        · exact mem_cons_of_mem _ hmem
    · by_cases heq : k = k'
      · -- the old value of the key is replaced
        subst heq
        rw [insertEntry, if_neg hlt, if_pos rfl]
        constructor
        · intro hmem
          rcases mem_cons.1 hmem with rfl | hmem
          · exact Or.inl rfl
          · exact Or.inr ⟨hlater e hmem le_rfl, mem_cons_of_mem _ hmem⟩
        · rintro (rfl | ⟨hne, hmem⟩)
          · exact mem_cons_self
          · rcases mem_cons.1 hmem with rfl | hmem
            · exact absurd rfl hne
            · exact mem_cons_of_mem _ hmem
      · rw [insertEntry, if_neg hlt, if_neg heq, mem_cons, ih hrest, mem_cons]
        constructor
        · rintro (rfl | rfl | ⟨hek, hmem⟩)
          · exact Or.inr ⟨Ne.symm heq, Or.inl rfl⟩
          · exact Or.inl rfl
          · exact Or.inr ⟨hek, Or.inr hmem⟩
        · rintro (rfl | ⟨hek, rfl | hmem⟩)
          · exact Or.inr (Or.inl rfl)
          · exact Or.inl rfl
          · exact Or.inr (Or.inr ⟨hek, hmem⟩)

theorem sorted_insertEntry (k : K) (v : V) (hsorted : l.Pairwise (fun a b => a.1 < b.1)) :
    (insertEntry k v l).Pairwise (fun a b => a.1 < b.1) := by
  induction l with
  | nil => exact pairwise_singleton _ _
  | cons head rest ih =>
    rcases head with ⟨k', v'⟩
    rcases pairwise_cons.1 hsorted with ⟨hhead, hrest⟩
    by_cases hlt : k < k'
    · rw [insertEntry, if_pos hlt]
      refine pairwise_cons.2 ⟨?_, hsorted⟩
      intro e hmem
      rcases mem_cons.1 hmem with rfl | hmem
      · exact hlt
      · exact hlt.trans (hhead e hmem)
    · by_cases heq : k = k'
      · rw [insertEntry, if_neg hlt, if_pos heq]
        exact pairwise_cons.2 ⟨fun e hmem => heq ▸ hhead e hmem, hrest⟩
      · rw [insertEntry, if_neg hlt, if_neg heq]
        refine pairwise_cons.2 ⟨?_, ih hrest⟩
        intro e hmem
        -- the new tail holds the new key and old keys, all above the head
        rcases (mem_insertEntry hrest).1 hmem with rfl | ⟨_, hmem⟩
        · exact lt_of_le_of_ne (not_lt.1 hlt) (Ne.symm heq)
        · exact hhead e hmem

theorem insertEntry_insertEntry (k : K) (v v' : V) (l : List (K × V)) :
    insertEntry k v' (insertEntry k v l) = insertEntry k v' l := by
  induction l with
  | nil => simp [insertEntry]
  | cons head rest ih =>
    rcases head with ⟨k', w⟩
    by_cases hlt : k < k'
    · simp [insertEntry, hlt]
    · by_cases heq : k = k'
      · simp [insertEntry, heq]
      · simp [insertEntry, hlt, heq, ih]

def insert (m : OrderedMap K V) (k : K) (v : V) : OrderedMap K V :=
  { entries := insertEntry k v m.entries
    sorted := sorted_insertEntry k v m.sorted }

@[simp] theorem insert_insert (m : OrderedMap K V) (k : K) (v v' : V) :
    (m.insert k v).insert k v' = m.insert k v' := by
  simp [insert, insertEntry_insertEntry]

/-! ## Lookup -/

theorem lookup_eq_some_iff {k : K} (hsorted : l.Pairwise (fun a b => a.1 < b.1)) :
    lookup k l = some v ↔ (k, v) ∈ l := by
  induction l with
  | nil => simp [lookup]
  | cons head rest ih =>
    rcases head with ⟨k', w⟩
    rcases pairwise_cons.1 hsorted with ⟨hhead, hrest⟩
    unfold lookup
    split
    · rename_i heq
      subst heq
      constructor
      · intro h
        cases h
        exact mem_cons_self
      · intro hmem
        rcases mem_cons.1 hmem with h | hmem
        · cases h
          rfl
        · exact absurd (hhead _ hmem) (lt_irrefl _)
    · rename_i hne
      rw [ih hrest, mem_cons]
      constructor
      · exact Or.inr
      · rintro (h | hmem)
        · cases h
          exact absurd rfl hne
        · exact hmem

variable {m : OrderedMap K V}

theorem get?_eq_some_iff {k : K} :
    m.get? k = some v ↔ (k, v) ∈ m.entries :=
  lookup_eq_some_iff m.sorted

theorem ext_get? {m m' : OrderedMap K V} (h : ∀ k, m.get? k = m'.get? k) : m = m' := by
  have hmem : ∀ e, e ∈ m.entries ↔ e ∈ m'.entries := by
    rintro ⟨k, v⟩
    rw [← get?_eq_some_iff, ← get?_eq_some_iff, h]
  have hnodup : ∀ m : OrderedMap K V, m.entries.Nodup := by
    intro m
    apply m.sorted.imp
    rintro e e' hlt rfl
    exact lt_irrefl _ hlt
  have hperm := (perm_ext_iff_of_nodup (hnodup m) (hnodup m')).2 hmem
  have hentries : m.entries = m'.entries := by
    apply hperm.eq_of_pairwise _ m.sorted m'.sorted
    intro e e' _ _ hlt hlt'
    exact absurd (lt_trans hlt hlt') (lt_irrefl _)
  cases m
  cases m'
  cases hentries
  rfl

theorem mem_entries_insert {k : K} :
    e ∈ (m.insert k v).entries ↔ e = (k, v) ∨ (e.1 ≠ k ∧ e ∈ m.entries) :=
  mem_insertEntry m.sorted

theorem get?_insert (m : OrderedMap K V) (k : K) (v : V) (k' : K) :
    (m.insert k v).get? k' = if k' = k then some v else m.get? k' := by
  refine Option.ext fun w => ?_
  rw [get?_eq_some_iff, mem_entries_insert]
  split
  · rename_i heq
    subst heq
    simp [eq_comm]
  · rename_i hne
    rw [get?_eq_some_iff]
    simp [hne]

@[simp] theorem get?_insert_self (m : OrderedMap K V) (k : K) (v : V) :
    (m.insert k v).get? k = some v := by
  simp [get?_insert]

theorem get?_insert_of_ne {k k' : K} (h : k' ≠ k) :
    (m.insert k v).get? k' = m.get? k' := by
  simp [get?_insert, h]

def erase (m : OrderedMap K V) (k : K) : OrderedMap K V :=
  { entries := m.entries.filter fun e => e.1 ≠ k
    sorted := m.sorted.filter _ }

theorem get?_erase (m : OrderedMap K V) (k k' : K) :
    (m.erase k).get? k' = if k' = k then none else m.get? k' := by
  refine Option.ext fun w => ?_
  rw [get?_eq_some_iff]
  split
  · rename_i heq
    simp [erase, heq]
  · rename_i hne
    rw [get?_eq_some_iff]
    simp [erase, hne]

def filter (m : OrderedMap K V) (p : K × V → Bool) : OrderedMap K V :=
  { entries := m.entries.filter p
    sorted := m.sorted.filter _ }

theorem mem_entries_filter {p : K × V → Bool} :
    e ∈ (m.filter p).entries ↔ e ∈ m.entries ∧ p e = true :=
  mem_filter

def mapValues (m : OrderedMap K V) (f : V → V) : OrderedMap K V :=
  { entries := m.entries.map fun e => (e.1, f e.2)
    sorted := List.pairwise_map.2 m.sorted }

theorem mem_entries_mapValues {f : V → V} :
    e ∈ (m.mapValues f).entries ↔ ∃ e' ∈ m.entries, (e'.1, f e'.2) = e :=
  mem_map

omit [LinearOrder K] in
/-- When a single entry passes the test, the order of the iteration does not matter. -/
theorem find?_eq_some_of_unique {p : K × V → Bool} {l : List (K × V)} {e : K × V}
    (hmem : e ∈ l) (hp : p e = true) (huniq : ∀ e' ∈ l, p e' = true → e' = e) :
    l.find? p = some e := by
  cases hfind : l.find? p with
  | none => exact absurd hp (by simpa using find?_eq_none.1 hfind e hmem)
  | some e' =>
    rw [huniq e' (mem_of_find?_eq_some hfind) (find?_some hfind)]

theorem mem_before_of_lt {before after : List (K × V)} {e e' : K × V}
    (hlist : m.entries = before ++ e :: after) (hmem : e' ∈ m.entries) (hlt : e'.1 < e.1) :
    e' ∈ before := by
  have hsorted := m.sorted
  rw [hlist] at hmem hsorted
  rcases mem_append.1 hmem with hmem | hmem
  · exact hmem
  · rcases mem_cons.1 hmem with rfl | hmem
    · exact absurd hlt (lt_irrefl _)
    · have htail := (pairwise_append.1 hsorted).2.1
      exact absurd hlt (lt_asymm ((pairwise_cons.1 htail).1 e' hmem))

theorem eq_of_key_eq {e e' : K × V} (hmem : e ∈ m.entries) (hmem' : e' ∈ m.entries)
    (hkey : e.1 = e'.1) : e = e' := by
  have hget := get?_eq_some_iff.2 (show (e.1, e.2) ∈ m.entries from hmem)
  have hget' := get?_eq_some_iff.2 (show (e'.1, e'.2) ∈ m.entries from hmem')
  rw [← hkey] at hget'
  exact Prod.ext hkey (Option.some.inj (hget.symm.trans hget'))

/-- The first match is the match with the least key. -/
theorem find?_eq_some_iff {p : K × V → Bool} :
    m.entries.find? p = some e ↔
      e ∈ m.entries ∧ p e = true ∧ ∀ e' ∈ m.entries, e'.1 < e.1 → p e' = false := by
  constructor
  · intro hfind
    rcases find?_eq_some_iff_append.1 hfind with ⟨hp, before, after, hlist, hbefore⟩
    refine ⟨mem_of_find?_eq_some hfind, hp, ?_⟩
    intro e' hmem hlt
    simpa using hbefore e' (mem_before_of_lt hlist hmem hlt)
  · rintro ⟨hmem, hp, hfirst⟩
    cases hfind : m.entries.find? p with
    | none => exact absurd hp (by simpa using find?_eq_none.1 hfind e hmem)
    | some e' =>
      have hmem' := mem_of_find?_eq_some hfind
      rcases find?_eq_some_iff_append.1 hfind with ⟨hp', before, after, hlist, hbefore⟩
      rcases lt_trichotomy e'.1 e.1 with hlt | heq | hlt
      · exact absurd hp' (by simp [hfirst e' hmem' hlt])
      · exact congrArg some (eq_of_key_eq hmem' hmem heq)
      · exact absurd hp (by simpa using hbefore e (mem_before_of_lt hlist hmem hlt))

end OrderedMap

end TKNC.Lib
