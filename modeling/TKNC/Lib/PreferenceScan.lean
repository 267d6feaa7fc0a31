import Mathlib.Data.List.MinMax

/-!
# PreferenceScan — a scan that mixes a preferred class with a score

A loop replaces its best element by one of the preferred class if the best is not of it, or by one
with a larger score, whatever the classes.  The test is not an order: an element outside the class
can replace one inside it.  So the order of the elements matters, and the scan finds a best element
exactly if no larger score comes after some best element (`exists_isBest_scan_iff`).
-/

namespace TKNC.Lib.PreferenceScan

open List

variable {α β : Type*} [LinearOrder β] (preferred : α → Bool) (score : α → β)

def replaces (best x : α) : Bool :=
  (preferred x && !preferred best) || decide (score x > score best)

def keep (best : Option α) (x : α) : Option α :=
  match best with
  | none => some x
  | some b => if replaces preferred score b x then some x else some b

def scan (xs : List α) : Option α :=
  xs.foldl (keep preferred score) none

/-- An element of the preferred class if there is one, with the largest score of its class. -/
structure IsBest (xs : List α) (r : α) : Prop where
  mem : r ∈ xs
  of_exists : (∃ x ∈ xs, preferred x = true) → preferred r = true
  score_le : ∀ x ∈ xs, preferred x = preferred r → score x ≤ score r

variable {preferred score} {xs : List α} {b r x : α}

theorem replaces_eq_false_iff :
    replaces preferred score b x = false ↔
      (preferred x = true → preferred b = true) ∧ score x ≤ score b := by
  unfold replaces
  cases preferred x <;> cases preferred b <;> simp

theorem foldl_keep_ne_none (xs : List α) (b : α) :
    xs.foldl (keep preferred score) (some b) ≠ none := by
  induction xs generalizing b with
  | nil => exact Option.some_ne_none b
  | cons x xs ih =>
    rw [foldl_cons, keep]
    split
    · exact ih x
    · exact ih b

theorem scan_eq_none_iff : scan preferred score xs = none ↔ xs = [] := by
  cases xs with
  | nil => exact iff_of_true rfl rfl
  | cons x xs => exact iff_of_false (foldl_keep_ne_none xs x) (cons_ne_nil x xs)

theorem split_of_scan (h : scan preferred score xs = some r) :
    ∃ before after, xs = before ++ r :: after ∧
      ∀ y ∈ after, replaces preferred score r y = false := by
  -- The last element either is the new best or stands behind the old one.
  induction xs using reverseRecOn generalizing r with
  | nil => exact absurd h (Option.some_ne_none r).symm
  | append_singleton xs x ih =>
    rw [scan, foldl_concat, ← scan] at h
    cases hscan : scan preferred score xs with
    | none =>
      rw [hscan, keep, Option.some.injEq] at h
      exact ⟨xs, [], by rw [h], fun _ hy => absurd hy not_mem_nil⟩
    | some b =>
      rw [hscan, keep] at h
      by_cases hreplaces : replaces preferred score b x = true
      · rw [if_pos hreplaces, Option.some.injEq] at h
        exact ⟨xs, [], by rw [h], fun _ hy => absurd hy not_mem_nil⟩
      · rw [if_neg hreplaces, Option.some.injEq] at h
        subst h
        obtain ⟨before, after, hxs, hafter⟩ := ih hscan
        refine ⟨before, after ++ [x], by rw [hxs, append_assoc, cons_append], ?_⟩
        intro y hy
        rcases mem_append.1 hy with hy | hy
        · exact hafter y hy
        · rw [mem_singleton.1 hy]
          exact Bool.eq_false_iff.2 hreplaces

theorem mem_of_scan (h : scan preferred score xs = some r) : r ∈ xs := by
  obtain ⟨before, after, rfl, -⟩ := split_of_scan h
  exact mem_append_right before mem_cons_self

theorem foldl_keep_of_not_replaces {ys : List α}
    (h : ∀ y ∈ ys, replaces preferred score b y = false) :
    ys.foldl (keep preferred score) (some b) = some b := by
  induction ys with
  | nil => rfl
  | cons y ys ih =>
    rw [foldl_cons, keep, h y mem_cons_self]
    exact ih fun z hz => h z (mem_cons_of_mem y hz)

theorem IsBest.of_eq (hx : IsBest preferred score xs x) (hr : r ∈ xs)
    (hclass : preferred r = preferred x) (hscore : score r = score x) :
    IsBest preferred score xs r where
  mem := hr
  of_exists h := hclass.trans (hx.of_exists h)
  score_le y hy hclass' := hscore ▸ hx.score_le y hy (hclass'.trans hclass)

/-- A best element replaces whatever comes before it, up to elements that are as good. -/
theorem IsBest.keep_eq (hx : IsBest preferred score xs x) {best : Option α}
    (hbest : ∀ b, best = some b → b ∈ xs) :
    ∃ r ∈ xs, keep preferred score best x = some r ∧ preferred r = preferred x ∧
      score r = score x := by
  cases best with
  | none => exact ⟨x, hx.mem, rfl, rfl, rfl⟩
  | some b =>
    have hb := hbest b rfl
    rw [keep]
    by_cases hreplaces : replaces preferred score b x = true
    · exact ⟨x, hx.mem, if_pos hreplaces, rfl, rfl⟩
    · obtain ⟨hclass, hle⟩ := replaces_eq_false_iff.1 (Bool.eq_false_iff.2 hreplaces)
      have hsame : preferred b = preferred x :=
        Bool.eq_iff_iff.2 ⟨fun h => hx.of_exists ⟨b, hb, h⟩, hclass⟩
      exact ⟨b, hb, if_neg hreplaces, hsame, le_antisymm (hx.score_le b hb hsame) hle⟩

theorem exists_isBest_scan_iff :
    (∃ r, scan preferred score xs = some r ∧ IsBest preferred score xs r) ↔
      ∃ before x after, xs = before ++ x :: after ∧ IsBest preferred score xs x ∧
        ∀ y ∈ after, score y ≤ score x := by
  constructor
  · rintro ⟨r, hscan, hbest⟩
    obtain ⟨before, after, hxs, hafter⟩ := split_of_scan hscan
    exact ⟨before, r, after, hxs, hbest, fun y hy => (replaces_eq_false_iff.1 (hafter y hy)).2⟩
  · rintro ⟨before, x, after, hxs, hbest, hafter⟩
    have hbefore : ∀ b, scan preferred score before = some b → b ∈ xs := by
      intro b hb
      rw [hxs]
      exact mem_append_left _ (mem_of_scan hb)
    obtain ⟨r, hr, hkeep, hclass, hscore⟩ := hbest.keep_eq hbefore
    refine ⟨r, ?_, hbest.of_eq hr hclass hscore⟩
    have hscan : scan preferred score (before ++ x :: after) =
        after.foldl (keep preferred score) (some r) := by
      rw [scan, foldl_append, foldl_cons, ← scan, hkeep]
    rw [hxs, hscan]
    refine foldl_keep_of_not_replaces fun y hy => replaces_eq_false_iff.2 ⟨?_, ?_⟩
    · intro hy'
      have hmem : y ∈ xs := hxs ▸ mem_append_right before (mem_cons_of_mem x hy)
      exact hclass.trans (hbest.of_exists ⟨y, hmem, hy'⟩)
    · exact hscore ▸ hafter y hy

theorem exists_isBest_scan_of_not_preferred (score : α → β) (hne : xs ≠ [])
    (h : ∀ x ∈ xs, preferred x = false) :
    ∃ r, scan preferred score xs = some r ∧ IsBest preferred score xs r := by
  have hsome : argmax score xs ≠ none := mt argmax_eq_none.1 hne
  obtain ⟨m, hm⟩ := Option.ne_none_iff_exists'.1 hsome
  have hmem := argmax_mem hm
  have hle : ∀ y ∈ xs, score y ≤ score m := fun y hy => le_of_mem_argmax hy hm
  obtain ⟨before, after, hxs⟩ := append_of_mem hmem
  refine exists_isBest_scan_iff.2 ⟨before, m, after, hxs, ⟨hmem, ?_, fun y hy _ => hle y hy⟩, ?_⟩
  · rintro ⟨x, hx, hpreferred⟩
    exact absurd hpreferred (Bool.eq_false_iff.1 (h x hx))
  · intro y hy
    exact hle y (hxs ▸ mem_append_right before (mem_cons_of_mem m hy))

end TKNC.Lib.PreferenceScan
