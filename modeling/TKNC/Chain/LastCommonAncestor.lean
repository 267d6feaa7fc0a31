import Mathlib.Data.Fin.VecNotation
import TKNC.Chain.SkipList

/-!
# LastCommonAncestor — the search for the fork of two chains in `chain.cpp`

The search first goes up to a common height, then jumps over skip pointers as long as they differ,
and takes one step to the parents before it jumps again.  A jump is safe because common ancestors
lie below any height at which the two chains differ; it is possible because equal heights have
equal skip heights, and blocks of height 0 do not differ.

The rounds are counted by fuel.  Every round goes to a lower height, so any fuel above the height
of the first block is enough.
-/

namespace TKNC.Chain

open Lib RootedTree

section Search

variable {Ptr : Type}

/-! ## The part of a tree that has its skip pointers -/

/-- The blocks in `built` have their skip pointers, and so have their ancestors. -/
structure Built (t : RootedTree Ptr) (built : List Ptr) (blocks : Blocks Ptr) : Prop where
  linked : Linked t blocks
  closed : ∀ p ∈ built, ∀ q, t.parent p = some q → q ∈ built
  pskip_ne_none : ∀ p ∈ built, t.parent p ≠ none → (blocks p).pskip ≠ none

variable {t : RootedTree Ptr} {built : List Ptr} {blocks : Blocks Ptr} {a b c : Ptr}

theorem Built.mem_of_isAncestor (hb : Built t built blocks) (ha : a ∈ built)
    (hc : t.IsAncestor c a) : c ∈ built :=
  hc.of_closed (S := (· ∈ built)) hb.closed ha

theorem Built.exists_pskip (hb : Built t built blocks) (ha : a ∈ built) (hpos : 0 < t.height a) :
    ∃ s, (blocks a).pskip = some s ∧ t.IsAncestor s a ∧
      t.height s = getSkipHeight (t.height a) := by
  obtain ⟨p, hparent⟩ := exists_parent hpos
  obtain ⟨s, hskip⟩ := Option.ne_none_iff_exists'.mp
    (hb.pskip_ne_none a ha (by rw [hparent]; exact Option.some_ne_none p))
  have hup := hb.linked.pskip hskip
  have hheight := height_of_up hup
  have hlt := getSkipHeight_lt hpos
  exact ⟨s, hskip, ⟨_, hup⟩, by omega⟩

theorem Linked.getAncestor_rewind (hl : Linked t blocks) (hlt : t.height b ≤ t.height a) :
    ∃ a', getAncestor blocks a (t.height b) = .ok (some a') ∧ t.IsAncestor a' a ∧
      t.height a' = t.height b := by
  obtain ⟨a', hup⟩ :=
    exists_up (t := t) (a := a) (n := t.height a - t.height b) (by omega)
  have hheight := height_of_up hup
  refine ⟨a', ?_, ⟨_, hup⟩, by omega⟩
  rw [hl.getAncestor_eq, blockAt, if_pos (by omega), Int.toNat_natCast, hup]

variable [DecidableEq Ptr]

def follow (blocks : Blocks Ptr) : Option Ptr → Except ChainFault (CBlockIndex Ptr)
  | none => .error .nullPointer
  | some p => .ok (blocks p)

def jumpLoop (blocks : Blocks Ptr) :
    Nat → Option Ptr → Option Ptr → Except ChainFault (Option Ptr × Option Ptr)
  | 0, _, _ => .error .outOfFuel
  | fuel + 1, pa, pb => do
      let a ← follow blocks pa
      let b ← follow blocks pb
      if a.pskip = b.pskip then return (pa, pb)
      else if a.nHeight ≠ b.nHeight then .error .assumption
      else do
        let skipA ← follow blocks a.pskip
        let skipB ← follow blocks b.pskip
        if skipA.nHeight ≠ skipB.nHeight then .error .assumption
        else jumpLoop blocks fuel a.pskip b.pskip

def forkLoop (blocks : Blocks Ptr) :
    Nat → Option Ptr → Option Ptr → Except ChainFault (Option Ptr)
  | 0, _, _ => .error .outOfFuel
  | fuel + 1, pa, pb =>
      if pa = pb then .ok pa
      else do
        let jumped ← jumpLoop blocks fuel pa pb
        let a ← follow blocks jumped.1
        let b ← follow blocks jumped.2
        forkLoop blocks fuel a.pprev b.pprev

def lastCommonAncestor (blocks : Blocks Ptr) (fuel : Nat) (pa pb : Ptr) :
    Except ChainFault (Option Ptr) :=
  if (blocks pa).nHeight > (blocks pb).nHeight then do
    let pa ← getAncestor blocks pa (blocks pb).nHeight
    forkLoop blocks fuel pa (some pb)
  else if (blocks pb).nHeight > (blocks pa).nHeight then do
    let pb ← getAncestor blocks pb (blocks pa).nHeight
    forkLoop blocks fuel (some pa) pb
  else forkLoop blocks fuel (some pa) (some pb)

/-! ## The loops -/

/-- The jumps end at blocks that still differ, and no common ancestor is lost on the way. -/
theorem Built.jumpLoop_eq (hb : Built t built blocks) (fuel : Nat) (ha : a ∈ built)
    (hb' : b ∈ built) (hheight : t.height a = t.height b) (hne : a ≠ b)
    (hfuel : t.height a ≤ fuel) :
    ∃ a' b', jumpLoop blocks fuel (some a) (some b) = .ok (some a', some b') ∧
      t.IsAncestor a' a ∧ t.IsAncestor b' b ∧ t.height a' = t.height b' ∧ a' ≠ b' := by
  have hpos := height_pos_of_ne hheight hne
  induction fuel generalizing a b with
  | zero => omega
  | succ fuel ih =>
    obtain ⟨sa, hskipA, hancA, hheightA⟩ := hb.exists_pskip ha hpos
    obtain ⟨sb, hskipB, hancB, hheightB⟩ := hb.exists_pskip hb' (hheight ▸ hpos)
    have hsame : t.height sa = t.height sb := by rw [hheightA, hheightB, hheight]
    by_cases hskip : sa = sb
    · refine ⟨a, b, ?_, isAncestor_refl a, isAncestor_refl b, hheight, hne⟩
      simp only [jumpLoop, follow, hskipA, hskipB, hskip, bind, Except.bind, if_true]
      rfl
    · have hlt := getSkipHeight_lt hpos
      obtain ⟨a', b', hjump, hanc, hanc', hheight', hne'⟩ :=
        ih (hb.mem_of_isAncestor ha hancA) (hb.mem_of_isAncestor hb' hancB) hsame hskip
          (by omega) (height_pos_of_ne hsame hskip)
      refine ⟨a', b', ?_, hanc.trans hancA, hanc'.trans hancB, hheight', hne'⟩
      simp only [jumpLoop, follow, hskipA, hskipB, hb.linked.nHeight, bind, Except.bind,
        Option.some.injEq, if_neg hskip, hheight, hsame, ne_eq, not_true_eq_false, if_false]
      exact hjump

theorem Built.forkLoop_eq (hb : Built t built blocks) (fuel : Nat) (ha : a ∈ built)
    (hb' : b ∈ built) (hheight : t.height a = t.height b) (hfuel : t.height a < fuel) :
    ∃ c, t.IsLastCommon c a b ∧ forkLoop blocks fuel (some a) (some b) = .ok (some c) := by
  induction fuel generalizing a b with
  | zero => omega
  | succ fuel ih =>
    by_cases hne : a = b
    · subst hne
      exact ⟨a, isLastCommon_self a, by rw [forkLoop, if_pos rfl]⟩
    · obtain ⟨a', b', hjump, hancA, hancB, hheight', hne'⟩ :=
        hb.jumpLoop_eq fuel ha hb' hheight hne (by omega)
      have hpos := height_pos_of_ne hheight' hne'
      obtain ⟨p, hp⟩ := exists_parent hpos
      obtain ⟨q, hq⟩ := exists_parent (hheight' ▸ hpos)
      have hheightP := t.height_child hp
      have hheightQ := t.height_child hq
      have hle := hancA.height_le
      have hmemA := hb.mem_of_isAncestor ha hancA
      have hmemB := hb.mem_of_isAncestor hb' hancB
      obtain ⟨c, hc, hfork⟩ := ih (hb.closed a' hmemA p hp) (hb.closed b' hmemB q hq)
        (by omega) (by omega)
      -- Neither the jumps nor the step to the parents change the common ancestors.
      have hcommon : ∀ d, t.IsCommon d a b ↔ t.IsCommon d p q := fun d =>
        (isCommon_iff_of_ne hancA hancB hheight' hne').trans
          (isCommon_iff_of_parents hheight' hne' hp hq)
      refine ⟨c, (RootedTree.IsLastCommon.congr hcommon).mpr hc, ?_⟩
      rw [forkLoop, if_neg (by rwa [Option.some.injEq]), hjump]
      simp only [follow, bind, Except.bind, hb.linked.pprev, hp, hq]
      exact hfork

theorem Linked.lastCommonAncestor_eq_forkLoop (hl : Linked t blocks) (a b : Ptr) :
    ∃ a' b', t.IsAncestor a' a ∧ t.IsAncestor b' b ∧ t.height a' = t.height b' ∧
      (∀ c, t.IsCommon c a b ↔ t.IsCommon c a' b') ∧
      ∀ fuel, lastCommonAncestor blocks fuel a b = forkLoop blocks fuel (some a') (some b') := by
  simp only [lastCommonAncestor, hl.nHeight]
  rcases Nat.lt_trichotomy (t.height a) (t.height b) with hlt | heq | hgt
  · obtain ⟨b', hwalk, hanc, hheight⟩ := hl.getAncestor_rewind (a := b) (b := a) hlt.le
    refine ⟨a, b', isAncestor_refl a, hanc, hheight.symm, fun c => ?_, fun fuel => ?_⟩
    · rw [isCommon_comm, isCommon_iff_of_rewind hanc hheight,
        isCommon_comm]
    · rw [if_neg (by omega), if_pos hlt, hwalk]
      rfl
  · refine ⟨a, b, isAncestor_refl a, isAncestor_refl b, heq,
      fun c => Iff.rfl, fun fuel => ?_⟩
    rw [if_neg (by omega), if_neg (by omega)]
  · obtain ⟨a', hwalk, hanc, hheight⟩ := hl.getAncestor_rewind (a := a) (b := b) hgt.le
    refine ⟨a', b, hanc, isAncestor_refl b, hheight, fun c => ?_, fun fuel => ?_⟩
    · exact isCommon_iff_of_rewind hanc hheight
    · rw [if_pos hgt, hwalk]
      rfl

theorem Built.lastCommonAncestor_eq (hb : Built t built blocks) (ha : a ∈ built)
    (hb' : b ∈ built) :
    ∃ c, t.IsLastCommon c a b ∧
      ∀ fuel, t.height a < fuel → lastCommonAncestor blocks fuel a b = .ok (some c) := by
  obtain ⟨a', b', hancA, hancB, hheight, hcommon, hsearch⟩ :=
    hb.linked.lastCommonAncestor_eq_forkLoop a b
  have hfork := fun fuel => hb.forkLoop_eq fuel (hb.mem_of_isAncestor ha hancA)
    (hb.mem_of_isAncestor hb' hancB) hheight
  have hle := hancA.height_le
  obtain ⟨c, hc, -⟩ := hfork (t.height a' + 1) (Nat.lt_succ_self _)
  refine ⟨c, (RootedTree.IsLastCommon.congr hcommon).mpr hc, fun fuel hfuel => ?_⟩
  -- The result does not depend on the fuel, as there is one last common ancestor.
  obtain ⟨d, hd, hrun⟩ := hfork fuel (by omega)
  rw [hsearch, hrun, hd.unique hc]

/-- In a tree whose blocks all had `BuildSkip` called, the search finds the fork. -/
theorem lastCommonAncestor_isLastCommon (t : RootedTree Ptr) (calls : List Ptr)
    (hclosed : ∀ p ∈ calls, ∀ q, t.parent p = some q → q ∈ calls) :
    ∃ blocks, calls.foldlM buildSkip (unlinked t) = .ok blocks ∧
      ∀ pa ∈ calls, ∀ pb ∈ calls, ∃ c, t.IsLastCommon c pa pb ∧
        ∀ fuel, t.height pa < fuel → lastCommonAncestor blocks fuel pa pb = .ok (some c) := by
  obtain ⟨blocks, hrun, hl, -, hset⟩ := (linked_unlinked t).buildSkips calls
  have hb : Built t calls blocks := ⟨hl, hclosed, hset⟩
  exact ⟨blocks, hrun, fun pa ha pb hb' => hb.lastCommonAncestor_eq ha hb'⟩

end Search

def forked : RootedTree (Fin 4) where
  parent := ![none, some 0, some 1, some 1]
  height := ![0, 1, 2, 2]
  height_root := by decide
  height_child := by decide
  root_unique := by decide

theorem lastCommonAncestor_of_forked :
    ∃ blocks, [0, 1, 2, 3].foldlM buildSkip (unlinked forked) = .ok blocks ∧
      ∀ pa ∈ [0, 1, 2, 3], ∀ pb ∈ [0, 1, 2, 3], ∃ c, forked.IsLastCommon c pa pb ∧
        ∀ fuel, forked.height pa < fuel →
          lastCommonAncestor blocks fuel pa pb = .ok (some c) :=
  lastCommonAncestor_isLastCommon forked [0, 1, 2, 3] (by decide)

end TKNC.Chain
