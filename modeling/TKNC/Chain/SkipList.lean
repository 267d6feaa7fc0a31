import Mathlib.Logic.Function.Basic
import TKNC.Lib.Fallible
import TKNC.Lib.RootedTree

/-!
# SkipList — `GetSkipHeight`, `GetAncestor` and `BuildSkip` of `chain.cpp`

The block index entries are a memory of `CBlockIndex` records that refer to each other by pointers.
A block tree says what the records are for: `pprev` is the parent and `nHeight` the height.
`BuildSkip` fills in one `pskip`, by a walk that itself follows the skip pointers there are.

`Linked` is the invariant of the memory: each skip pointer is null or leads to the ancestor at the
skip height of its block.  The walk is right in every linked memory (`getAncestor_eq`), hence
`BuildSkip` keeps it linked (`buildSkip_linked`), whatever the order of the calls.
-/

namespace TKNC.Chain

open Lib RootedTree Function

structure CBlockIndex (Ptr : Type) where
  pprev : Option Ptr
  pskip : Option Ptr
  nHeight : Nat

abbrev Blocks (Ptr : Type) :=
  Ptr → CBlockIndex Ptr

inductive ChainFault where
  | assertion
  | assumption
  | nullPointer
  | outOfFuel
  deriving DecidableEq, Repr

def invertLowestOne (n : Nat) : Nat :=
  n &&& (n - 1)

def getSkipHeight (height : Nat) : Nat :=
  if height < 2 then 0
  else if height &&& 1 ≠ 0 then invertLowestOne (invertLowestOne (height - 1)) + 1
  else invertLowestOne height

theorem invertLowestOne_le (n : Nat) : invertLowestOne n ≤ n - 1 :=
  Nat.and_le_right

theorem getSkipHeight_lt {height : Nat} (h : 0 < height) : getSkipHeight height < height := by
  unfold getSkipHeight
  have hinner := invertLowestOne_le (height - 1)
  have houter := invertLowestOne_le (invertLowestOne (height - 1))
  have heven := invertLowestOne_le height
  split_ifs <;> omega

section Memory

variable {Ptr : Type}

/-- The test on the two skip heights: `pskip` is followed unless `pprev->pskip` is better. -/
def followsSkip (height heightWalk : Nat) : Bool :=
  let heightSkip := getSkipHeight heightWalk
  let heightSkipPrev := getSkipHeight (heightWalk - 1)
  heightSkip == height ||
    (decide (heightSkip > height) &&
      !(decide (heightSkipPrev + 2 < heightSkip) && decide (heightSkipPrev ≥ height)))

def ancestorLoop (blocks : Blocks Ptr) (height : Nat) (pindexWalk : Ptr) (heightWalk : Nat) :
    Except ChainFault Ptr :=
  if heightWalk > height then
    match (blocks pindexWalk).pskip, followsSkip height heightWalk with
    | some pskip, true => ancestorLoop blocks height pskip (getSkipHeight heightWalk)
    | _, _ =>
        match (blocks pindexWalk).pprev with
        | none => .error .assertion
        | some pprev => ancestorLoop blocks height pprev (heightWalk - 1)
  else .ok pindexWalk
termination_by heightWalk
decreasing_by
  · exact getSkipHeight_lt (by omega)
  · omega

def getAncestor (blocks : Blocks Ptr) (this : Ptr) (height : Int) :
    Except ChainFault (Option Ptr) :=
  if height > (blocks this).nHeight ∨ height < 0 then .ok none
  else (ancestorLoop blocks height.toNat this (blocks this).nHeight).map some

def buildSkip [DecidableEq Ptr] (blocks : Blocks Ptr) (this : Ptr) :
    Except ChainFault (Blocks Ptr) :=
  match (blocks this).pprev with
  | none => .ok blocks
  | some pprev => do
      let pskip ← getAncestor blocks pprev (getSkipHeight (blocks this).nHeight)
      return Function.update blocks this { blocks this with pskip := pskip }

/-! ## The memory of a tree -/

def unlinked (t : RootedTree Ptr) : Blocks Ptr :=
  fun p => { pprev := t.parent p, pskip := none, nHeight := t.height p }

structure Linked (t : RootedTree Ptr) (blocks : Blocks Ptr) : Prop where
  pprev : ∀ p, (blocks p).pprev = t.parent p
  nHeight : ∀ p, (blocks p).nHeight = t.height p
  pskip : ∀ {p s}, (blocks p).pskip = some s →
    t.up (t.height p - getSkipHeight (t.height p)) p = some s

variable {t : RootedTree Ptr} {blocks : Blocks Ptr}

theorem linked_unlinked (t : RootedTree Ptr) : Linked t (unlinked t) where
  pprev _ := rfl
  nHeight _ := rfl
  pskip h := nomatch h

theorem followsSkip_le {height heightWalk : Nat} (h : followsSkip height heightWalk = true) :
    height ≤ getSkipHeight heightWalk := by
  simp only [followsSkip, Bool.or_eq_true, beq_iff_eq, Bool.and_eq_true, decide_eq_true_eq] at h
  omega

/-- A walk that goes on from an ancestor above the height ends where the direct one does. -/
theorem up_of_step {p q : Ptr} {height k : Nat} (hup : t.up k p = some q)
    (hle : height ≤ t.height q) :
    t.up (t.height p - height) p = t.up (t.height q - height) q := by
  have hheight := height_of_up hup
  rw [show t.height p - height = k + (t.height q - height) by omega, up_add, hup,
    Option.bind_some]

theorem Linked.ancestorLoop_eq (hl : Linked t blocks) (height : Nat) (p : Ptr)
    (hle : height ≤ t.height p) :
    ∃ c, t.up (t.height p - height) p = some c ∧
      ancestorLoop blocks height p (t.height p) = .ok c := by
  -- Both kinds of step go to a lower block that is still at or above the height.
  induction hn : t.height p using Nat.strongRecOn generalizing p with
  | ind n ih =>
    subst hn
    rw [ancestorLoop]
    by_cases hgt : t.height p > height
    · rw [if_pos hgt]
      split
      · next s hskip hfollows =>
          have hup := hl.pskip hskip
          have hlt := getSkipHeight_lt (show 0 < t.height p by omega)
          have hheight : t.height s = getSkipHeight (t.height p) := by
            have hsum := height_of_up hup
            omega
          have hles : height ≤ t.height s := hheight ▸ followsSkip_le hfollows
          rw [up_of_step hup hles, ← hheight]
          exact ih (t.height s) (hheight ▸ hlt) s hles rfl
      · obtain ⟨q, hparent⟩ := exists_parent (show 0 < t.height p by omega)
        have hheight := t.height_child hparent
        rw [hl.pprev, hparent]
        have hleq : height ≤ t.height q := by omega
        rw [up_of_step (up_succ hparent 0) hleq,
          show t.height p - 1 = t.height q by omega]
        exact ih (t.height q) (by omega) q hleq rfl
    · rw [if_neg hgt, show t.height p - height = 0 by omega]
      exact ⟨p, rfl, rfl⟩

def blockAt (t : RootedTree Ptr) (p : Ptr) (height : Int) : Option Ptr :=
  if 0 ≤ height ∧ height ≤ t.height p then t.up (t.height p - height.toNat) p else none

theorem Linked.getAncestor_eq (hl : Linked t blocks) (p : Ptr) (height : Int) :
    getAncestor blocks p height = .ok (blockAt t p height) := by
  unfold getAncestor blockAt
  rw [hl.nHeight]
  by_cases hrange : 0 ≤ height ∧ height ≤ t.height p
  · obtain ⟨c, hup, hloop⟩ := hl.ancestorLoop_eq height.toNat p (by omega)
    rw [if_neg (by omega), if_pos hrange, hloop, hup]
    rfl
  · rw [if_pos (by omega), if_neg hrange]

/-! ## Runs of `BuildSkip` -/

variable [DecidableEq Ptr]

theorem Linked.update (hl : Linked t blocks) {p s : Ptr}
    (hup : t.up (t.height p - getSkipHeight (t.height p)) p = some s) :
    Linked t (update blocks p { blocks p with pskip := some s }) := by
  refine ⟨fun r => ?_, fun r => ?_, fun {r s'} hskip => ?_⟩
  · rw [← hl.pprev, apply_update (fun _ => CBlockIndex.pprev)]
    exact congrFun (update_eq_self p _) r
  · rw [← hl.nHeight, apply_update (fun _ => CBlockIndex.nHeight)]
    exact congrFun (update_eq_self p _) r
  · by_cases hr : r = p
    · rw [hr, update_self, Option.some.injEq] at hskip
      rw [hr, hup, hskip]
    · rw [update_of_ne hr] at hskip
      exact hl.pskip hskip

theorem Linked.buildSkip_eq (hl : Linked t blocks) (p : Ptr) :
    ∃ blocks', buildSkip blocks p = .ok blocks' ∧ Linked t blocks' ∧
      (∀ q, (blocks q).pskip ≠ none → (blocks' q).pskip ≠ none) ∧
      (t.parent p ≠ none → (blocks' p).pskip ≠ none) := by
  unfold buildSkip
  rw [hl.pprev]
  cases hparent : t.parent p with
  | none => exact ⟨blocks, rfl, hl, fun _ h => h, fun h => absurd rfl h⟩
  | some q =>
    have hheight := t.height_child hparent
    have hlt := getSkipHeight_lt (show 0 < t.height p by omega)
    obtain ⟨s, hs⟩ := exists_up
      (t := t) (a := q) (n := t.height q - getSkipHeight (t.height p)) (by omega)
    have hat : blockAt t q (getSkipHeight (t.height p)) = some s := by
      rw [blockAt, if_pos (by omega), Int.toNat_natCast, hs]
    have hup : t.up (t.height p - getSkipHeight (t.height p)) p = some s := by
      rw [up_of_step (up_succ hparent 0) (by omega), hs]
    refine ⟨_, ?_, hl.update hup, fun r hskip => ?_, fun _ => ?_⟩
    · simp only [hl.nHeight, hl.getAncestor_eq, hat]
      rfl
    · by_cases hr : r = p
      · rw [hr, update_self]
        exact Option.some_ne_none s
      · rwa [update_of_ne hr]
    · rw [update_self]
      exact Option.some_ne_none s

theorem Linked.buildSkips (hl : Linked t blocks) (calls : List Ptr) :
    ∃ blocks', calls.foldlM buildSkip blocks = .ok blocks' ∧ Linked t blocks' ∧
      (∀ q, (blocks q).pskip ≠ none → (blocks' q).pskip ≠ none) ∧
      ∀ p ∈ calls, t.parent p ≠ none → (blocks' p).pskip ≠ none := by
  induction calls generalizing blocks with
  | nil => exact ⟨blocks, rfl, hl, fun _ h => h, fun _ h => absurd h List.not_mem_nil⟩
  | cons p calls ih =>
    obtain ⟨next, hstep, hnext, hkeeps, hset⟩ := hl.buildSkip_eq p
    obtain ⟨last, hrun, hlast, hkeeps', hset'⟩ := ih hnext
    refine ⟨last, ?_, hlast, fun q hq => hkeeps' q (hkeeps q hq), ?_⟩
    · rw [List.foldlM_cons, hstep]
      exact hrun
    · intro q hq hparent
      rcases List.mem_cons.mp hq with rfl | hq
      · exact hkeeps' q (hset hparent)
      · exact hset' q hq hparent

/-- Any calls of `BuildSkip` end, and every walk after them returns the block at the height. -/
theorem getAncestor_after_buildSkips (t : RootedTree Ptr) (calls : List Ptr) :
    ∃ blocks, calls.foldlM buildSkip (unlinked t) = .ok blocks ∧
      ∀ (b : Ptr) (height : Int), getAncestor blocks b height = .ok (blockAt t b height) := by
  obtain ⟨blocks, hrun, hl, -, -⟩ := (linked_unlinked t).buildSkips calls
  exact ⟨blocks, hrun, hl.getAncestor_eq⟩

end Memory

end TKNC.Chain
