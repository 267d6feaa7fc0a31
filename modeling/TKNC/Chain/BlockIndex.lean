import Mathlib.Data.List.GetD
import Mathlib.Data.List.Sort
import Mathlib.Tactic.Ring

/-!
# BlockIndex — a block with the chain below it

A `CBlockIndex` is reached through `pprev` down to the genesis block.  `BlockIndex` is that chain as
an inductive type, so a height always is one more than the parent's and every walk along `pprev`
ends.  Timestamps and `nBits` are arbitrary 32-bit words.
-/

namespace TKNC.Chain

structure CBlockHeader where
  nVersion : BitVec 32
  nTime : BitVec 32
  nBits : BitVec 32
  deriving DecidableEq, Repr

def CBlockHeader.getBlockTime (block : CBlockHeader) : Int :=
  block.nTime.toNat

inductive BlockIndex where
  | genesis (nTime nBits : BitVec 32)
  | child (pprev : BlockIndex) (nTime nBits : BitVec 32)
  deriving DecidableEq, Repr

namespace BlockIndex

def pprev : BlockIndex → Option BlockIndex
  | genesis _ _ => none
  | child p _ _ => some p

def nTime : BlockIndex → BitVec 32
  | genesis t _ => t
  | child _ t _ => t

def nBits : BlockIndex → BitVec 32
  | genesis _ b => b
  | child _ _ b => b

def nHeight : BlockIndex → Nat
  | genesis _ _ => 0
  | child p _ _ => nHeight p + 1

def getBlockTime (b : BlockIndex) : Int :=
  b.nTime.toNat

theorem getBlockTime_nonneg (b : BlockIndex) : 0 ≤ b.getBlockTime :=
  Int.natCast_nonneg _

theorem getBlockTime_lt (b : BlockIndex) : b.getBlockTime < 2 ^ 32 := by
  have hlt := b.nTime.isLt
  unfold getBlockTime
  omega

/-- The ancestor `n` blocks below, or the genesis block when the chain is shorter. -/
def back : Nat → BlockIndex → BlockIndex
  | 0, b => b
  | _ + 1, b@(genesis _ _) => b
  | n + 1, child p _ _ => back n p

/-! ## Median time past -/

/-- Block times from `b` downwards, at most `n` of them: the loop that fills `pmedian`. -/
def timesBack : Nat → BlockIndex → List Int
  | 0, _ => []
  | _ + 1, b@(genesis _ _) => [b.getBlockTime]
  | n + 1, b@(child p _ _) => b.getBlockTime :: timesBack n p

def nMedianTimeSpan : Nat := 11

def getMedianTimePast (b : BlockIndex) : Int :=
  let pmedian := (timesBack nMedianTimeSpan b).insertionSort (· ≤ ·)
  pmedian.getD (pmedian.length / 2) 0

theorem mem_timesBack_bounds {n : Nat} {b : BlockIndex} {t : Int} :
    t ∈ timesBack n b → 0 ≤ t ∧ t < 2 ^ 32 := by
  induction b generalizing n with
  | genesis nTime nBits =>
    intro hmem
    cases n with
    | zero => cases hmem
    | succ n =>
      have ht : t = getBlockTime (genesis nTime nBits) := by
        simpa [timesBack] using hmem
      exact ht ▸ ⟨getBlockTime_nonneg _, getBlockTime_lt _⟩
  | child p nTime nBits ih =>
    intro hmem
    cases n with
    | zero => cases hmem
    | succ n =>
      rcases List.mem_cons.1 hmem with ht | hrest
      · exact ht ▸ ⟨getBlockTime_nonneg _, getBlockTime_lt _⟩
      · exact ih hrest

theorem timesBack_ne_nil (n : Nat) (b : BlockIndex) : timesBack (n + 1) b ≠ [] := by
  cases b <;> simp [timesBack]

theorem getMedianTimePast_mem (b : BlockIndex) :
    b.getMedianTimePast ∈ timesBack nMedianTimeSpan b := by
  have hlen : 0 < (timesBack nMedianTimeSpan b).length :=
    List.length_pos_of_ne_nil (timesBack_ne_nil 10 b)
  have hsorted : ((timesBack nMedianTimeSpan b).insertionSort (· ≤ ·)).length =
      (timesBack nMedianTimeSpan b).length :=
    List.length_insertionSort _ _
  -- the middle index lies inside a list that is not empty
  have hindex : ((timesBack nMedianTimeSpan b).insertionSort (· ≤ ·)).length / 2 <
      ((timesBack nMedianTimeSpan b).insertionSort (· ≤ ·)).length := by
    omega
  rw [getMedianTimePast, List.getD_eq_getElem _ _ hindex]
  exact (List.perm_insertionSort (· ≤ ·) _).mem_iff.1 (List.getElem_mem hindex)

theorem getMedianTimePast_bounds (b : BlockIndex) :
    0 ≤ b.getMedianTimePast ∧ b.getMedianTimePast < 2 ^ 32 :=
  mem_timesBack_bounds b.getMedianTimePast_mem

/-- The same chain with other timestamps: `τ i` for the block `i` steps below the tip. -/
def retime (τ : Nat → BitVec 32) : BlockIndex → BlockIndex
  | genesis _ b => genesis (τ 0) b
  | child p _ b => child (retime (fun i => τ (i + 1)) p) (τ 0) b

@[simp] theorem nTime_retime (τ : Nat → BitVec 32) (b : BlockIndex) :
    (b.retime τ).nTime = τ 0 := by
  cases b <;> rfl

@[simp] theorem nBits_retime (τ : Nat → BitVec 32) (b : BlockIndex) :
    (b.retime τ).nBits = b.nBits := by
  cases b <;> rfl

@[simp] theorem nHeight_retime (τ : Nat → BitVec 32) (b : BlockIndex) :
    (b.retime τ).nHeight = b.nHeight := by
  induction b generalizing τ with
  | genesis nTime nBits => rfl
  | child p nTime nBits ih => simp [retime, nHeight, ih]

theorem nTime_back_retime (n : Nat) (τ : Nat → BitVec 32) (b : BlockIndex) :
    (back n (b.retime τ)).nTime = τ (min n b.nHeight) := by
  -- walking down one block shifts the indices by one
  induction b generalizing n τ with
  | genesis nTime nBits => cases n <;> simp [back, retime, BlockIndex.nTime, nHeight]
  | child p nTime nBits ih =>
    cases n with
    | zero => simp [back]
    | succ n => simpa [back, retime, nHeight] using ih n (fun i => τ (i + 1))

end BlockIndex

end TKNC.Chain
