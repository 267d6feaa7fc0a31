import Mathlib.Data.List.Basic
import Mathlib.Data.List.Infix

/-!
# HashChain — linked items and their stripped form

An item names the hash of its predecessor.  A chain can be stored without these hashes: each of them
is the hash of the item before, so the items can be rebuilt in order from the first hash on.
-/

namespace TKNC.Lib.HashChain

/-- Items with a hash, a link to their predecessor, and a stripped form that lacks the link. -/
structure Link (α β κ : Type*) where
  hash : α → κ
  prev : α → κ
  strip : α → β
  attach : κ → β → α
  attach_strip : ∀ a, attach (prev a) (strip a) = a

variable {α β κ : Type*} (link : Link α β κ)

/-- Every item links to the one before it, and the first to `start`. -/
def ChainFrom : κ → List α → Prop
  | _, [] => True
  | start, a :: l => link.prev a = start ∧ ChainFrom (link.hash a) l

def lastHash : κ → List α → κ
  | start, [] => start
  | _, a :: l => lastHash (link.hash a) l

def rebuild : κ → List β → List α
  | _, [] => []
  | start, b :: l => link.attach start b :: rebuild (link.hash (link.attach start b)) l

variable {link}

theorem lastHash_append (start : κ) (l l' : List α) :
    lastHash link start (l ++ l') = lastHash link (lastHash link start l) l' := by
  induction l generalizing start with
  | nil => rfl
  | cons a l ih => exact ih (link.hash a)

variable {start : κ}

theorem chainFrom_append {l l' : List α} :
    ChainFrom link start (l ++ l') ↔
      ChainFrom link start l ∧ ChainFrom link (lastHash link start l) l' := by
  induction l generalizing start with
  | nil => simp [ChainFrom, lastHash]
  | cons a l ih => simp only [List.cons_append, ChainFrom, lastHash, ih, and_assoc]

theorem ChainFrom.of_isPrefix {l l' : List α} (h : ChainFrom link start l') (hfront : l <+: l') :
    ChainFrom link start l := by
  rcases hfront with ⟨rest, rfl⟩
  exact (chainFrom_append.1 h).1

theorem chainFrom_concat {l : List α} {a : α} :
    ChainFrom link start (l ++ [a]) ↔
      ChainFrom link start l ∧ link.prev a = lastHash link start l := by
  simp [chainFrom_append, ChainFrom]

@[simp] theorem lastHash_concat (start : κ) (l : List α) (a : α) :
    lastHash link start (l ++ [a]) = link.hash a := by
  rw [lastHash_append]
  rfl

theorem rebuild_strip {l : List α} (h : ChainFrom link start l) :
    rebuild link start (l.map link.strip) = l := by
  induction l generalizing start with
  | nil => rfl
  | cons a l ih =>
    have hitem : link.attach start (link.strip a) = a := by
      rw [← h.1]
      exact link.attach_strip a
    rw [List.map_cons, rebuild, hitem, ih h.2]

end TKNC.Lib.HashChain
