import Mathlib.Data.Option.Basic
import Mathlib.Order.Basic

/-!
# RootedTree — parents, heights and common ancestors

A tree by the parent of every node, with heights that count from the root.  A node is an ancestor
of itself.  The ancestors of a node have different heights, so an ancestor is determined by its
height (`IsAncestor.eq_of_height`), and the lower one of two ancestors is an ancestor of the other
(`IsAncestor.of_height_le`).

Two nodes with different ancestors at some height have all their common ancestors below that height
(`isCommon_iff_of_ne`): a search for the last common ancestor may go on from there.
-/

namespace TKNC.Lib

open Option

structure RootedTree (α : Type*) where
  parent : α → Option α
  height : α → Nat
  height_root : ∀ {a}, parent a = none → height a = 0
  height_child : ∀ {a p}, parent a = some p → height a = height p + 1
  root_unique : ∀ {a b}, parent a = none → parent b = none → a = b

namespace RootedTree

variable {α : Type*} (t : RootedTree α)

/-- The node `n` steps up, if there are as many. -/
def up : Nat → α → Option α
  | 0, a => some a
  | n + 1, a => (t.parent a).bind (up n)

def IsAncestor (c a : α) : Prop :=
  ∃ n, t.up n a = some c

def IsCommon (c a b : α) : Prop :=
  t.IsAncestor c a ∧ t.IsAncestor c b

/-- The common ancestor of greatest height. -/
def IsLastCommon (c a b : α) : Prop :=
  t.IsCommon c a b ∧ ∀ d, t.IsCommon d a b → t.height d ≤ t.height c

variable {t} {a b c d p : α} {m n : Nat}

/-! ## Steps -/

theorem exists_parent (h : 0 < t.height a) : ∃ p, t.parent a = some p := by
  cases hparent : t.parent a with
  | none => exact absurd (t.height_root hparent) (Nat.pos_iff_ne_zero.mp h)
  | some p => exact ⟨p, rfl⟩

theorem eq_of_height_zero (ha : t.height a = 0) (hb : t.height b = 0) : a = b := by
  have hroot : ∀ {x}, t.height x = 0 → t.parent x = none := by
    intro x hx
    cases hparent : t.parent x with
    | none => rfl
    | some p => exact absurd (t.height_child hparent) (by omega)
  exact t.root_unique (hroot ha) (hroot hb)

theorem height_pos_of_ne (hheight : t.height a = t.height b) (hne : a ≠ b) : 0 < t.height a := by
  by_contra hzero
  have ha : t.height a = 0 := by omega
  exact hne (eq_of_height_zero ha (hheight ▸ ha))

theorem up_succ (h : t.parent a = some p) (n : Nat) : t.up (n + 1) a = t.up n p := by
  rw [up, h, bind_some]

theorem up_add (m n : Nat) (a : α) : t.up (m + n) a = (t.up m a).bind (t.up n) := by
  induction m generalizing a with
  | zero => rw [Nat.zero_add, up, bind_some]
  | succ m ih =>
    cases hparent : t.parent a with
    | none =>
      rw [Nat.add_right_comm, up, up, hparent, bind_none, bind_none,
        bind_none]
    | some p => rw [Nat.add_right_comm, up_succ hparent, up_succ hparent, ih]

theorem height_of_up (h : t.up n a = some c) : t.height c + n = t.height a := by
  induction n generalizing a with
  | zero =>
    cases h
    rfl
  | succ n ih =>
    cases hparent : t.parent a with
    | none =>
      rw [up, hparent] at h
      cases h
    | some p =>
      rw [up_succ hparent] at h
      rw [t.height_child hparent, ← ih h, Nat.add_assoc]

theorem exists_up (h : n ≤ t.height a) : ∃ c, t.up n a = some c := by
  induction n generalizing a with
  | zero => exact ⟨a, rfl⟩
  | succ n ih =>
    obtain ⟨p, hparent⟩ := exists_parent (show 0 < t.height a by omega)
    have hheight := t.height_child hparent
    rw [up_succ hparent]
    exact ih (by omega)

theorem isAncestor_refl (a : α) : t.IsAncestor a a :=
  ⟨0, rfl⟩

theorem isAncestor_parent (h : t.parent a = some p) : t.IsAncestor p a :=
  ⟨1, up_succ h 0⟩

theorem IsAncestor.trans (hcb : t.IsAncestor c b) (hba : t.IsAncestor b a) : t.IsAncestor c a := by
  obtain ⟨n, hn⟩ := hcb
  obtain ⟨m, hm⟩ := hba
  exact ⟨m + n, by rw [up_add, hm, bind_some, hn]⟩

theorem IsAncestor.height_le (h : t.IsAncestor c a) : t.height c ≤ t.height a := by
  obtain ⟨n, hn⟩ := h
  have hheight := height_of_up hn
  omega

theorem IsAncestor.up_eq (h : t.IsAncestor c a) : t.up (t.height a - t.height c) a = some c := by
  obtain ⟨n, hn⟩ := h
  have hheight := height_of_up hn
  rw [show t.height a - t.height c = n by omega, hn]

theorem IsAncestor.of_height_le (hc : t.IsAncestor c a) (hd : t.IsAncestor d a)
    (hle : t.height c ≤ t.height d) : t.IsAncestor c d := by
  have hdle := hd.height_le
  have hsplit : t.height a - t.height c =
      (t.height a - t.height d) + (t.height d - t.height c) := by
    omega
  have hup := hc.up_eq
  rw [hsplit, up_add, hd.up_eq, bind_some] at hup
  exact ⟨_, hup⟩

theorem IsAncestor.eq_of_height (hc : t.IsAncestor c a) (heq : t.height c = t.height a) :
    c = a := by
  have hup := hc.up_eq
  rw [heq, Nat.sub_self, up, some.injEq] at hup
  exact hup.symm

theorem IsAncestor.of_closed {S : α → Prop} (hclosed : ∀ x, S x → ∀ y, t.parent x = some y → S y)
    (hc : t.IsAncestor c a) (ha : S a) : S c := by
  obtain ⟨n, hn⟩ := hc
  induction n generalizing a with
  | zero =>
    cases hn
    exact ha
  | succ n ih =>
    cases hparent : t.parent a with
    | none =>
      rw [up, hparent] at hn
      cases hn
    | some p =>
      rw [up_succ hparent] at hn
      exact ih (hclosed a ha p hparent) hn

/-! ## Common ancestors -/

variable {a' b' : α}

theorem IsCommon.trans (hc : t.IsCommon c a b) (ha : t.IsAncestor a a') (hb : t.IsAncestor b b') :
    t.IsCommon c a' b' :=
  ⟨hc.1.trans ha, hc.2.trans hb⟩

theorem isLastCommon_self (a : α) : t.IsLastCommon a a a :=
  ⟨⟨isAncestor_refl a, isAncestor_refl a⟩, fun _ hd => hd.1.height_le⟩

theorem IsLastCommon.congr (h : ∀ c, t.IsCommon c a b ↔ t.IsCommon c a' b') :
    t.IsLastCommon c a b ↔ t.IsLastCommon c a' b' := by
  unfold IsLastCommon
  rw [h c]
  exact and_congr_right fun _ => forall_congr' fun d => by rw [h d]

theorem isCommon_comm : t.IsCommon c a b ↔ t.IsCommon c b a :=
  and_comm

theorem IsLastCommon.unique (hc : t.IsLastCommon c a b) (hd : t.IsLastCommon d a b) : c = d := by
  have hheight : t.height c = t.height d := Nat.le_antisymm (hd.2 c hc.1) (hc.2 d hd.1)
  exact (hc.1.1.of_height_le hd.1.1 (Nat.le_of_eq hheight)).eq_of_height hheight

theorem isCommon_iff_of_rewind {a' : α} (ha : t.IsAncestor a' a)
    (hheight : t.height a' = t.height b) :
    t.IsCommon c a b ↔ t.IsCommon c a' b := by
  constructor
  · intro hc
    exact ⟨hc.1.of_height_le ha (hheight ▸ hc.2.height_le), hc.2⟩
  · exact fun hc => hc.trans ha (isAncestor_refl b)

/-- Above ancestors that differ there is no common ancestor. -/
theorem IsCommon.height_lt (hc : t.IsCommon c a b) (ha : t.IsAncestor a' a) (hb : t.IsAncestor b' b)
    (hheight : t.height a' = t.height b') (hne : a' ≠ b') :
    t.height c < t.height a' := by
  by_contra hge
  have hca : t.IsAncestor a' c := ha.of_height_le hc.1 (by omega)
  have hcb : t.IsAncestor b' c := hb.of_height_le hc.2 (by omega)
  exact hne ((hca.of_height_le hcb (Nat.le_of_eq hheight)).eq_of_height hheight)

/-- Nothing is lost by going up to ancestors that differ. -/
theorem isCommon_iff_of_ne (ha : t.IsAncestor a' a) (hb : t.IsAncestor b' b)
    (hheight : t.height a' = t.height b') (hne : a' ≠ b') :
    t.IsCommon c a b ↔ t.IsCommon c a' b' := by
  constructor
  · intro hc
    have hlt := hc.height_lt ha hb hheight hne
    exact ⟨hc.1.of_height_le ha (by omega), hc.2.of_height_le hb (by omega)⟩
  · exact fun hc => hc.trans ha hb

theorem isCommon_iff_of_parents {q : α} (hheight : t.height a = t.height b) (hne : a ≠ b)
    (ha : t.parent a = some p) (hb : t.parent b = some q) :
    t.IsCommon c a b ↔ t.IsCommon c p q := by
  have hp := t.height_child ha
  have hq := t.height_child hb
  constructor
  · intro hc
    have hlt := hc.height_lt (isAncestor_refl a) (isAncestor_refl b) hheight hne
    exact ⟨hc.1.of_height_le (isAncestor_parent ha) (by omega),
      hc.2.of_height_le (isAncestor_parent hb) (by omega)⟩
  · exact fun hc => hc.trans (isAncestor_parent ha) (isAncestor_parent hb)

end RootedTree
end TKNC.Lib
