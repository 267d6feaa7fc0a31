import Mathlib.Data.List.Pairwise
import Mathlib.Data.Nat.Bitwise
import TKNC.Lib.Numeral

/-!
# XorMetric — byte strings as numbers, and the distance by exclusive or

Strings of one length are ordered like the numbers that they write in base 256, most significant
byte first; the exclusive or of two strings writes the exclusive or of their numbers.  `StdSort` is
any sorting function, and `take_smallest` says what the front of a sorted list is.
-/

namespace TKNC.Lib.XorMetric

open Numeral List Nat

/-! ## Numbers in base 256 -/

def beValue : Bytes → Nat
  | [] => 0
  | b :: bs => 2 ^ (8 * bs.length) * b.toNat + beValue bs

theorem beValue_lt (bs : Bytes) : beValue bs < 2 ^ (8 * bs.length) := by
  induction bs with
  | nil => decide
  | cons b bs ih =>
    calc
      beValue (b :: bs) < 2 ^ (8 * bs.length) * b.toNat + 2 ^ (8 * bs.length) :=
        Nat.add_lt_add_left ih _
      _ = 2 ^ (8 * bs.length) * (b.toNat + 1) := by rw [Nat.mul_succ]
      _ ≤ 2 ^ (8 * bs.length) * 2 ^ 8 := Nat.mul_le_mul_left _ b.toNat_lt
      _ = 2 ^ (8 * (b :: bs).length) := by rw [← Nat.pow_add, length_cons, Nat.mul_succ]

theorem lt_iff_beValue_lt {a b : Bytes} (h : a.length = b.length) :
    a < b ↔ beValue a < beValue b := by
  induction a generalizing b with
  | nil =>
    rw [length_eq_zero_iff.1 h.symm]
    exact iff_of_false (not_lt_nil _) (lt_irrefl _)
  | cons x a ih =>
    cases b with
    | nil => cases h
    | cons y b =>
      have hlength : a.length = b.length := succ.inj h
      have ha := beValue_lt a
      have hb := beValue_lt b
      rw [cons_lt_cons_iff, ih hlength, beValue, beValue, hlength, UInt8.lt_iff_toNat_lt,
        ← UInt8.toNat_inj]
      rw [hlength] at ha
      -- the first byte decides, and the rest only between equal ones
      rcases lt_trichotomy x.toNat y.toNat with hlt | heq | hgt
      · have hstep : 2 ^ (8 * b.length) * (x.toNat + 1) ≤ 2 ^ (8 * b.length) * y.toNat :=
          mul_le_mul_left _ hlt
        rw [mul_succ] at hstep
        exact iff_of_true (Or.inl hlt) (by omega)
      · rw [heq]
        omega
      · have hstep : 2 ^ (8 * b.length) * (y.toNat + 1) ≤ 2 ^ (8 * b.length) * x.toNat :=
          mul_le_mul_left _ hgt
        rw [mul_succ] at hstep
        exact iff_of_false (by omega) (by omega)

theorem beValue_inj {a b : Bytes} (h : a.length = b.length) (hvalue : beValue a = beValue b) :
    a = b := by
  induction a generalizing b with
  | nil => exact (length_eq_zero_iff.1 h.symm).symm
  | cons x a ih =>
    cases b with
    | nil => cases h
    | cons y b =>
      have hlength : a.length = b.length := Nat.succ.inj h
      have ha := beValue_lt a
      have hb := beValue_lt b
      rw [beValue, beValue, hlength] at hvalue
      rw [hlength] at ha
      have hdiv := congrArg (· / 2 ^ (8 * b.length)) hvalue
      have hmod := congrArg (· % 2 ^ (8 * b.length)) hvalue
      simp only [Nat.mul_add_div (Nat.two_pow_pos _), Nat.div_eq_of_lt ha, Nat.div_eq_of_lt hb,
        Nat.mul_add_mod, Nat.mod_eq_of_lt ha, Nat.mod_eq_of_lt hb, Nat.add_zero] at hdiv hmod
      rw [UInt8.toNat_inj.1 hdiv, ih hlength hmod]

theorem beValue_append_zeros (a : Bytes) (n : Nat) :
    beValue (a ++ replicate n 0) = 2 ^ (8 * n) * beValue a := by
  induction a with
  | nil =>
    rw [nil_append, beValue, mul_zero]
    induction n with
    | zero => rfl
    | succ n ih => simp [replicate_succ, beValue, ih]
  | cons b a ih =>
    rw [cons_append, beValue, ih, beValue, length_append, length_replicate,
      mul_add, mul_add, pow_add, mul_comm (2 ^ (8 * a.length)), mul_assoc]

theorem mul_pow_add_xor {k x y : Nat} (a b : Nat) (hx : x < 2 ^ k) (hy : y < 2 ^ k) :
    (2 ^ k * a + x) ^^^ (2 ^ k * b + y) = 2 ^ k * (a ^^^ b) + (x ^^^ y) := by
  apply eq_of_testBit_eq
  intro i
  rw [testBit_xor, testBit_two_pow_mul_add _ hx, testBit_two_pow_mul_add _ hy,
    testBit_two_pow_mul_add _ (xor_lt_two_pow hx hy)]
  split <;> rw [testBit_xor]

theorem beValue_xor {a b : Bytes} (h : a.length = b.length) :
    beValue (zipWith (· ^^^ ·) a b) = beValue a ^^^ beValue b := by
  induction a generalizing b with
  | nil =>
    rw [length_eq_zero_iff.1 h.symm]
    rfl
  | cons x a ih =>
    cases b with
    | nil => cases h
    | cons y b =>
      have hlength : a.length = b.length := succ.inj h
      have ha := beValue_lt a
      rw [hlength] at ha
      rw [zipWith_cons_cons, beValue, ih hlength, beValue, beValue, length_zipWith,
        hlength, min_self, mul_pow_add_xor _ _ ha (beValue_lt b), UInt8.toNat_xor]

/-- A sorting function for a comparison: it rearranges, and nothing comes before what is smaller. -/
structure StdSort {α : Type} (lt : α → α → Prop) where
  run : List α → List α
  perm : ∀ l, (run l).Perm l
  sorted : ∀ l, (run l).Pairwise fun a b => ¬ lt b a

section Take

variable {α : Type} {R : α → α → Prop} {l : List α}

/-- What is left out of the front of a sorted list comes after all of the front. -/
theorem take_smallest (h : l.Pairwise R) (n : Nat) {a r : α} (ha : a ∈ l) (hout : a ∉ l.take n)
    (hr : r ∈ l.take n) : R r a := by
  rw [← take_append_drop n l, pairwise_append] at h
  apply h.2.2 r hr
  rw [← take_append_drop n l, mem_append] at ha
  exact ha.resolve_left hout

end Take

end TKNC.Lib.XorMetric
