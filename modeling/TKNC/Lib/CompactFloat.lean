import Mathlib.Algebra.Order.Ring.Nat
import Mathlib.Tactic.Ring
import Mathlib.Tactic.Linarith

/-!
# CompactFloat — base-256 floating point with a 23-bit mantissa

A natural number is kept by its leading bytes: at most three of them, and only two when the three
would fill the top bit, which a signed format reserves.  `trunc n` is what is left of `n`.  The
module bounds the loss: less than `n / 2 ^ 15`, and nothing at all while `n` fits the mantissa.
-/

namespace TKNC.Lib.CompactFloat

open Nat

/-- Position of the highest bit set plus one, or zero for zero. -/
def bits (n : Nat) : Nat :=
  if n = 0 then 0 else n.log2 + 1

def byteLength (n : Nat) : Nat :=
  (bits n + 7) / 8

theorem lt_two_pow_bits (n : Nat) : n < 2 ^ bits n := by
  unfold bits
  split
  · next h =>
      simp [h]
  · exact lt_log2_self

variable {n k : Nat}

theorem two_pow_le_of_bits (h : bits n = k + 1) : 2 ^ k ≤ n := by
  unfold bits at h
  split at h
  · omega
  · next hne =>
      have hk : k = n.log2 := by omega
      rw [hk]
      exact log2_self_le hne

theorem bits_le (h : n < 2 ^ k) : bits n ≤ k := by
  by_contra hlong
  obtain ⟨b, hb⟩ : ∃ b, bits n = b + 1 := ⟨bits n - 1, by omega⟩
  have hpow : 2 ^ k ≤ 2 ^ b := Nat.pow_le_pow_right (by decide) (by omega)
  exact absurd (two_pow_le_of_bits hb) (Nat.not_le.2 (lt_of_lt_of_le h hpow))

theorem bits_eq_succ (hlow : 2 ^ k ≤ n) (hhigh : n < 2 ^ (k + 1)) : bits n = k + 1 := by
  have hne : n ≠ 0 := by
    rintro rfl
    exact absurd hlow (by simp)
  rw [bits, if_neg hne, (log2_eq_iff hne).2 ⟨hlow, hhigh⟩]

theorem bits_div (h : n / 2 ^ k ≠ 0) : bits n = k + bits (n / 2 ^ k) := by
  obtain ⟨b, hb⟩ : ∃ b, bits (n / 2 ^ k) = b + 1 := ⟨(n / 2 ^ k).log2, if_neg h⟩
  have hlow := two_pow_le_of_bits hb
  have hhigh := lt_two_pow_bits (n / 2 ^ k)
  rw [hb] at hhigh ⊢
  rw [Nat.le_div_iff_mul_le (Nat.two_pow_pos k), ← pow_add] at hlow
  rw [Nat.div_lt_iff_lt_mul (Nat.two_pow_pos k), ← pow_add] at hhigh
  rw [← Nat.add_assoc]
  apply bits_eq_succ
  · rwa [Nat.add_comm k b]
  · rwa [show k + b + 1 = b + 1 + k by omega]

theorem pow_256 (k : Nat) : 256 ^ k = 2 ^ (8 * k) := by
  rw [pow_mul]
  norm_num

theorem lt_pow_byteLength (n : Nat) : n < 256 ^ byteLength n := by
  rw [pow_256]
  refine lt_of_lt_of_le (lt_two_pow_bits n) (Nat.pow_le_pow_right (by norm_num) ?_)
  unfold byteLength
  omega

theorem pow_le_of_byteLength (h : byteLength n = k + 1) : 256 ^ k ≤ n := by
  cases hb : bits n with
  | zero =>
    simp [byteLength, hb] at h
  | succ b =>
    rw [pow_256]
    refine le_trans (Nat.pow_le_pow_right (by norm_num) ?_) (two_pow_le_of_bits hb)
    unfold byteLength at h
    omega

/-! ## Truncation -/

def droppedBytes (n : Nat) : Nat :=
  if byteLength n ≤ 2 then
    0
  else if n / 256 ^ (byteLength n - 3) < 2 ^ 23 then
    byteLength n - 3
  else
    byteLength n - 2

def mantissa (n : Nat) : Nat :=
  n / 256 ^ droppedBytes n

def trunc (n : Nat) : Nat :=
  mantissa n * 256 ^ droppedBytes n

theorem trunc_le (n : Nat) : trunc n ≤ n :=
  div_mul_le_self n _

theorem lt_trunc_add (n : Nat) : n < trunc n + 256 ^ droppedBytes n := by
  have hmod := mod_lt n (pow_pos (n := droppedBytes n) (by norm_num : 0 < 256))
  have hdiv := div_add_mod' n (256 ^ droppedBytes n)
  unfold trunc mantissa
  omega

/-- Whenever bytes are dropped, the two leading bytes carry fifteen significant bits at least. -/
theorem mantissa_ge {n : Nat} (h : droppedBytes n ≠ 0) : 2 ^ 15 ≤ mantissa n := by
  have hpos : 0 < 256 ^ droppedBytes n := Nat.pow_pos (by norm_num)
  rw [mantissa, Nat.le_div_iff_mul_le hpos]
  unfold droppedBytes at h ⊢
  split at h
  · exact absurd rfl h
  · next hlen =>
      split at h
      · next hfit =>
          -- three bytes are kept, and the first of them is not zero
          rw [if_neg hlen, if_pos hfit]
          have hlow : 256 ^ (byteLength n - 1) ≤ n := pow_le_of_byteLength (by omega)
          calc
            2 ^ 15 * 256 ^ (byteLength n - 3) ≤ 256 ^ 2 * 256 ^ (byteLength n - 3) :=
              Nat.mul_le_mul_right _ (by norm_num)
            _ = 256 ^ (byteLength n - 1) := by
              rw [← pow_add]
              congr 1
              omega
            _ ≤ n := hlow
      · next hfull =>
          -- the three leading bytes fill the reserved bit, so two of them hold fifteen bits
          rw [if_neg hlen, if_neg hfull]
          have hpos' : 0 < 256 ^ (byteLength n - 3) := Nat.pow_pos (by norm_num)
          rw [not_lt, Nat.le_div_iff_mul_le hpos'] at hfull
          calc
            2 ^ 15 * 256 ^ (byteLength n - 2) = 2 ^ 23 * 256 ^ (byteLength n - 3) := by
              rw [show byteLength n - 2 = (byteLength n - 3) + 1 by omega, pow_succ]
              ring
            _ ≤ n := hfull

theorem trunc_eq_self {n : Nat} (h : droppedBytes n = 0) : trunc n = n := by
  simp [trunc, mantissa, h]

/-- The relative loss is below `2 ^ -15`: in rational numbers, `n - trunc n < n / 2 ^ 15`. -/
theorem mul_sub_trunc_lt {n : Nat} (hpos : 0 < n) : 2 ^ 15 * (n - trunc n) < n := by
  by_cases h : droppedBytes n = 0
  · rw [trunc_eq_self h]
    omega
  · have hlost := lt_trunc_add n
    have hle := trunc_le n
    calc
      2 ^ 15 * (n - trunc n) < 2 ^ 15 * 256 ^ droppedBytes n := by omega
      _ ≤ mantissa n * 256 ^ droppedBytes n := mul_le_mul_right _ (mantissa_ge h)
      _ ≤ n := hle

theorem le_trunc_add_div (n : Nat) : n ≤ trunc n + n / 2 ^ 15 := by
  rcases Nat.eq_zero_or_pos n with rfl | hpos
  · exact Nat.zero_le _
  · have hlost := mul_sub_trunc_lt hpos
    omega

theorem trunc_pos {n : Nat} (hpos : 0 < n) : 0 < trunc n := by
  have hlost := mul_sub_trunc_lt hpos
  omega

/-! ## Uniqueness of the truncation -/

theorem mantissa_lt (n : Nat) : mantissa n < 2 ^ 23 := by
  have hlen := lt_pow_byteLength n
  unfold mantissa droppedBytes
  split
  · next hshort =>
      have hpow : 256 ^ byteLength n ≤ 256 ^ 2 := Nat.pow_le_pow_right (by norm_num) hshort
      rw [pow_zero, Nat.div_one]
      omega
  · next hlong =>
      split
      · next hfit => exact hfit
      · rw [Nat.div_lt_iff_lt_mul (Nat.pow_pos (by norm_num))]
        calc
          n < 256 ^ byteLength n := hlen
          _ = 256 ^ 2 * 256 ^ (byteLength n - 2) := by
            rw [← pow_add]
            congr 1
            omega
          _ ≤ 2 ^ 23 * 256 ^ (byteLength n - 2) := Nat.mul_le_mul_right _ (by norm_num)

/-- The kept bytes fit the mantissa, and with one byte less they would not use fifteen bits. -/
structure Fits (n k : Nat) : Prop where
  lt : n < 2 ^ 23 * 256 ^ k
  le : k ≠ 0 → 2 ^ 15 * 256 ^ k ≤ n

theorem fits_droppedBytes (n : Nat) : Fits n (droppedBytes n) where
  lt := (Nat.div_lt_iff_lt_mul (Nat.pow_pos (by norm_num))).1 (mantissa_lt n)
  le h := (Nat.le_div_iff_mul_le (Nat.pow_pos (by norm_num))).1 (mantissa_ge h)

theorem Fits.mono {m n j k : Nat} (h : Fits m j) (h' : Fits n k) (hle : m ≤ n) : j ≤ k := by
  by_contra hlt
  have hpow : 2 ^ 23 * 256 ^ k ≤ 2 ^ 15 * 256 ^ j := by
    calc
      2 ^ 23 * 256 ^ k = 2 ^ 15 * 256 ^ (k + 1) := by ring
      _ ≤ 2 ^ 15 * 256 ^ j :=
        Nat.mul_le_mul_left _ (Nat.pow_le_pow_right (by norm_num) (by omega))
  have hlow := h.le (by omega)
  have hhigh := h'.lt
  omega

theorem Fits.eq_droppedBytes (h : Fits n k) : droppedBytes n = k :=
  le_antisymm ((fits_droppedBytes n).mono h le_rfl) (h.mono (fits_droppedBytes n) le_rfl)

theorem droppedBytes_trunc (n : Nat) : droppedBytes (trunc n) = droppedBytes n := by
  apply Fits.eq_droppedBytes
  constructor
  · exact lt_of_le_of_lt (trunc_le n) (fits_droppedBytes n).lt
  · intro h
    exact mul_le_mul_right _ (mantissa_ge h)

theorem mantissa_trunc (n : Nat) : mantissa (trunc n) = mantissa n := by
  rw [mantissa, droppedBytes_trunc, trunc, Nat.mul_div_cancel _ (Nat.pow_pos (by norm_num))]

theorem trunc_mono {m n : Nat} (hle : m ≤ n) : trunc m ≤ trunc n := by
  have hdropped := (fits_droppedBytes m).mono (fits_droppedBytes n) hle
  rcases Nat.eq_or_lt_of_le hdropped with heq | hlt
  · -- the same bytes are dropped
    unfold trunc mantissa
    rw [heq]
    exact Nat.mul_le_mul_right _ (Nat.div_le_div_right hle)
  · -- all of the smaller number lies below the leading bytes of the larger one
    calc
      trunc m ≤ m := trunc_le m
      _ ≤ 2 ^ 23 * 256 ^ droppedBytes m := (fits_droppedBytes m).lt.le
      _ = 2 ^ 15 * 256 ^ (droppedBytes m + 1) := by ring
      _ ≤ 2 ^ 15 * 256 ^ droppedBytes n :=
        Nat.mul_le_mul_left _ (Nat.pow_le_pow_right (by norm_num) hlt)
      _ ≤ trunc n := Nat.mul_le_mul_right _ (mantissa_ge (by omega))

/-! ## The encoded form -/

/-- The three leading bytes, padded with zero bytes when there are fewer. -/
def leading (n : Nat) : Nat :=
  if byteLength n ≤ 3 then n * 256 ^ (3 - byteLength n) else n / 256 ^ (byteLength n - 3)

def encodedSize (n : Nat) : Nat :=
  if leading n < 2 ^ 23 then byteLength n else byteLength n + 1

def encodedWord (n : Nat) : Nat :=
  if leading n < 2 ^ 23 then leading n else leading n / 256

def decode (size word : Nat) : Nat :=
  if size ≤ 3 then word / 256 ^ (3 - size) else word * 256 ^ (size - 3)

theorem leading_lt (n : Nat) : leading n < 2 ^ 24 := by
  have hlt := lt_pow_byteLength n
  unfold leading
  split
  · next h =>
      calc
        n * 256 ^ (3 - byteLength n) < 256 ^ byteLength n * 256 ^ (3 - byteLength n) :=
          Nat.mul_lt_mul_of_pos_right hlt (Nat.pow_pos (by norm_num))
        _ = 256 ^ 3 := by
          rw [← pow_add]
          congr 1
          omega
        _ = 2 ^ 24 := by norm_num
  · next h =>
      rw [Nat.div_lt_iff_lt_mul (Nat.pow_pos (by norm_num))]
      calc
        n < 256 ^ byteLength n := hlt
        _ = 256 ^ 3 * 256 ^ (byteLength n - 3) := by
          rw [← pow_add]
          congr 1
          omega
        _ = 2 ^ 24 * 256 ^ (byteLength n - 3) := by norm_num

theorem leading_of_long {n : Nat} (h : ¬ byteLength n ≤ 2) :
    leading n = n / 256 ^ (byteLength n - 3) := by
  unfold leading
  split
  · next h3 =>
      have heq : byteLength n = 3 := by omega
      simp [heq]
  · rfl

theorem encodedWord_lt (n : Nat) : encodedWord n < 2 ^ 23 := by
  have hlt := leading_lt n
  unfold encodedWord
  split <;> omega

theorem decode_short {n : Nat} (h : byteLength n ≤ 2) :
    decode (encodedSize n) (encodedWord n) = n := by
  have hpos : 0 < 256 ^ (3 - byteLength n) := Nat.pow_pos (by norm_num)
  have hpos' : 0 < 256 ^ (2 - byteLength n) := Nat.pow_pos (by norm_num)
  unfold decode encodedSize encodedWord leading
  -- a short number is padded on encoding, and the padding is divided out again
  rw [if_pos (by omega : byteLength n ≤ 3)]
  split
  · rw [if_pos (by omega : byteLength n ≤ 3), Nat.mul_div_cancel n hpos]
  · -- one byte moves from the mantissa to the size
    have hsplit : n * 256 ^ (3 - byteLength n) / 256 = n * 256 ^ (2 - byteLength n) := by
      rw [show 3 - byteLength n = (2 - byteLength n) + 1 by omega, pow_succ, ← mul_assoc]
      exact Nat.mul_div_cancel _ (by norm_num)
    rw [if_pos (by omega : byteLength n + 1 ≤ 3), hsplit,
      show 3 - (byteLength n + 1) = 2 - byteLength n by omega, Nat.mul_div_cancel n hpos']

theorem decode_encoded (n : Nat) : decode (encodedSize n) (encodedWord n) = trunc n := by
  by_cases hshort : byteLength n ≤ 2
  · rw [decode_short hshort, trunc, mantissa, droppedBytes, if_pos hshort]
    simp
  · -- the two forms of the leading bytes agree
    unfold decode encodedSize encodedWord trunc mantissa droppedBytes
    rw [if_neg hshort, leading_of_long hshort]
    split
    · split
      · next hfit h3 =>
          have heq : byteLength n = 3 := by omega
          simp [heq]
      · rfl
    · rw [if_neg (by omega : ¬ byteLength n + 1 ≤ 3), Nat.div_div_eq_div_mul, ← pow_succ,
        show byteLength n - 3 + 1 = byteLength n - 2 by omega,
        show byteLength n + 1 - 3 = byteLength n - 2 by omega]

theorem encoded_of_dropped {n : Nat} (h : droppedBytes n ≠ 0) :
    encodedSize n = droppedBytes n + 3 ∧ encodedWord n = mantissa n := by
  have hlong : ¬ byteLength n ≤ 2 := by
    intro hshort
    rw [droppedBytes, if_pos hshort] at h
    exact h rfl
  unfold encodedSize encodedWord mantissa droppedBytes
  rw [if_neg hlong, leading_of_long hlong]
  split
  · exact ⟨by omega, rfl⟩
  · rw [Nat.div_div_eq_div_mul, ← pow_succ]
    refine ⟨by omega, ?_⟩
    congr 2
    omega

theorem encoded_trunc (n : Nat) :
    encodedSize (trunc n) = encodedSize n ∧ encodedWord (trunc n) = encodedWord n := by
  by_cases h : droppedBytes n = 0
  · rw [trunc_eq_self h]
    exact ⟨rfl, rfl⟩
  · have hkept := encoded_of_dropped (n := trunc n) (by rwa [droppedBytes_trunc])
    have hwhole := encoded_of_dropped h
    rw [droppedBytes_trunc, mantissa_trunc] at hkept
    exact ⟨hkept.1.trans hwhole.1.symm, hkept.2.trans hwhole.2.symm⟩

end TKNC.Lib.CompactFloat
