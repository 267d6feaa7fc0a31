import Mathlib.Data.Int.Basic
import Mathlib.Tactic.NormNum
import Mathlib.Tactic.Ring

/-!
# MachineInt — signed registers of a fixed width, over `Int`

A signed machine integer is an `Int` that fits its register.  Two readings of an arithmetic
operation are used:

* `checked w x` — the operation is only defined when its exact result `x` fits; the value `none`
  stands for signed overflow, which the language leaves undefined;
* `wrap w x` — the two's-complement result that the register holds afterwards.

The two agree on a result that fits (`checked_of_fits`, `i64_of_fits`).
-/

namespace TKNC.Lib.MachineInt

/-- `x` is representable in a signed register of `w` bits. -/
def Fits (w : Nat) (x : Int) : Prop :=
  -(2 ^ (w - 1)) ≤ x ∧ x < 2 ^ (w - 1)

instance (w : Nat) (x : Int) : Decidable (Fits w x) := by
  unfold Fits
  infer_instance

variable {x : Int}

theorem fits32_iff : Fits 32 x ↔ -2147483648 ≤ x ∧ x ≤ 2147483647 := by
  constructor
  · rintro ⟨hlo, hhi⟩
    norm_num at hlo hhi
    omega
  · rintro ⟨hlo, hhi⟩
    constructor <;> norm_num <;> omega

theorem fits64_iff :
    Fits 64 x ↔ -9223372036854775808 ≤ x ∧ x ≤ 9223372036854775807 := by
  constructor
  · rintro ⟨hlo, hhi⟩
    norm_num at hlo hhi
    omega
  · rintro ⟨hlo, hhi⟩
    constructor <;> norm_num <;> omega

/-! ## Checked arithmetic -/

/-- The exact result `x` when it fits, and `none` for signed overflow. -/
def checked (w : Nat) (x : Int) : Option Int :=
  if Fits w x then some x else none

def checkedAdd (w : Nat) (a b : Int) : Option Int := checked w (a + b)

def checkedSub (w : Nat) (a b : Int) : Option Int := checked w (a - b)

def checkedMul (w : Nat) (a b : Int) : Option Int := checked w (a * b)

def checkedDiv (w : Nat) (a b : Int) : Option Int :=
  if b = 0 then none else checked w (a.tdiv b)

theorem checked_of_fits {w : Nat} (h : Fits w x) : checked w x = some x := by
  simp [checked, h]

theorem checkedSub_of_fits {w : Nat} {a b : Int} (h : Fits w (a - b)) :
    checkedSub w a b = some (a - b) :=
  checked_of_fits h

theorem checkedDiv_natCast {w a b : Nat} (hb : b ≠ 0) (ha : Fits w (a : Int)) :
    checkedDiv w (a : Int) (b : Int) = some ((a / b : Nat) : Int) := by
  have hbInt : (b : Int) ≠ 0 := by
    exact_mod_cast hb
  have hdiv : (a : Int).tdiv (b : Int) = ((a / b : Nat) : Int) := Int.ofNat_tdiv a b
  -- the quotient lies between zero and the dividend, which fits
  have hle : ((a / b : Nat) : Int) ≤ (a : Int) := by
    exact_mod_cast Nat.div_le_self a b
  have hfits : Fits w ((a / b : Nat) : Int) := by
    rcases ha with ⟨hlo, hhi⟩
    refine ⟨?_, lt_of_le_of_lt hle hhi⟩
    have hpow : (0 : Int) ≤ 2 ^ (w - 1) := by positivity
    have hnonneg : (0 : Int) ≤ ((a / b : Nat) : Int) := Int.natCast_nonneg _
    omega
  rw [checkedDiv, if_neg hbInt, hdiv]
  exact checked_of_fits hfits

/-- What a signed register of `w` bits holds after an operation with exact result `x`. -/
def wrap (w : Nat) (x : Int) : Int :=
  (x + 2 ^ (w - 1)) % 2 ^ w - 2 ^ (w - 1)

abbrev i64 (x : Int) : Int := wrap 64 x

def int64Max : Int := 9223372036854775807

theorem i64_eq (x : Int) :
    i64 x = (x + 9223372036854775808) % 18446744073709551616 - 9223372036854775808 := by
  norm_num [i64, wrap]

theorem wrap32_eq (x : Int) : wrap 32 x = (x + 2147483648) % 4294967296 - 2147483648 := by
  norm_num [wrap]

theorem wrap32_of_fits (h : Fits 32 x) : wrap 32 x = x := by
  rw [fits32_iff] at h
  rw [wrap32_eq]
  omega

theorem i64_of_fits (h : Fits 64 x) : i64 x = x := by
  rw [fits64_iff] at h
  rw [i64_eq]
  omega

theorem fits_i64 (x : Int) : Fits 64 (i64 x) := by
  rw [fits64_iff, i64_eq]
  omega

end TKNC.Lib.MachineInt
