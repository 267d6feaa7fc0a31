import Mathlib.Data.List.TakeWhile
import Mathlib.Tactic.IntervalCases
import TKNC.Lib.MachineInt

/-!
# Numeral — numbers in byte strings

Byte strings, decimal numerals of signed 64-bit integers as `std::to_string` writes and `std::stoll`
reads them, and fixed-width hexadecimal.  The reader is liberal (leading blanks, a sign, trailing
bytes of any kind); the results are that it undoes the writer.
-/

namespace TKNC.Lib.Numeral

open MachineInt List Nat Bool

abbrev Bytes : Type := List UInt8

/-- The bytes of a text without characters beyond the Latin-1 block. -/
def ascii (s : String) : Bytes :=
  s.toList.map (fun c => UInt8.ofNat c.toNat)

/-! ## Decimal -/

def isDigit (b : UInt8) : Bool :=
  48 ≤ b.toNat && b.toNat ≤ 57

def isSpace (b : UInt8) : Bool :=
  b.toNat = 32 || (9 ≤ b.toNat && b.toNat ≤ 13)

def digitsValue (ds : Bytes) : Nat :=
  ds.foldl (fun acc b => 10 * acc + (b.toNat - 48)) 0

def decimal (n : Nat) : Bytes :=
  (Nat.toDigits 10 n).map (fun c => UInt8.ofNat c.toNat)

/-- `std::to_string` of a signed integer. -/
def toString64 (n : Int) : Bytes :=
  if n < 0 then 45 :: decimal n.natAbs else decimal n.natAbs

def readDigits (negative : Bool) (s : Bytes) : Option Int :=
  let ds := s.takeWhile isDigit
  let value : Int := if negative then -(digitsValue ds : Int) else digitsValue ds
  if ds = [] then none else if Fits 64 value then some value else none

def stoll (s : Bytes) : Option Int :=
  match s.dropWhile isSpace with
  | [] => none
  | b :: rest =>
      if b = 45 then readDigits true rest
      else if b = 43 then readDigits false rest
      else readDigits false (b :: rest)

example : stoll (ascii "  -42;7") = some (-42) := by decide

theorem toNat_of_isDigit {c : Char} (h : c.isDigit = true) :
    (UInt8.ofNat c.toNat).toNat = c.toNat ∧ 48 ≤ c.toNat ∧ c.toNat ≤ 57 := by
  have hrange : 48 ≤ c.toNat ∧ c.toNat ≤ 57 := by
    simpa [Char.isDigit, UInt32.le_iff_toNat_le] using h
  refine ⟨?_, hrange⟩
  rw [UInt8.toNat_ofNat']
  omega

variable {b : UInt8}

theorem mem_decimal {n : Nat} (hmem : b ∈ decimal n) : isDigit b = true := by
  rcases mem_map.1 hmem with ⟨c, hc, rfl⟩
  rcases toNat_of_isDigit (isDigit_of_mem_toDigits (by decide) (by decide) hc) with
    ⟨hbyte, hrange⟩
  simp [isDigit, hbyte, hrange]

theorem decimal_ne_nil (n : Nat) : decimal n ≠ [] := by
  simp [decimal, toDigits_ne_nil]

theorem foldl_digit_bytes {cs : List Char} (hdigits : ∀ c ∈ cs, c.isDigit = true) (acc : Nat) :
    (cs.map (fun c => UInt8.ofNat c.toNat)).foldl (fun acc b => 10 * acc + (b.toNat - 48)) acc =
      ofDigitChars 10 cs acc := by
  -- induction on the digits, for every accumulator
  induction cs generalizing acc with
  | nil => rfl
  | cons c cs ih =>
    have hbyte := (toNat_of_isDigit (hdigits c mem_cons_self)).1
    rw [map_cons, foldl_cons, hbyte,
      ih (fun c' hc' => hdigits c' (mem_cons_of_mem _ hc'))]
    rfl

theorem digitsValue_decimal (n : Nat) : digitsValue (decimal n) = n := by
  have hdigits : ∀ c ∈ toDigits 10 n, c.isDigit = true := fun c hc =>
    isDigit_of_mem_toDigits (by decide) (by decide) hc
  rw [digitsValue, decimal, foldl_digit_bytes hdigits]
  exact ofDigitChars_toDigits (by decide) (by decide)

theorem readDigits_decimal {negative : Bool} {m : Nat} {n : Int}
    (hvalue : (if negative then -(m : Int) else m) = n) (h : Fits 64 n) :
    readDigits negative (decimal m) = some n := by
  have htake : (decimal m).takeWhile isDigit = decimal m :=
    takeWhile_eq_self_iff.2 (fun b hb => mem_decimal hb)
  simp only [readDigits, htake, digitsValue_decimal, decimal_ne_nil, if_false]
  rw [hvalue, if_pos h]

theorem stoll_toString64 {n : Int} (h : Fits 64 n) : stoll (toString64 n) = some n := by
  unfold toString64
  split
  · rename_i hneg
    have hvalue : (if true then -(n.natAbs : Int) else n.natAbs) = n := by
      simp only [if_true]
      omega
    exact readDigits_decimal hvalue h
  · rename_i hpos
    -- the first byte is a digit, so neither the blanks nor the signs are taken
    cases hdecimal : decimal n.natAbs with
    | nil => exact absurd hdecimal (decimal_ne_nil _)
    | cons b rest =>
      have hdigit : isDigit b = true := mem_decimal (hdecimal ▸ mem_cons_self)
      have hspace : isSpace b = false := by
        revert hdigit
        simp only [isDigit, isSpace, and_eq_true, decide_eq_true_eq]
        intro hdigit
        simp only [or_eq_false_iff, decide_eq_false_iff_not, and_eq_false_iff]
        omega
      have hsign : b ≠ 45 ∧ b ≠ 43 := by
        constructor <;> rintro rfl <;> simp [isDigit] at hdigit
      have hvalue : (if false then -(n.natAbs : Int) else n.natAbs) = n := by
        simp only [false_eq_true, if_false]
        omega
      simp only [stoll, dropWhile_cons, hspace, hsign, if_false, false_eq_true]
      rw [← hdecimal]
      exact readDigits_decimal hvalue h

theorem mem_toString64 {n : Int} (hmem : b ∈ toString64 n) :
    isDigit b = true ∨ b = 45 := by
  unfold toString64 at hmem
  split at hmem
  · rcases mem_cons.1 hmem with rfl | hmem
    · exact Or.inr rfl
    · exact Or.inl (mem_decimal hmem)
  · exact Or.inl (mem_decimal hmem)

theorem toString64_injective : Function.Injective toString64 := by
  have hdecimal {k l : Nat} (h : decimal k = decimal l) : k = l := by
    rw [← digitsValue_decimal k, h, digitsValue_decimal]
  -- a numeral without a sign does not begin with one
  have hsign {k l : Nat} : 45 :: decimal k ≠ decimal l := by
    intro h
    have hdigit : isDigit 45 = true := mem_decimal (h ▸ mem_cons_self)
    exact absurd hdigit (by decide)
  intro m n h
  unfold toString64 at h
  split at h <;> split at h
  · have := hdecimal (cons.inj h).2
    omega
  · exact absurd h hsign
  · exact absurd h.symm hsign
  · have := hdecimal h
    omega

def hexByte (d : Nat) : UInt8 :=
  if d < 10 then UInt8.ofNat (48 + d) else UInt8.ofNat (87 + d)

def hexValue (b : UInt8) : Option Nat :=
  if 48 ≤ b.toNat ∧ b.toNat ≤ 57 then some (b.toNat - 48)
  else if 97 ≤ b.toNat ∧ b.toNat ≤ 102 then some (b.toNat - 87)
  else if 65 ≤ b.toNat ∧ b.toNat ≤ 70 then some (b.toNat - 55)
  else none

/-- The `width` last digits of `n`, most significant first. -/
def toHex : Nat → Nat → Bytes
  | 0, _ => []
  | width + 1, n => toHex width (n / 16) ++ [hexByte (n % 16)]

def ofHex (s : Bytes) : Option Nat :=
  s.foldl (fun acc b => acc.bind fun value => (hexValue b).map fun d => 16 * value + d) (some 0)

theorem hexValue_hexByte {d : Nat} (h : d < 16) : hexValue (hexByte d) = some d := by
  interval_cases d <;> decide

theorem length_toHex (width n : Nat) : (toHex width n).length = width := by
  induction width generalizing n with
  | zero => rfl
  | succ width ih => simp [toHex, ih]

theorem ofHex_toHex (width n : Nat) : ofHex (toHex width n) = some (n % 16 ^ width) := by
  induction width generalizing n with
  | zero => simp [toHex, ofHex, mod_one]
  | succ width ih =>
    -- the last digit is read last
    have hstep : ofHex (toHex width (n / 16) ++ [hexByte (n % 16)]) =
        (ofHex (toHex width (n / 16))).bind
          fun value => (hexValue (hexByte (n % 16))).map fun d => 16 * value + d := by
      simp [ofHex, foldl_append]
    rw [toHex, hstep, ih, hexValue_hexByte (mod_lt _ (by decide))]
    simp only [Option.bind_some, Option.map_some, Option.some.injEq]
    rw [pow_succ', mod_mul, add_comm]

theorem mem_toHex {width n : Nat} (hmem : b ∈ toHex width n) :
    ∃ d, d < 16 ∧ b = hexByte d := by
  induction width generalizing n with
  | zero => cases hmem
  | succ width ih =>
    rcases mem_append.1 hmem with hmem | hmem
    · exact ih hmem
    · exact ⟨n % 16, mod_lt _ (by decide), by simpa using hmem⟩

/-! ## Readers that do not fail -/

def skipSign (s : Bytes) : Bool × Bytes :=
  match s.dropWhile isSpace with
  | [] => (false, [])
  | b :: rest =>
      if b = 45 then (true, rest) else if b = 43 then (false, rest) else (false, b :: rest)

def atoi (s : Bytes) : Int :=
  let negative := (skipSign s).1
  let value : Int := digitsValue ((skipSign s).2.takeWhile isDigit)
  wrap 32 (if negative then max (-value) (-(2 ^ 63)) else min value (2 ^ 63 - 1))

/-- `strtoul` in base sixteen, with 64 bits: saturating, and negating in the register. -/
def strtoul16 (s : Bytes) : Nat :=
  let negative := (skipSign s).1
  let s := (skipSign s).2
  let s := if s.take 2 = [48, 120] ∨ s.take 2 = [48, 88] then s.drop 2 else s
  let value := (ofHex (s.takeWhile (fun b => (hexValue b).isSome))).getD 0
  if 2 ^ 64 ≤ value then 2 ^ 64 - 1 else if negative then (2 ^ 64 - value) % 2 ^ 64 else value

theorem strtoul16_space (h : isSpace b = true) (s : Bytes) :
    strtoul16 (b :: s) = strtoul16 s := by
  have hskip : skipSign (b :: s) = skipSign s := by
    rw [skipSign, dropWhile_cons, if_pos h, skipSign]
  rw [strtoul16, hskip, strtoul16]

theorem of_hexValue_isSome (h : (hexValue b).isSome) :
    isSpace b = false ∧ b ≠ 45 ∧ b ≠ 43 ∧ b ≠ 120 ∧ b ≠ 88 := by
  refine ⟨?_, ?_, ?_, ?_, ?_⟩
  · by_contra hspace
    simp only [isSpace, not_eq_false, or_eq_true, and_eq_true,
      decide_eq_true_eq] at hspace
    rw [hexValue, if_neg (by omega), if_neg (by omega), if_neg (by omega)] at h
    cases h
  all_goals
    rintro rfl
    cases h

theorem strtoul16_append {digits : Bytes} {n : Nat} (hne : digits ≠ [])
    (hhex : ∀ b ∈ digits, (hexValue b).isSome) (hvalue : ofHex digits = some n)
    (hfits : n < 2 ^ 64) {tail : Bytes}
    (htail : ∀ b ∈ tail.head?, hexValue b = none ∧ b ≠ 120 ∧ b ≠ 88) :
    strtoul16 (digits ++ tail) = n := by
  obtain ⟨b, rest, rfl⟩ := exists_cons_of_ne_nil hne
  have hb := of_hexValue_isSome (hhex b (mem_cons_self ..))
  have hskip : skipSign (b :: rest ++ tail) = (false, b :: rest ++ tail) := by
    simp [skipSign, hb.1, hb.2.1, hb.2.2.1]
  -- the second byte is a digit or the first one of the tail
  have hsecond : ∀ c ∈ (rest ++ tail).head?, c ≠ 120 ∧ c ≠ 88 := by
    cases rest with
    | nil => exact fun c hc => (htail c hc).2
    | cons c' rest =>
      rintro c hc
      cases Option.mem_some.1 hc
      exact (of_hexValue_isSome (hhex c' (mem_cons_of_mem _ (mem_cons_self ..)))).2.2.2
  have hplain : ¬ ((b :: rest ++ tail).take 2 = [48, 120] ∨
      (b :: rest ++ tail).take 2 = [48, 88]) := by
    rw [cons_append]
    cases hrest : rest ++ tail with
    | nil => simp
    | cons c more =>
      have hc := hsecond c (by rw [hrest]; rfl)
      simp [hc.1, hc.2]
  have htake : (b :: rest ++ tail).takeWhile (fun b => (hexValue b).isSome) = b :: rest := by
    rw [takeWhile_append_of_pos hhex]
    cases tail with
    | nil => simp
    | cons c tail => simp [(htail c rfl).1]
  simp only [strtoul16, hskip, if_neg hplain, htake, hvalue, Option.getD_some,
    if_neg (not_le.2 hfits), false_eq_true, if_false]

example : atoi (ascii " -12x") = -12 ∧ strtoul16 (ascii "0x1F;name=v") = 31 := by decide +kernel

end TKNC.Lib.Numeral
