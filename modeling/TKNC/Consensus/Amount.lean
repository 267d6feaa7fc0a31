import Mathlib.Data.Int.Basic

/-!
# Amount — the consensus amount type

An amount (`CAmount`) is a signed 64-bit number of the smallest unit, and can be negative; it is an
`Int` here.  `coin` units make one TKNC.
-/

namespace TKNC.Consensus

def coin : Int := 100000000

def maxMoney : Int := 1000000000 * coin

def moneyRange (nValue : Int) : Bool :=
  0 ≤ nValue && nValue ≤ maxMoney

/-! ## Display -/

/-- Trailing zeros, in a reversed numeral, are dropped down to two decimals: a zero goes while the
second character before it is a digit. -/
def trimZeros : List Char → List Char
  | c :: d :: e :: rest =>
      if c = '0' ∧ e.isDigit then trimZeros (d :: e :: rest) else c :: d :: e :: rest
  | short => short

def formatMoney (n : Int) : String :=
  let quotient := (n.tdiv coin).natAbs
  let remainder := (n.tmod coin).natAbs
  let decimals := Nat.toDigits 10 remainder
  let str := Nat.toDigits 10 quotient ++ '.' :: (List.replicate (8 - decimals.length) '0' ++ decimals)
  let str := (trimZeros str.reverse).reverse
  String.ofList (if n < 0 then '-' :: str else str)

example : formatMoney (-1250000000) = "-12.50" := by decide

theorem maxMoney_eq : maxMoney = 100000000000000000 := rfl

end TKNC.Consensus
