import TKNC.Lib.Numeral

/-!
# JsonText — JSON documents and their texts

The concrete syntax of JSON: trees that keep blanks, escapes and the spelling of numbers, so that
every valid text is the text of a tree.  Values, the elements of an array and the members of an
object are one family, so that a function or an induction over them is one.
-/

namespace TKNC.Lib.JsonText

open Numeral

/-! ## Blanks, strings and numbers -/

def isWhitespace (b : UInt8) : Bool :=
  b = 32 || b = 9 || b = 10 || b = 13

abbrev Blank : Type :=
  { bytes : Bytes // ∀ b ∈ bytes, isWhitespace b = true }

inductive Escape where
  | quote
  | backslash
  | slash
  | backspace
  | formFeed
  | lineFeed
  | carriageReturn
  | tab
  deriving DecidableEq

def Escape.letter : Escape → UInt8
  | .quote => 34
  | .backslash => 92
  | .slash => 47
  | .backspace => 98
  | .formFeed => 102
  | .lineFeed => 110
  | .carriageReturn => 114
  | .tab => 116

def Escape.value : Escape → UInt8
  | .quote => 34
  | .backslash => 92
  | .slash => 47
  | .backspace => 8
  | .formFeed => 12
  | .lineFeed => 10
  | .carriageReturn => 13
  | .tab => 9

/-- A character of a string: a byte that stands for itself, an escape with a letter, or one with the
four digits of a code unit. -/
inductive Letter where
  | plain (b : UInt8) (h : 32 ≤ b.toNat ∧ b ≠ 34 ∧ b ≠ 92)
  | escape (e : Escape)
  | unicode (digits : Bytes) (h : digits.length = 4 ∧ ∀ d ∈ digits, (hexValue d).isSome)

def Letter.text : Letter → Bytes
  | .plain b _ => [b]
  | .escape e => [92, e.letter]
  | .unicode digits _ => 92 :: 117 :: digits

def Letter.isUnicode : Letter → Bool
  | .unicode _ _ => true
  | _ => false

abbrev Letters : Type := List Letter

def lettersText (s : Letters) : Bytes :=
  s.flatMap Letter.text

def stringText (s : Letters) : Bytes :=
  34 :: (lettersText s ++ [34])

def utf8 (n : Nat) : Bytes :=
  if n < 128 then [UInt8.ofNat n]
  else if n < 2048 then [UInt8.ofNat (192 + n / 64), UInt8.ofNat (128 + n % 64)]
  else if n < 65536 then
    [UInt8.ofNat (224 + n / 4096), UInt8.ofNat (128 + n / 64 % 64), UInt8.ofNat (128 + n % 64)]
  else
    [UInt8.ofNat (240 + n / 262144), UInt8.ofNat (128 + n / 4096 % 64),
      UInt8.ofNat (128 + n / 64 % 64), UInt8.ofNat (128 + n % 64)]

/-- What a string stands for, behind the first unit of a surrogate pair if there is one. -/
def valueFrom : Option Nat → Letters → Bytes
  | none, [] => []
  | some high, [] => utf8 high
  | pending, .plain b _ :: s => (pending.elim [] utf8) ++ b :: valueFrom none s
  | pending, .escape e :: s => (pending.elim [] utf8) ++ e.value :: valueFrom none s
  | pending, .unicode digits _ :: s =>
      let unit := (ofHex digits).getD 0
      match pending with
      | some high =>
          if 56320 ≤ unit ∧ unit < 57344 then
            utf8 (65536 + (high - 55296) * 1024 + (unit - 56320)) ++ valueFrom none s
          else if 55296 ≤ unit ∧ unit < 56320 then utf8 high ++ valueFrom (some unit) s
          else utf8 high ++ utf8 unit ++ valueFrom none s
      | none =>
          if 55296 ≤ unit ∧ unit < 56320 then valueFrom (some unit) s
          else utf8 unit ++ valueFrom none s

def stringValue (s : Letters) : Bytes :=
  valueFrom none s

abbrev Digits : Type :=
  { bytes : Bytes // bytes ≠ [] ∧ ∀ d ∈ bytes, isDigit d = true }

structure Exponent where
  capital : Bool
  sign : Option Bool
  digits : Digits

def Exponent.text (e : Exponent) : Bytes :=
  (if e.capital then 69 else 101) ::
    (e.sign.elim [] (fun negative => if negative then [45] else [43]) ++ e.digits.1)

structure Number where
  negative : Bool
  digits : Digits
  canonical : digits.1.head? = some 48 → digits.1 = [48]
  fraction : Option Digits
  exponent : Option Exponent

def Number.tail (n : Number) : Bytes :=
  n.fraction.elim [] (fun ds => 46 :: ds.1) ++ n.exponent.elim [] Exponent.text

def Number.text (n : Number) : Bytes :=
  (if n.negative then [45] else []) ++ (n.digits.1 ++ n.tail)

def Number.integer (n : Number) : Option Int :=
  if n.fraction.isNone ∧ n.exponent.isNone then
    some (if n.negative then -(digitsValue n.digits.1 : Int) else digitsValue n.digits.1)
  else none

/-! ## Documents -/

inductive Part where
  | value
  | elements
  | members

/-- Blanks stand around the elements of an array, and around the keys and values of an object. -/
inductive Tree : Part → Type
  | null : Tree .value
  | bool (b : Bool) : Tree .value
  | number (n : Number) : Tree .value
  | string (s : Letters) : Tree .value
  | array (blank : Blank) (es : Tree .elements) : Tree .value
  | object (blank : Blank) (ms : Tree .members) : Tree .value
  | noElement : Tree .elements
  | element (before : Blank) (v : Tree .value) (after : Blank) (es : Tree .elements) :
      Tree .elements
  | noMember : Tree .members
  | member (before : Blank) (key : Letters) (behind between : Blank) (v : Tree .value)
      (after : Blank) (ms : Tree .members) : Tree .members

abbrev Value : Type := Tree .value

abbrev Elements : Type := Tree .elements

abbrev Members : Type := Tree .members

/-- The text of a part; `sep` stands in front of the first element or member, and a comma in front
of the others. -/
def Tree.textFrom : {p : Part} → Bytes → Tree p → Bytes
  | _, _, .null => ascii "null"
  | _, _, .bool b => if b then ascii "true" else ascii "false"
  | _, _, .number n => n.text
  | _, _, .string s => stringText s
  | _, _, .array blank es => 91 :: (blank.1 ++ (es.textFrom [] ++ [93]))
  | _, _, .object blank ms => 123 :: (blank.1 ++ (ms.textFrom [] ++ [125]))
  | _, _, .noElement => []
  | _, sep, .element before v after es =>
      sep ++ (before.1 ++ (v.textFrom [] ++ (after.1 ++ es.textFrom [44])))
  | _, _, .noMember => []
  | _, sep, .member before key behind between v after ms =>
      sep ++ (before.1 ++ (stringText key ++ (behind.1 ++ 58 :: (between.1 ++
        (v.textFrom [] ++ (after.1 ++ ms.textFrom [44]))))))

def Tree.text {p : Part} (t : Tree p) : Bytes :=
  t.textFrom []

structure Field where
  behind : Blank
  between : Blank
  value : Value
  rest : Bytes

def Tree.field (key : Bytes) : {p : Part} → Tree p → Option Field
  | _, .member _ k behind between v after ms =>
      if stringValue k = key then some ⟨behind, between, v, after.1 ++ ms.textFrom [44]⟩
      else ms.field key
  | _, _ => none

structure Document where
  leading : Blank
  blank : Blank
  members : Members
  trailing : Blank

def Document.text (d : Document) : Bytes :=
  d.leading.1 ++ (Tree.text (.object d.blank d.members) ++ d.trailing.1)

def Letter.byte : Letter → UInt8
  | .plain b _ => b
  | .escape e => e.value
  | .unicode _ _ => 0

theorem stringValue_eq_map {s : Letters} (h : ∀ l ∈ s, l.isUnicode = false) :
    stringValue s = s.map Letter.byte := by
  induction s with
  | nil => rfl
  | cons l s ih =>
    rw [List.forall_mem_cons] at h
    cases l with
    | plain b hb => exact congrArg (b :: ·) (ih h.2)
    | escape e => exact congrArg (e.value :: ·) (ih h.2)
    | unicode digits hdigits => cases h.1

/-- A number that is written as an integer has nothing behind its digits. -/
theorem Number.of_integer {n : Number} {i : Int} (h : n.integer = some i) :
    n.tail = [] ∧
      (if n.negative then -(digitsValue n.digits.1 : Int) else digitsValue n.digits.1) = i := by
  rw [Number.integer] at h
  split at h
  · rename_i hplain
    rw [Number.tail, Option.isNone_iff_eq_none.1 hplain.1, Option.isNone_iff_eq_none.1 hplain.2]
    exact ⟨rfl, Option.some.inj h⟩
  · cases h

theorem Number.mem_text {n : Number} {b : UInt8} (h : b ∈ n.text) :
    isDigit b = true ∨ b = 43 ∨ b = 45 ∨ b = 46 ∨ b = 69 ∨ b = 101 := by
  rw [Number.text, Number.tail, List.mem_append, List.mem_append, List.mem_append] at h
  rcases h with hsign | hdigit | hfraction | hexponent
  · split at hsign
    · exact Or.inr (Or.inr (Or.inl (List.mem_singleton.1 hsign)))
    · cases hsign
  · exact Or.inl (n.digits.2.2 b hdigit)
  · cases hvalue : n.fraction with
    | none =>
      rw [hvalue] at hfraction
      cases hfraction
    | some ds =>
      rw [hvalue] at hfraction
      rcases List.mem_cons.1 hfraction with hpoint | hdigit
      · exact Or.inr (Or.inr (Or.inr (Or.inl hpoint)))
      · exact Or.inl (ds.2.2 b hdigit)
  · cases hvalue : n.exponent with
    | none =>
      rw [hvalue] at hexponent
      cases hexponent
    | some e =>
      rw [hvalue] at hexponent
      rcases List.mem_cons.1 hexponent with hmark | hrest
      · rw [hmark]
        cases e.capital <;> simp
      rcases List.mem_append.1 hrest with hsign | hdigit
      · cases hcase : e.sign with
        | none =>
          rw [hcase] at hsign
          cases hsign
        | some negative =>
          rw [hcase] at hsign
          cases negative <;> simp_all
      · exact Or.inl (e.digits.2.2 b hdigit)

end TKNC.Lib.JsonText
