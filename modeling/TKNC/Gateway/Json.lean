import TKNC.Lib.Numeral
import TKNC.Lib.TextSearch

/-!
# Json — the field reader and the escaper of the gateway

`SimpleJsonParser` looks for the first quoted occurrence of a key and reads the value behind the
next colon; it does not parse the document.  `JsonEscape` writes the contents of a string literal.
-/

namespace TKNC.Gateway

open Lib.MachineInt Lib.Numeral Lib.TextSearch

abbrev quote : UInt8 := 34

abbrev backslash : UInt8 := 92

abbrev colon : UInt8 := 58

def isBlank (c : UInt8) : Bool :=
  c = 32 || c = 9

def isBlankOrBreak (c : UInt8) : Bool :=
  isBlank c || c = 10 || c = 13

/-- One byte in a string literal; control characters without a letter are written in hexadecimal. -/
def escapeByte (c : UInt8) : Bytes :=
  if c = quote then [backslash, quote]
  else if c = backslash then [backslash, backslash]
  else if c = 10 then [backslash, 110]
  else if c = 13 then [backslash, 114]
  else if c = 9 then [backslash, 116]
  else if c.toNat < 32 then backslash :: 117 :: toHex 4 c.toNat
  else [c]

def jsonEscape (s : Bytes) : Bytes :=
  s.flatMap escapeByte

/-! ## Fields -/

def quoted (key : Bytes) : Bytes :=
  quote :: key ++ [quote]

def valueOf (raw key : Bytes) : Option Bytes :=
  match find (quoted key) raw with
  | none => none
  | some s => (find [colon] s).map (·.drop 1)

/-- The contents of a string literal up to the closing quote; an unknown escape stands for its
second byte. -/
def unescape : Bytes → Bytes
  | [] => []
  | c :: rest =>
      if c = quote then []
      else if c = backslash then
        match rest with
        | [] => [c]
        | d :: rest =>
            (if d = 110 then 10 else if d = 114 then 13 else if d = 116 then 9 else d) ::
              unescape rest
      else c :: unescape rest

def getString (raw key : Bytes) : Bytes :=
  match (valueOf raw key).map (·.dropWhile isBlankOrBreak) with
  | some (c :: rest) => if c = quote then unescape rest else []
  | _ => []

def getBool (raw key : Bytes) (default : Bool) : Bool :=
  match (valueOf raw key).map (·.dropWhile isBlank) with
  | some s =>
      if s.take 4 = ascii "true" then true
      else if s.take 5 = ascii "false" then false
      else default
  | none => default

def hasKey (raw key : Bytes) : Bool :=
  contains (quoted key) raw

def getInt (raw key : Bytes) (default : Int) : Int :=
  match (valueOf raw key).map (·.dropWhile isBlankOrBreak) with
  | some (c :: rest) =>
      let negative := decide (c = 45)
      let ds := (if negative then rest else c :: rest).takeWhile isDigit
      if ds = [] then default
      else
        let value := ds.foldl (fun acc d => i64 (i64 (acc * 10) + (d.toNat - 48 : Nat))) 0
        if negative then i64 (-value) else value
  | _ => default

example : getString (ascii "\x7b\"model\" : \"a\\nb\"\x7d") (ascii "model") = ascii "a\nb" := by
  decide +kernel

/-- The reader copies every byte other than quote and backslash. -/
def Copies (f : Bytes → Bytes) : Prop :=
  ∀ c s, c ≠ quote → c ≠ backslash → f (c :: s) = c :: f s

theorem Copies.append {f : Bytes → Bytes} (h : Copies f) {u : Bytes} (hquote : quote ∉ u)
    (hslash : backslash ∉ u) (s : Bytes) : f (u ++ s) = u ++ f s := by
  induction u with
  | nil => rfl
  | cons c u ih =>
    rw [List.mem_cons, not_or] at hquote hslash
    rw [List.cons_append, h c _ (Ne.symm hquote.1) (Ne.symm hslash.1), ih hquote.2 hslash.2,
      List.cons_append]

theorem copies_unescape : Copies unescape := by
  intro c s hquote hslash
  cases s <;> simp [unescape, hquote, hslash]

theorem unescape_quote (s : Bytes) : unescape (quote :: s) = [] := by
  cases s <;> simp [unescape]

end TKNC.Gateway
