import TKNC.Lib.Numeral

/-!
# UniValue — the JSON values that the miner's server reads

Values as `UniValue::read` builds them, with the getters that throw on a value of another type.  A
number keeps its text.  An integer is also read from a string; `ParseDouble` is a parameter.
-/

namespace TKNC.Miner

open Lib.MachineInt Lib.Numeral

inductive VType where
  | vnull
  | vobj
  | varr
  | vstr
  | vnum
  | vbool
  deriving DecidableEq

inductive UniValue where
  | null
  | bool (val : Bool)
  | num (val : Bytes)
  | str (val : Bytes)
  | arr (values : List UniValue)
  | obj (members : List (Bytes × UniValue))

namespace UniValue

inductive Error where
  | typeError (actual expected : VType)
  | integerOutOfRange
  | doubleOutOfRange
  deriving DecidableEq

def type : UniValue → VType
  | null => .vnull
  | bool _ => .vbool
  | num _ => .vnum
  | str _ => .vstr
  | arr _ => .varr
  | obj _ => .vobj

def findKey (key : Bytes) : UniValue → Option UniValue
  | obj members => (members.find? fun member => member.1 = key).map Prod.snd
  | _ => none

def existsKey (v : UniValue) (key : Bytes) : Bool :=
  (v.findKey key).isSome

def item (v : UniValue) (key : Bytes) : UniValue :=
  (v.findKey key).getD null

def getStr : UniValue → Except Error Bytes
  | str val => .ok val
  | v => .error (.typeError v.type .vstr)

/-- `std::from_chars` of a signed integer of `w` bits that has to take the whole text: no blanks and
no plus sign. -/
def fromChars (w : Nat) (val : Bytes) : Option Int :=
  let negative := val.head? = some 45
  let digits := if negative then val.drop 1 else val
  let value : Int := if negative then -(digitsValue digits : Int) else digitsValue digits
  if digits ≠ [] ∧ digits.all isDigit ∧ Fits w value then some value else none

def getInt (w : Nat) : UniValue → Except Error Int
  | num val => (fromChars w val).elim (.error .integerOutOfRange) .ok
  | str val => (fromChars w val).elim (.error .integerOutOfRange) .ok
  | v => .error (.typeError v.type .vnum)

def getReal {Double : Type} (parseDouble : Bytes → Option Double) : UniValue → Except Error Double
  | num val => (parseDouble val).elim (.error .doubleOutOfRange) .ok
  | v => .error (.typeError v.type .vnum)

def getOr {α : Type} (get : UniValue → Except Error α) (m : UniValue) (key : String) (d : α) :
    Except Error α :=
  if m.existsKey (ascii key) then get (m.item (ascii key)) else .ok d

end UniValue

end TKNC.Miner
