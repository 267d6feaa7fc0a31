import TKNC.Wallet.Wallet

/-!
# Transaction — outpoints, transactions and blocks

A transaction carries its id as a field, as the source does.  Nothing is assumed about how ids are
computed: two transactions may have the same one.
-/

namespace TKNC.Primitives

open Lib.Numeral Wallet

def opReturn : UInt8 := 0x6a

def maxScriptSize : Nat := 10000

def isUnspendable (script : Script) : Bool :=
  script.head? = some opReturn || script.length > maxScriptSize

@[ext] structure COutPoint where
  hash : Txid
  n : UInt32
  deriving DecidableEq, Repr

def COutPoint.isNull (outpoint : COutPoint) : Bool :=
  outpoint.hash = 0 && outpoint.n = 0xffffffff

structure CTxIn where
  prevout : COutPoint
  scriptSig : Script
  deriving DecidableEq, Repr

structure CTransaction where
  hash : Txid
  vin : List CTxIn
  vout : List CTxOut
  deriving DecidableEq, Repr

structure CBlock where
  vtx : List CTransaction
  deriving DecidableEq, Repr

namespace CTransaction

def isCoinBase (tx : CTransaction) : Bool :=
  match tx.vin with
  | [txin] => txin.prevout.isNull
  | _ => false

def prevouts (tx : CTransaction) : List COutPoint :=
  tx.vin.map CTxIn.prevout

/-- The outpoint of the output with index `i`; the index is narrowed to 32 bits. -/
def outPoint (tx : CTransaction) (i : Nat) : COutPoint :=
  { hash := tx.hash
    n := UInt32.ofNat i }

end CTransaction

def hashString (txid : Txid) : String :=
  String.ofList ((getHex txid).map fun b => Char.ofNat b.toNat)

/-! ## Serialised size, without witness -/

def getSizeOfCompactSize (nSize : Nat) : Nat :=
  if nSize < 253 then 1
  else if nSize ≤ 0xffff then 3
  else if nSize ≤ 0xffffffff then 5
  else 9

def scriptSize (script : Script) : Nat :=
  getSizeOfCompactSize script.length + script.length

def CTxIn.size (txin : CTxIn) : Nat :=
  36 + scriptSize txin.scriptSig + 4

def outSize (txOut : CTxOut) : Nat :=
  8 + scriptSize txOut.scriptPubKey

def CTransaction.size (tx : CTransaction) : Nat :=
  4 + (getSizeOfCompactSize tx.vin.length + (tx.vin.map CTxIn.size).sum) +
    (getSizeOfCompactSize tx.vout.length + (tx.vout.map outSize).sum) + 4

def CBlock.size (block : CBlock) : Nat :=
  80 + getSizeOfCompactSize block.vtx.length + (block.vtx.map CTransaction.size).sum

/-- A transaction cannot have more outputs than bytes. -/
theorem CTransaction.length_vout_le_size (tx : CTransaction) : tx.vout.length ≤ tx.size := by
  have hsum : tx.vout.length ≤ (tx.vout.map outSize).sum := by
    induction tx.vout with
    | nil => exact Nat.le_refl 0
    | cons txOut vout ih =>
      rw [List.length_cons, List.map_cons, List.sum_cons, outSize]
      omega
  unfold size
  omega

end TKNC.Primitives
