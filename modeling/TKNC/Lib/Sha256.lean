import TKNC.Lib.ByteOrder

/-!
# Sha256 — the hash function

SHA-256 over byte strings.  Words are numbers below `2 ^ 32`; the message schedule is kept newest
word first.
-/

namespace TKNC.Lib.Sha256

open ByteOrder Numeral

/-! ## Words -/

def add (x y : Nat) : Nat :=
  (x + y) % 2 ^ 32

def rotr (n x : Nat) : Nat :=
  (x >>> n) ||| ((x <<< (32 - n)) % 2 ^ 32)

def ch (x y z : Nat) : Nat :=
  (x &&& y) ^^^ ((x ^^^ 0xffffffff) &&& z)

def maj (x y z : Nat) : Nat :=
  (x &&& y) ^^^ (x &&& z) ^^^ (y &&& z)

def bigSigma0 (x : Nat) : Nat :=
  rotr 2 x ^^^ rotr 13 x ^^^ rotr 22 x

def bigSigma1 (x : Nat) : Nat :=
  rotr 6 x ^^^ rotr 11 x ^^^ rotr 25 x

def smallSigma0 (x : Nat) : Nat :=
  rotr 7 x ^^^ rotr 18 x ^^^ (x >>> 3)

def smallSigma1 (x : Nat) : Nat :=
  rotr 17 x ^^^ rotr 19 x ^^^ (x >>> 10)

def roundConstants : List Nat :=
  [0x428a2f98, 0x71374491, 0xb5c0fbcf, 0xe9b5dba5, 0x3956c25b, 0x59f111f1, 0x923f82a4, 0xab1c5ed5,
   0xd807aa98, 0x12835b01, 0x243185be, 0x550c7dc3, 0x72be5d74, 0x80deb1fe, 0x9bdc06a7, 0xc19bf174,
   0xe49b69c1, 0xefbe4786, 0x0fc19dc6, 0x240ca1cc, 0x2de92c6f, 0x4a7484aa, 0x5cb0a9dc, 0x76f988da,
   0x983e5152, 0xa831c66d, 0xb00327c8, 0xbf597fc7, 0xc6e00bf3, 0xd5a79147, 0x06ca6351, 0x14292967,
   0x27b70a85, 0x2e1b2138, 0x4d2c6dfc, 0x53380d13, 0x650a7354, 0x766a0abb, 0x81c2c92e, 0x92722c85,
   0xa2bfe8a1, 0xa81a664b, 0xc24b8b70, 0xc76c51a3, 0xd192e819, 0xd6990624, 0xf40e3585, 0x106aa070,
   0x19a4c116, 0x1e376c08, 0x2748774c, 0x34b0bcb5, 0x391c0cb3, 0x4ed8aa4a, 0x5b9cca4f, 0x682e6ff3,
   0x748f82ee, 0x78a5636f, 0x84c87814, 0x8cc70208, 0x90befffa, 0xa4506ceb, 0xbef9a3f7, 0xc67178f2]

def nextWord (schedule : List Nat) : Nat :=
  add (add (smallSigma1 (schedule.getD 1 0)) (schedule.getD 6 0))
    (add (smallSigma0 (schedule.getD 14 0)) (schedule.getD 15 0))

def extend : Nat → List Nat → List Nat
  | 0, schedule => schedule
  | n + 1, schedule => extend n (nextWord schedule :: schedule)

structure State where
  a : Nat
  b : Nat
  c : Nat
  d : Nat
  e : Nat
  f : Nat
  g : Nat
  h : Nat

def initial : State where
  a := 0x6a09e667
  b := 0xbb67ae85
  c := 0x3c6ef372
  d := 0xa54ff53a
  e := 0x510e527f
  f := 0x9b05688c
  g := 0x1f83d9ab
  h := 0x5be0cd19

def round (s : State) (k w : Nat) : State :=
  let t1 := add (add s.h (bigSigma1 s.e)) (add (add (ch s.e s.f s.g) k) w)
  let t2 := add (bigSigma0 s.a) (maj s.a s.b s.c)
  { a := add t1 t2, b := s.a, c := s.b, d := s.c, e := add s.d t1, f := s.e, g := s.f, h := s.g }

def compress (s : State) (block : List Nat) : State :=
  let schedule := (extend 48 block.reverse).reverse
  let t := (roundConstants.zip schedule).foldl (fun t kw => round t kw.1 kw.2) s
  { a := add s.a t.a, b := add s.b t.b, c := add s.c t.c, d := add s.d t.d
    e := add s.e t.e, f := add s.f t.f, g := add s.g t.g, h := add s.h t.h }

/-- A one bit, zeros up to eight bytes before the end of a block, and the length in bits. -/
def pad (message : Bytes) : Bytes :=
  message ++ 128 :: List.replicate ((119 - message.length % 64) % 64) 0 ++
    (leBytes 8 (8 * message.length)).reverse

def words : Bytes → List Nat
  | a :: b :: c :: d :: rest =>
      (((a.toNat * 256 + b.toNat) * 256 + c.toNat) * 256 + d.toNat) :: words rest
  | _ => []

def compressAll : Nat → State → List Nat → State
  | 0, s, _ => s
  | blocks + 1, s, ws => compressAll blocks (compress s (ws.take 16)) (ws.drop 16)

def sha256 (message : Bytes) : Bytes :=
  let ws := words (pad message)
  let s := compressAll (ws.length / 16) initial ws
  [s.a, s.b, s.c, s.d, s.e, s.f, s.g, s.h].flatMap fun w => (leBytes 4 w).reverse

def hash256 (message : Bytes) : Bytes :=
  sha256 (sha256 message)

/-- HMAC with this hash function: a key that is longer than a block is hashed first. -/
def hmac (key message : Bytes) : Bytes :=
  let key := if key.length ≤ 64 then key else sha256 key
  let block := key ++ List.replicate (64 - key.length) 0
  sha256 (block.map (· ^^^ 0x5c) ++ sha256 (block.map (· ^^^ 0x36) ++ message))

theorem length_sha256 (message : Bytes) : (sha256 message).length = 32 := by
  simp [sha256]

example : (sha256 (ascii "abc")).flatMap (fun b => toHex 2 b.toNat) =
    ascii "ba7816bf8f01cfea414140de5dae2223b00361a396177a9cb410ff61f20015ad" := by
  decide +kernel

example : (hmac (ascii "Jefe") (ascii "what do ya want for nothing?")).flatMap
      (fun b => toHex 2 b.toNat) =
    ascii "5bdcc146bf60754e6a042426089575c75a003f089d2739839dec58b964ec3843" := by
  decide +kernel

end TKNC.Lib.Sha256
