import TKNC.Arith.ArithUint256
import TKNC.Chain.BlockIndex
import TKNC.Lib.ByteOrder
import TKNC.Lib.HashChain
import TKNC.Lib.Sha256

/-!
# BlockHeader — the eighty bytes of a header, their hash and their work

The whole header of `primitives/block.h`, with the form in which header synchronisation stores it:
without the hash of the previous block.  A `uint256` is a number, its first byte the least
significant.
-/

namespace TKNC.Primitives

open Arith Lib Lib.ByteOrder Lib.HashChain Lib.Numeral

abbrev Uint256 : Type := BitVec 256

structure CBlockHeader extends Chain.CBlockHeader where
  hashPrevBlock : Uint256
  hashMerkleRoot : Uint256
  nNonce : BitVec 32
  deriving DecidableEq, Repr

namespace CBlockHeader

def serialize (header : CBlockHeader) : Bytes :=
  leBytes 4 header.nVersion.toNat ++ leBytes 32 header.hashPrevBlock.toNat ++
    leBytes 32 header.hashMerkleRoot.toNat ++ leBytes 4 header.nTime.toNat ++
    leBytes 4 header.nBits.toNat ++ leBytes 4 header.nNonce.toNat

/-- No proof looks into the hash. -/
@[irreducible]
def getHash (header : CBlockHeader) : Uint256 :=
  BitVec.ofNat 256 (leValue (Sha256.hash256 header.serialize))

def null : CBlockHeader where
  nVersion := 0
  hashPrevBlock := 0
  hashMerkleRoot := 0
  nTime := 0
  nBits := 0
  nNonce := 0

end CBlockHeader

structure CompressedHeader where
  nVersion : BitVec 32
  hashMerkleRoot : Uint256
  nTime : BitVec 32
  nBits : BitVec 32
  nNonce : BitVec 32
  deriving DecidableEq, Repr

namespace CompressedHeader

def ofHeader (header : CBlockHeader) : CompressedHeader where
  nVersion := header.nVersion
  hashMerkleRoot := header.hashMerkleRoot
  nTime := header.nTime
  nBits := header.nBits
  nNonce := header.nNonce

def getFullHeader (header : CompressedHeader) (hashPrevBlock : Uint256) : CBlockHeader where
  nVersion := header.nVersion
  hashPrevBlock := hashPrevBlock
  hashMerkleRoot := header.hashMerkleRoot
  nTime := header.nTime
  nBits := header.nBits
  nNonce := header.nNonce

end CompressedHeader

def headerLink : Link CBlockHeader CompressedHeader Uint256 where
  hash := CBlockHeader.getHash
  prev := CBlockHeader.hashPrevBlock
  strip := CompressedHeader.ofHeader
  attach hash header := header.getFullHeader hash
  attach_strip _ := rfl

/-! ## Work -/

def getBitsProof (bits : BitVec 32) : ArithUint256 :=
  let bnTarget := setCompact bits
  if bnTarget.fNegative ∨ bnTarget.fOverflow ∨ bnTarget.value = 0 then
    0
  else if bnTarget.value ≥ ~~~0#256 then
    1
  else
    let result := ~~~bnTarget.value / (bnTarget.value + 1) + 1
    if result = 0 then 1 else result

def getBlockProof (header : CBlockHeader) : ArithUint256 :=
  getBitsProof header.nBits

end TKNC.Primitives
