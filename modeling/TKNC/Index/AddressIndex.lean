import TKNC.Lib.KeyValueStore
import TKNC.Validation.ConnectBlock

/-!
# AddressIndex — unspent outputs by script hash

The index has two key spaces in one ordered store: the unspent outputs under the hash of their
script, and the script hash under the outpoint.  `CustomAppend` writes the outputs of a block and
removes what the block spends; it finds the script hash of a spent output in the store as it was
before the block.

`Mirrors` is the meaning of the store: both key spaces hold the coins and nothing else.  A turnover
of the coins is mirrored by `CustomAppend`.
-/

namespace TKNC.Index

open Lib Lib.ByteOrder Lib.Fallible Primitives Validation Wallet OrderedMap List Option Prod

abbrev UInt160 : Type := BitVec 160

inductive DBKey where
  | address (scriptHash : UInt160) (outpoint : COutPoint)
  | outpoint (outpoint : COutPoint)
  deriving Repr

structure DBAddressValue where
  amount : Int
  height : Int
  coinbase : Bool
  deriving DecidableEq, Repr

inductive DBValue where
  | address (value : DBAddressValue)
  | scriptHash (hash : UInt160)
  deriving DecidableEq, Repr

/-- The letter `a` and the script hash: how the address keys of a script begin. -/
def addressStart (scriptHash : UInt160) : List Nat :=
  0x61 :: littleEndian 20 scriptHash.toNat

def outpointBytes (outpoint : COutPoint) : List Nat :=
  littleEndian 32 outpoint.hash.toNat ++ littleEndian 4 outpoint.n.toNat

def DBKey.serialized : DBKey → List Nat
  | .address scriptHash o => addressStart scriptHash ++ outpointBytes o
  | .outpoint o => 0x6f :: outpointBytes o

theorem addressStart_inj {h h' : UInt160} (heq : addressStart h = addressStart h') : h = h' := by
  apply BitVec.eq_of_toNat_eq
  exact littleEndian_inj h.isLt h'.isLt (cons.inj heq).2

theorem outpointBytes_inj {o o' : COutPoint} (heq : outpointBytes o = outpointBytes o') : o = o' := by
  rcases append_inj heq (by simp) with ⟨hhash, hn⟩
  apply COutPoint.ext
  · exact BitVec.eq_of_toNat_eq (littleEndian_inj o.hash.isLt o'.hash.isLt hhash)
  · exact UInt32.toNat_inj.1 (littleEndian_inj o.n.toNat_lt o'.n.toNat_lt hn)

theorem DBKey.serialized_injective : Function.Injective DBKey.serialized := by
  intro k k' heq
  cases k with
  | address h o =>
    cases k' with
    | address h' o' =>
      rcases append_inj heq (by simp [addressStart]) with ⟨hstart, hbytes⟩
      rw [addressStart_inj hstart, outpointBytes_inj hbytes]
    | outpoint o' => cases (cons.inj heq).1
  | outpoint o =>
    cases k' with
    | address h' o' => cases (cons.inj heq).1
    | outpoint o' => rw [outpointBytes_inj (cons.inj heq).2]

instance : LinearOrder DBKey :=
  LinearOrder.lift' DBKey.serialized DBKey.serialized_injective

abbrev IndexDB : Type := OrderedMap DBKey DBValue

/-! ## Appending a block -/

section Append

variable (hash160 : Script → UInt160)

def outputEntries (height : Int) (tx : CTransaction) (output : CTxOut × Nat) :
    List (DBKey × DBValue) :=
  if isUnspendable output.1.scriptPubKey then []
  else
    [(.address (hash160 output.1.scriptPubKey) (tx.outPoint output.2),
        .address ⟨output.1.nValue, height, tx.isCoinBase⟩),
      (.outpoint (tx.outPoint output.2), .scriptHash (hash160 output.1.scriptPubKey))]

def newEntries (height : Int) (vtx : List CTransaction) : List (DBKey × DBValue) :=
  vtx.flatMap fun tx => tx.vout.zipIdx.flatMap (outputEntries hash160 height tx)

def spentEntry (db : IndexDB) (prevout : COutPoint) : List DBKey :=
  match db.get? (.outpoint prevout) with
  | some (.scriptHash scriptHash) => [.address scriptHash prevout, .outpoint prevout]
  | _ => []

/-- The second phase: keys to remove.  The store is read as it is before the batch. -/
def spentKeys (db : IndexDB) (vtx : List CTransaction) : List DBKey :=
  vtx.flatMap fun tx =>
    if tx.isCoinBase then [] else tx.vin.flatMap fun input => spentEntry db input.prevout

def customAppend (height : Int) (block : CBlock) (db : IndexDB) : IndexDB :=
  if height = 0 then db
  else
    db.writeBatch ((newEntries hash160 height block.vtx).map (fun e => .write e.1 e.2) ++
      (spentKeys db block.vtx).map .erase)

end Append

structure AddressUTXO where
  txid : Txid
  vout : UInt32
  value : Int
  height : Int
  coinbase : Bool
  deriving DecidableEq, Repr

def AddressUTXO.outPoint (utxo : AddressUTXO) : COutPoint :=
  { hash := utxo.txid
    n := utxo.vout }

def hasScriptHash (scriptHash : UInt160) : DBKey → Bool
  | .address scriptHash' _ => scriptHash' = scriptHash
  | .outpoint _ => false

/-- An entry of the scan; an address key never holds a value of the other kind. -/
def toUTXO : DBKey × DBValue → Option AddressUTXO
  | (.address _ outpoint, .address value) =>
      some ⟨outpoint.hash, outpoint.n, value.amount, value.height, value.coinbase⟩
  | _ => none

/-- Seek to the beginning of the keys of a script, and read on while they are of that script. -/
def findAddressUTXOs (db : IndexDB) (scriptHash : UInt160) : Option (List AddressUTXO) :=
  (db.scan (fun k => k.serialized < addressStart scriptHash) (hasScriptHash scriptHash)).mapM toUTXO

theorem hasScriptHash_iff {h : UInt160} {k : DBKey} :
    hasScriptHash h k = true ↔ addressStart h <+: k.serialized := by
  cases k with
  | address h' o =>
    rw [hasScriptHash, decide_eq_true_eq, DBKey.serialized]
    constructor
    · rintro rfl
      exact ⟨outpointBytes o, rfl⟩
    · rintro ⟨rest, heq⟩
      exact (addressStart_inj (append_inj heq (by simp [addressStart])).1).symm
  | outpoint o =>
    rw [hasScriptHash, DBKey.serialized]
    constructor
    · nofun
    · rintro ⟨rest, heq⟩
      cases (cons.inj heq).1

theorem isRange_hasScriptHash (h : UInt160) :
    OrderedMap.IsRange (fun k : DBKey => decide (k.serialized < addressStart h))
      (hasScriptHash h) where
  down k k' hlt hbefore := by
    have hlt' : k.serialized < k'.serialized := hlt
    exact decide_eq_true (lt_trans hlt' (of_decide_eq_true hbefore))
  above k hin := decide_eq_false (not_lt_of_beginsWith (hasScriptHash_iff.1 hin))
  first k k' hlt hbefore hin :=
    hasScriptHash_iff.2
      (beginsWith_of_lt (of_decide_eq_false hbefore) hlt (hasScriptHash_iff.1 hin))

/-! ## The batch in terms of coins -/

section Batch

variable (hash160 : Script → UInt160)

def coinHash (coin : Coin) : UInt160 :=
  hash160 coin.out.scriptPubKey

def coinValue (coin : Coin) : DBValue :=
  .address ⟨coin.out.nValue, coin.nHeight, coin.fCoinBase⟩

def coinEntries (e : COutPoint × Coin) : List (DBKey × DBValue) :=
  [(.address (coinHash hash160 e.2) e.1, coinValue e.2),
    (.outpoint e.1, .scriptHash (coinHash hash160 e.2))]

theorem newEntries_eq (height : Int) (vtx : List CTransaction) :
    newEntries hash160 height vtx = (created height vtx).flatMap (coinEntries hash160) := by
  have houtputs : ∀ tx outputs, outputs.flatMap (outputEntries hash160 height tx) =
      (coinsOf tx height outputs).flatMap (coinEntries hash160) := by
    intro tx outputs
    induction outputs with
    | nil => rfl
    | cons output outputs ih =>
      rw [flatMap_cons, ih]
      by_cases hspendable : isUnspendable output.1.scriptPubKey = true
      · simp [outputEntries, coinsOf, spendable, hspendable]
      · simp [outputEntries, coinsOf, spendable, hspendable, coinEntries, coinHash, coinValue]
  simp only [newEntries, created, createdBy, houtputs, flatMap_assoc]

theorem spentKeys_eq (db : IndexDB) (vtx : List CTransaction) :
    spentKeys db vtx = (spent vtx).flatMap (spentEntry db) := by
  rw [spentKeys, spent, flatMap_assoc]
  congr 1
  funext tx
  unfold spentBy CTransaction.prevouts
  split
  · rfl
  · rw [flatMap_map]

section Writes

variable {hash160} {coins : List (COutPoint × Coin)} (db : IndexDB) {o : COutPoint} {coin : Coin}
  {h : UInt160}

def withCoins (hash160 : Script → UInt160) (coins : List (COutPoint × Coin)) (db : IndexDB) :
    IndexDB :=
  db.writeBatch ((coins.flatMap (coinEntries hash160)).map fun e => .write e.1 e.2)

theorem mem_keys_coinEntries {k : DBKey} :
    k ∈ (coins.flatMap (coinEntries hash160)).map fst ↔
      ∃ e ∈ coins, k = .address (coinHash hash160 e.2) e.1 ∨ k = .outpoint e.1 := by
  rw [map_flatMap]
  simp [coinEntries]

theorem nodup_keys_coinEntries (hnodup : (coins.map fst).Nodup) :
    ((coins.flatMap (coinEntries hash160)).map fst).Nodup := by
  induction coins with
  | nil => exact nodup_nil
  | cons e coins ih =>
    rw [map_cons, nodup_cons] at hnodup
    rw [flatMap_cons, map_append, nodup_append]
    refine ⟨by simp [coinEntries], ih hnodup.2, ?_⟩
    -- a common key would be of one outpoint
    intro k hmem k' hmem' heq
    subst heq
    rcases mem_keys_coinEntries.1 hmem' with ⟨e', he', hk⟩
    have hsame : e.1 = e'.1 := by
      simp only [coinEntries, map_cons, map_nil, mem_cons, not_mem_nil,
        or_false] at hmem
      rcases hmem with rfl | rfl
      · rcases hk with hk | hk
        · exact (DBKey.address.inj hk).2
        · cases hk
      · rcases hk with hk | hk
        · cases hk
        · exact DBKey.outpoint.inj hk
    exact hnodup.1 (hsame ▸ mem_map_of_mem he')

theorem get?_outpoint_of_created (hnodup : (coins.map fst).Nodup) (hmem : (o, coin) ∈ coins) :
    (withCoins hash160 coins db).get? (.outpoint o) =
      some (.scriptHash (coinHash hash160 coin)) := by
  apply get?_writeBatch_of_mem db (nodup_keys_coinEntries hnodup)
  exact mem_flatMap.2 ⟨(o, coin), hmem, by simp [coinEntries]⟩

theorem get?_address_of_created (hnodup : (coins.map fst).Nodup) (hmem : (o, coin) ∈ coins) :
    (withCoins hash160 coins db).get? (.address (coinHash hash160 coin) o) =
      some (coinValue coin) := by
  apply get?_writeBatch_of_mem db (nodup_keys_coinEntries hnodup)
  exact mem_flatMap.2 ⟨(o, coin), hmem, by simp [coinEntries]⟩

theorem get?_address_of_other (hother : ∀ coin, (o, coin) ∈ coins → coinHash hash160 coin ≠ h) :
    (withCoins hash160 coins db).get? (.address h o) = db.get? (.address h o) := by
  apply get?_writeBatch_of_notMem
  rw [mem_keys_coinEntries]
  rintro ⟨⟨o', coin⟩, hmem, heq | heq⟩
  · cases heq
    exact hother coin hmem rfl
  · cases heq

theorem get?_outpoint_of_other (hother : o ∉ coins.map fst) :
    (withCoins hash160 coins db).get? (.outpoint o) = db.get? (.outpoint o) := by
  apply get?_writeBatch_of_notMem
  rw [mem_keys_coinEntries]
  rintro ⟨⟨o', coin⟩, hmem, heq | heq⟩
  · cases heq
  · cases heq
    exact hother (mem_map_of_mem hmem)

end Writes

end Batch

theorem mem_spentEntry {db : IndexDB} {o : COutPoint} {k : DBKey} :
    k ∈ spentEntry db o ↔
      ∃ h, db.get? (.outpoint o) = some (.scriptHash h) ∧
        (k = .address h o ∨ k = .outpoint o) := by
  unfold spentEntry
  split
  · rename_i h hget
    simp [hget]
  · rename_i hnone
    simp only [not_mem_nil, false_iff]
    rintro ⟨h, hget, _⟩
    exact hnone h hget

/-! ## The index mirrors the coins -/

structure Mirrors (hash160 : Script → UInt160) (db : IndexDB) (view : CoinsView) : Prop where
  outpoint : ∀ o, db.get? (.outpoint o) =
    (view o).map fun coin => .scriptHash (coinHash hash160 coin)
  address : ∀ h o, db.get? (.address h o) =
    ((view o).filter fun coin => coinHash hash160 coin = h).map coinValue

section Mirrors

variable {hash160 : Script → UInt160} {db : IndexDB} {view view' : CoinsView}

theorem mirrors_empty : Mirrors hash160 empty fun _ => none where
  outpoint _ := rfl
  address _ _ := rfl

theorem Mirrors.mem_spentKeys (h : Mirrors hash160 db view) {vtx : List CTransaction} {k : DBKey} :
    k ∈ spentKeys db vtx ↔ ∃ o ∈ spent vtx, ∃ coin, view o = some coin ∧
      (k = .address (coinHash hash160 coin) o ∨ k = .outpoint o) := by
  rw [spentKeys_eq, mem_flatMap]
  constructor
  · rintro ⟨o, hspent, hmem⟩
    rcases mem_spentEntry.1 hmem with ⟨scriptHash, hget, hk⟩
    rw [h.outpoint] at hget
    rcases map_eq_some_iff.1 hget with ⟨coin, hcoin, heq⟩
    cases heq
    exact ⟨o, hspent, coin, hcoin, hk⟩
  · rintro ⟨o, hspent, coin, hcoin, hk⟩
    refine ⟨o, hspent, mem_spentEntry.2 ⟨coinHash hash160 coin, ?_, hk⟩⟩
    rw [h.outpoint, hcoin, map_some]

theorem Mirrors.notMem_spentKeys (h : Mirrors hash160 db view) {vtx : List CTransaction}
    {o : COutPoint} (hkept : o ∉ spent vtx) :
    .outpoint o ∉ spentKeys db vtx ∧ ∀ scriptHash, .address scriptHash o ∉ spentKeys db vtx := by
  constructor
  · intro hmem
    rcases h.mem_spentKeys.1 hmem with ⟨o', hspent, coin, _, hk | hk⟩
    · cases hk
    · cases hk
      exact hkept hspent
  · intro scriptHash hmem
    rcases h.mem_spentKeys.1 hmem with ⟨o', hspent, coin, _, hk | hk⟩
    · cases hk
      exact hkept hspent
    · cases hk

theorem get?_customAppend {height : Int} (hheight : height ≠ 0) (block : CBlock) (k : DBKey) :
    (customAppend hash160 height block db).get? k =
      if k ∈ spentKeys db block.vtx then none
      else (withCoins hash160 (created height block.vtx) db).get? k := by
  rw [customAppend, if_neg hheight, writeBatch_append, get?_writeBatch_erase,
    newEntries_eq, withCoins]

theorem Mirrors.customAppend (h : Mirrors hash160 db view) {height : Int} (hheight : height ≠ 0)
    {block : CBlock}
    (hturn : Turnover (created height block.vtx) (spent block.vtx) view view')
    (hown : ∀ o ∈ (created height block.vtx).map fst, o ∉ spent block.vtx) :
    Mirrors hash160 (customAppend hash160 height block db) view' where
  outpoint := by
    intro o
    rw [get?_customAppend hheight]
    by_cases hcreated : o ∈ (created height block.vtx).map fst
    · have hkept := h.notMem_spentKeys (hown o hcreated)
      rcases mem_map.1 hcreated with ⟨⟨_, coin⟩, hmem, rfl⟩
      rw [if_neg hkept.1, get?_outpoint_of_created db hturn.nodup hmem, hturn.after_of_mem hmem,
        map_some]
    · rw [get?_outpoint_of_other db hcreated, h.outpoint]
      by_cases hspent : o ∈ spent block.vtx
      · rw [hturn.after_of_spent hcreated hspent]
        cases hview : view o with
        | none => simp
        | some coin => exact if_pos (h.mem_spentKeys.2 ⟨o, hspent, coin, hview, Or.inr rfl⟩)
      · rw [if_neg (h.notMem_spentKeys hspent).1, hturn.after_of_kept hcreated hspent]
  address := by
    intro scriptHash o
    rw [get?_customAppend hheight]
    by_cases hcreated : o ∈ (created height block.vtx).map fst
    · have hkept := h.notMem_spentKeys (hown o hcreated)
      rcases mem_map.1 hcreated with ⟨⟨_, coin⟩, hmem, rfl⟩
      rw [if_neg (hkept.2 scriptHash), hturn.after_of_mem hmem]
      by_cases hhash : coinHash hash160 coin = scriptHash
      · subst hhash
        rw [get?_address_of_created db hturn.nodup hmem]
        simp
      · -- the outpoint was free before, under every script hash
        rw [get?_address_of_other db, h.address, hturn.fresh _ hcreated]
        · simp [hhash]
        · intro coin' hmem'
          have hsame := (hturn.after_of_mem hmem).symm.trans (hturn.after_of_mem hmem')
          exact some.inj hsame ▸ hhash
    · rw [get?_address_of_other db fun coin hmem => absurd (mem_map_of_mem hmem) hcreated,
        h.address]
      by_cases hspent : o ∈ spent block.vtx
      · rw [hturn.after_of_spent hcreated hspent]
        cases hview : view o with
        | none => simp
        | some coin =>
          by_cases hhash : coinHash hash160 coin = scriptHash
          · subst hhash
            exact if_pos (h.mem_spentKeys.2 ⟨o, hspent, coin, hview, Or.inl rfl⟩)
          · simp [hhash]
      · rw [if_neg ((h.notMem_spentKeys hspent).2 scriptHash), hturn.after_of_kept hcreated hspent]

end Mirrors

/-! ## Queries of an index that mirrors the coins -/

/-- The query returns the coins of the script, each once, with value, height and coinbase flag. -/
structure Lists (hash160 : Script → UInt160) (view : CoinsView) (scriptHash : UInt160)
    (utxos : List AddressUTXO) : Prop where
  once : (utxos.map AddressUTXO.outPoint).Nodup
  mem_iff : ∀ utxo, utxo ∈ utxos ↔ ∃ coin, view utxo.outPoint = some coin ∧
    coinHash hash160 coin = scriptHash ∧ utxo.value = coin.out.nValue ∧
    utxo.height = coin.nHeight ∧ utxo.coinbase = coin.fCoinBase

def utxoEntry (scriptHash : UInt160) (utxo : AddressUTXO) : DBKey × DBValue :=
  (.address scriptHash utxo.outPoint, .address ⟨utxo.value, utxo.height, utxo.coinbase⟩)

theorem toUTXO_eq_some_iff {scriptHash : UInt160} {e : DBKey × DBValue} {utxo : AddressUTXO} :
    hasScriptHash scriptHash e.1 = true ∧ toUTXO e = some utxo ↔ e = utxoEntry scriptHash utxo := by
  constructor
  · rintro ⟨hkey, hutxo⟩
    rcases e with ⟨_ | _, _ | _⟩
    · cases of_decide_eq_true hkey
      cases hutxo
      rfl
    · cases hutxo
    · cases hutxo
    · cases hutxo
  · rintro rfl
    exact ⟨decide_eq_true rfl, rfl⟩

section Queries

variable {hash160 : Script → UInt160} {db : IndexDB} {view : CoinsView}

theorem Mirrors.utxoEntry_mem_iff (h : Mirrors hash160 db view) {scriptHash : UInt160}
    {utxo : AddressUTXO} :
    utxoEntry scriptHash utxo ∈ db.entries ↔ ∃ coin, view utxo.outPoint = some coin ∧
      coinHash hash160 coin = scriptHash ∧ utxo.value = coin.out.nValue ∧
      utxo.height = coin.nHeight ∧ utxo.coinbase = coin.fCoinBase := by
  rw [utxoEntry, ← get?_eq_some_iff, h.address, map_eq_some_iff]
  constructor
  · rintro ⟨coin, hcoin, hvalue⟩
    rcases filter_eq_some_iff.1 hcoin with ⟨hview, hhash⟩
    simp only [coinValue, DBValue.address.injEq, DBAddressValue.mk.injEq] at hvalue
    exact ⟨coin, hview, of_decide_eq_true hhash, hvalue.1.symm, hvalue.2.1.symm, hvalue.2.2.symm⟩
  · rintro ⟨coin, hview, hhash, hvalue, hheight, hcoinbase⟩
    refine ⟨coin, filter_eq_some_iff.2 ⟨hview, decide_eq_true hhash⟩, ?_⟩
    rw [coinValue, hvalue, hheight, hcoinbase]

/-- An address key holds an address value. -/
theorem Mirrors.toUTXO_isSome (h : Mirrors hash160 db view) {scriptHash : UInt160}
    {e : DBKey × DBValue} (hmem : e ∈ db.entries) (hkey : hasScriptHash scriptHash e.1 = true) :
    ∃ utxo, toUTXO e = some utxo := by
  rcases e with ⟨_ | _, value⟩
  · have hget := get?_eq_some_iff.2 hmem
    rw [h.address] at hget
    rcases map_eq_some_iff.1 hget with ⟨coin, _, rfl⟩
    exact ⟨_, rfl⟩
  · cases hkey

theorem Mirrors.findAddressUTXOs (h : Mirrors hash160 db view) (scriptHash : UInt160) :
    ∃ utxos, findAddressUTXOs db scriptHash = some utxos ∧
      Lists hash160 view scriptHash utxos := by
  refine ⟨(db.entries.filter fun e => hasScriptHash scriptHash e.1).filterMap toUTXO, ?_, ?_, ?_⟩
  · rw [Index.findAddressUTXOs, scan_eq_filter (isRange_hasScriptHash scriptHash)]
    apply mapM_eq_filterMap
    intro e hmem
    rcases mem_filter.1 hmem with ⟨hentry, hkey⟩
    exact h.toUTXO_isSome hentry hkey
  · -- different keys of one script hash have different outpoints
    rw [List.Nodup, pairwise_map, pairwise_filterMap, pairwise_filter]
    apply db.sorted.imp
    intro e e' hlt hkey hkey' utxo hutxo utxo' hutxo' heq
    have he := toUTXO_eq_some_iff.1 ⟨hkey, hutxo⟩
    have he' := toUTXO_eq_some_iff.1 ⟨hkey', hutxo'⟩
    rw [he, he', utxoEntry, utxoEntry, heq] at hlt
    exact lt_irrefl _ hlt
  · intro utxo
    rw [← h.utxoEntry_mem_iff, mem_filterMap]
    constructor
    · rintro ⟨e, hmem, hutxo⟩
      rcases mem_filter.1 hmem with ⟨hentry, hkey⟩
      exact toUTXO_eq_some_iff.1 ⟨hkey, hutxo⟩ ▸ hentry
    · intro hentry
      rcases toUTXO_eq_some_iff.2 (Eq.refl (utxoEntry scriptHash utxo)) with ⟨hkey, hutxo⟩
      exact ⟨utxoEntry scriptHash utxo, mem_filter.2 ⟨hentry, hkey⟩, hutxo⟩

end Queries

end TKNC.Index
