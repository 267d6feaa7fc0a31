import TKNC.Lib.ByteOrder

/-!
# Wallet — what the billing code sees of the node's wallets

The wallet library is outside this development.  A wallet is modelled by the answers that the
billing code gets from it: whether it is locked, which scripts it owns, the transactions it knows,
its balance, its address book, and what creating and committing a transaction yields.  Each call of
the billing code is given the wallets as they are at that moment, so nothing is assumed about how
they change between calls.

A destination is identified with its output script.
-/

namespace TKNC.Wallet

open Lib.ByteOrder Lib.MachineInt Lib.Numeral

abbrev Txid : Type := BitVec 256

def getHex (txid : Txid) : Bytes :=
  (leBytes 32 txid.toNat).reverse.flatMap fun b => toHex 2 b.toNat

def parsePairs : Bytes → Option Bytes
  | [] => some []
  | [_] => none
  | a :: b :: rest => do
      let high ← hexValue a
      let low ← hexValue b
      let bytes ← parsePairs rest
      some (UInt8.ofNat (16 * high + low) :: bytes)

/-- `uint256::FromHex`: exactly sixty-four hexadecimal digits of either case, the last byte first. -/
def fromHex (s : Bytes) : Option Txid :=
  if s.length = 64 then
    (parsePairs s).map fun bytes => BitVec.ofNat 256 (leValue bytes.reverse)
  else none

theorem getHex_ne_nil (txid : Txid) : getHex txid ≠ [] := by
  intro hnil
  have hdigits := List.flatMap_eq_nil_iff.1 hnil
  have hlast : UInt8.ofNat txid.toNat ∈ (leBytes 32 txid.toNat).reverse :=
    List.mem_reverse.2 List.mem_cons_self
  cases congrArg List.length (hdigits _ hlast)

theorem hexValue_of_mem_getHex {txid : Txid} {b : UInt8} (hmem : b ∈ getHex txid) :
    hexValue b ≠ none := by
  obtain ⟨byte, _, hdigit⟩ := List.mem_flatMap.1 hmem
  rcases mem_toHex hdigit with ⟨d, hd, rfl⟩
  simp [hexValue_hexByte hd]

abbrev Script : Type := Bytes

structure CTxOut where
  nValue : Int
  scriptPubKey : Script
  deriving DecidableEq, Repr

structure CWalletTx where
  depth : Int
  vout : List CTxOut
  deriving DecidableEq, Repr

inductive AddressPurpose where
  | receive
  | send
  | refund
  deriving DecidableEq, Repr

structure AddressBookEntry where
  dest : Script
  isChange : Bool
  purpose : Option AddressPurpose
  deriving DecidableEq, Repr

structure CRecipient where
  dest : Script
  nAmount : Int
  fSubtractFeeFromAmount : Bool
  deriving DecidableEq, Repr

structure CWallet where
  isLocked : Bool
  isMine : Script → Bool
  mapWallet : Txid → Option CWalletTx
  mineTrusted : Int
  mineUntrustedPending : Int
  addressBook : List AddressBookEntry
  /-- A fresh address of the default type, if the wallet can make one. -/
  getNewDestination : Option Script
  /-- The id of the transaction that is created, signed and committed for a recipient, with the
  given change destination; `none` if creation fails. -/
  createTransaction : CRecipient → Option Script → Option Txid

/-- The part of the node that the billing code reads.  `walletCtx` is absent until the wallets are
registered; a slot of the list can be null. -/
structure NodeContext where
  walletCtx : Option (List (Option CWallet))
  /-- `none` stands for a string that is no valid address. -/
  decodeDestination : Bytes → Option Script
  decode_nil : decodeDestination [] = none
  encodeDestination : Script → Bytes
  getTime : Int

/-! ## Lookup -/

def firstLoaded (wallets : List (Option CWallet)) : Option CWallet :=
  wallets.findSome? id

def findWalletByAddress (node : NodeContext) (address : Bytes) : Option CWallet :=
  match node.walletCtx with
  | none => none
  | some wallets =>
      -- No address, or an invalid one: any wallet.
      if address = [] then firstLoaded wallets
      else
        match node.decodeDestination address with
        | none => firstLoaded wallets
        | some dest =>
            match wallets.findSome? (fun w => w.filter (·.isMine dest)) with
            | some w => some w
            -- Address not owned by any loaded wallet: any wallet as fallback.
            | none => firstLoaded wallets

def NodeContext.loaded (node : NodeContext) : List CWallet :=
  (node.walletCtx.getD []).filterMap id

/-- Some loaded wallet owns the destination. -/
def NodeContext.Owned (node : NodeContext) (dest : Script) : Prop :=
  ∃ w ∈ node.loaded, w.isMine dest = true

def NodeContext.fallback (node : NodeContext) : Option CWallet :=
  node.walletCtx.bind firstLoaded

variable {node : NodeContext}

theorem mem_loaded {w : CWallet} :
    w ∈ node.loaded ↔ ∃ wallets, node.walletCtx = some wallets ∧ some w ∈ wallets := by
  cases hctx : node.walletCtx <;> simp [NodeContext.loaded, hctx]

variable {address : Bytes}

theorem findWalletByAddress_of_owned {dest : Script}
    (hdest : node.decodeDestination address = some dest) (howned : node.Owned dest) :
    ∃ w, findWalletByAddress node address = some w ∧ w.isMine dest = true := by
  have haddr : address ≠ [] := by
    rintro rfl
    rw [node.decode_nil] at hdest
    cases hdest
  rcases howned with ⟨w, hw, hmine⟩
  rcases mem_loaded.1 hw with ⟨wallets, hctx, hmem⟩
  -- the search for an owner succeeds, though perhaps with another owner than `w`
  cases hfind : wallets.findSome? (fun w => w.filter (·.isMine dest)) with
  | none =>
    have hno := List.findSome?_eq_none_iff.1 hfind (some w) hmem
    simp [hmine] at hno
  | some w' =>
    rcases List.exists_of_findSome?_eq_some hfind with ⟨slot, _, hslot⟩
    refine ⟨w', by simp [findWalletByAddress, hctx, haddr, hdest, hfind], ?_⟩
    exact (Option.filter_eq_some_iff.1 hslot).2

theorem findWalletByAddress_of_not_owned {dest : Script}
    (hdest : node.decodeDestination address = some dest) (howned : ¬ node.Owned dest) :
    findWalletByAddress node address = node.fallback := by
  cases hctx : node.walletCtx with
  | none => simp [findWalletByAddress, NodeContext.fallback, hctx]
  | some wallets =>
    have hnone : wallets.findSome? (fun w => w.filter (·.isMine dest)) = none := by
      rw [List.findSome?_eq_none_iff]
      intro slot hslot
      rw [Option.filter_eq_none_iff]
      intro w hw hmine
      exact howned ⟨w, mem_loaded.2 ⟨wallets, hctx, hw ▸ hslot⟩, hmine⟩
    by_cases haddr : address = [] <;>
      simp [findWalletByAddress, NodeContext.fallback, hctx, haddr, hdest, hnone]

theorem loaded_of_findWalletByAddress {w : CWallet}
    (h : findWalletByAddress node address = some w) :
    w ∈ node.loaded := by
  cases hctx : node.walletCtx with
  | none => simp [findWalletByAddress, hctx] at h
  | some wallets =>
    -- every search of the lookup runs through the slots of the list
    have hfirst : firstLoaded wallets = some w → w ∈ node.loaded := by
      intro hfound
      rcases List.exists_of_findSome?_eq_some hfound with ⟨slot, hslot, hsome⟩
      exact mem_loaded.2 ⟨wallets, hctx, show some w ∈ wallets from hsome ▸ hslot⟩
    simp only [findWalletByAddress, hctx] at h
    split at h
    · exact hfirst h
    · split at h
      · exact hfirst h
      · split at h
        · rename_i dest _ w' hfound
          cases h
          rcases List.exists_of_findSome?_eq_some hfound with ⟨slot, hslot, hsome⟩
          have hslot' : slot = some w := (Option.filter_eq_some_iff.1 hsome).1
          exact mem_loaded.2 ⟨wallets, hctx, hslot' ▸ hslot⟩
        · exact hfirst h

/-! ## Balance, confirmation, transfer -/

def CWallet.available (w : CWallet) : Int :=
  i64 (w.mineTrusted + w.mineUntrustedPending)

def isTxConfirmedOnChain (txidStr : Bytes) (pwallet : CWallet) : Bool :=
  if txidStr = [] then false
  else
    match fromHex txidStr with
    | none => false
    | some txid =>
        match pwallet.mapWallet txid with
        | none => false
        | some tx => decide (tx.depth ≥ 1)

def CWallet.receiveAddress (w : CWallet) : Option Script :=
  (w.addressBook.find? (fun e => !e.isChange && e.purpose = some .receive)).map (·.dest)

def changeDestination (node : NodeContext) (w : CWallet) (fromAddress : Bytes) : Option Script :=
  -- Change goes back to the paying address if the wallet owns it.
  let fromDest := if fromAddress = [] then none else node.decodeDestination fromAddress
  match fromDest.filter w.isMine with
  | some dest => some dest
  | none =>
      match w.receiveAddress with
      | some dest => some dest
      | none => w.getNewDestination

/-- The id of the committed transaction, or `none` if no transfer is made. -/
def transferFromWallet (node : NodeContext) (pwallet : CWallet) (toAddress : Bytes) (amount : Int)
    (subtractFee : Bool) (fromAddress : Bytes) : Option Txid :=
  if pwallet.isLocked then none
  else
    match node.decodeDestination toAddress with
    | none => none
    | some dest =>
        pwallet.createTransaction ⟨dest, amount, subtractFee⟩
          (changeDestination node pwallet fromAddress)

def CWallet.owning (scripts : List Script) : CWallet :=
  { isLocked := false
    isMine := fun script => decide (script ∈ scripts)
    mapWallet := fun _ => none
    mineTrusted := 0
    mineUntrustedPending := 0
    addressBook := []
    getNewDestination := none
    createTransaction := fun _ _ => none }

def knownTxs (txids : List Txid) (tx : CWalletTx) (txid : Txid) : Option CWalletTx :=
  if txid ∈ txids then some tx else none

def NodeContext.ofWallets (wallets : List CWallet) : NodeContext :=
  { walletCtx := some (wallets.map some)
    decodeDestination := fun address => if address = [] then none else some address
    decode_nil := rfl
    encodeDestination := id
    getTime := 0 }

end TKNC.Wallet
