import TKNC.Index.IndexSync

/-!
# BlockDisconnect — removing a block from the address index

`CustomRemove` writes the coins that a block spent, taken from the undo data of the block, and then
erases the outputs of the block.  It is the inverse of `CustomAppend` on an index that mirrors the
coins before the block (`customRemove_customAppend`), for every block that can be connected.  A
block may spend its own outputs: `CustomAppend` leaves their entries in the store, `CustomRemove`
writes them once more and erases them.

The undo data are those of `ConnectBlock`: for every transaction but the coinbase the coins of its
inputs, as they are when the transaction is connected.
-/

namespace TKNC.Index

open Lib Lib.Fallible Primitives Validation Wallet OrderedMap List Option

/-- The loop over the inputs in `UpdateCoins`: each coin is moved into the undo data; `none` where
the coin is not there. -/
def spendInputs : CoinsView → List COutPoint → Option (List Coin)
  | _, [] => some []
  | inputs, prevout :: prevouts => do
      let coin ← inputs prevout
      let vprevout ← spendInputs (spendCoin inputs prevout) prevouts
      some (coin :: vprevout)

section Undo

variable (rules : Rules) (nHeight : Int)

def undoOfTransactions : Progress → List CTransaction → Option (List (List Coin))
  | _, [] => some []
  | progress, tx :: vtx => do
      let txundo ← spendInputs progress.view tx.prevouts
      let progress ← (connectTransaction rules nHeight progress tx).toOption
      let vtxundo ← undoOfTransactions progress vtx
      some (txundo :: vtxundo)

def blockUndo (view : CoinsView) (block : CBlock) : Option (List (List Coin)) :=
  match block.vtx with
  | [] => none
  | coinbase :: others => do
      let progress ← (connectTransaction rules nHeight ⟨view, 0, 0⟩ coinbase).toOption
      undoOfTransactions rules nHeight progress others

end Undo

/-! ## Removing a block -/

section Remove

variable (hash160 : Script → UInt160)

def restoredEntry (prevout : COutPoint) (coin : Coin) : List (DBKey × DBValue) :=
  if isUnspendable coin.out.scriptPubKey then []
  else
    [(.address (hash160 coin.out.scriptPubKey) prevout,
        .address ⟨coin.out.nValue, coin.nHeight, coin.fCoinBase⟩),
      (.outpoint prevout, .scriptHash (hash160 coin.out.scriptPubKey))]

/-- The first phase: spent coins to restore.  `none` where the assertion about the sizes fails, or
`vtxundo` is read behind its end. -/
def restoredEntries : List CTransaction → List (List Coin) → Option (List (DBKey × DBValue))
  | [], _ => some []
  | _ :: _, [] => none
  | tx :: vtx, txundo :: vtxundo =>
      if txundo.length = tx.vin.length then
        (restoredEntries vtx vtxundo).map fun entries =>
          (tx.prevouts.zip txundo).flatMap (fun e => restoredEntry hash160 e.1 e.2) ++ entries
      else none

def outputKeys (tx : CTransaction) (output : CTxOut × Nat) : List DBKey :=
  if isUnspendable output.1.scriptPubKey then []
  else
    [.address (hash160 output.1.scriptPubKey) (tx.outPoint output.2),
      .outpoint (tx.outPoint output.2)]

def createdKeys (vtx : List CTransaction) : List DBKey :=
  vtx.flatMap fun tx => tx.vout.zipIdx.flatMap (outputKeys hash160 tx)

def customRemove (height : Int) (block : CBlock) (undoData : Option (List (List Coin)))
    (db : IndexDB) : Option IndexDB :=
  -- the outputs of the genesis block are not indexed
  if height = 0 then some db
  else do
    let vtxundo ← undoData
    let restored ← restoredEntries hash160 block.vtx.tail vtxundo
    some (db.writeBatch (restored.map (fun e => .write e.1 e.2) ++
      (createdKeys hash160 block.vtx).map .erase))

end Remove

/-! ## Where the coins of the undo data come from -/

variable {view : CoinsView}

theorem spendCoin_eq_some {prevout o : COutPoint} {coin : Coin}
    (h : spendCoin view prevout o = some coin) : view o = some coin := by
  rw [spendCoin] at h
  by_cases ho : o = prevout
  · rw [ho, Function.update_self] at h
    cases h
  · rwa [Function.update_of_ne ho] at h

theorem foldl_spendCoin_eq_some {prevouts : List COutPoint} {o : COutPoint} {coin : Coin}
    (h : prevouts.foldl spendCoin view o = some coin) : view o = some coin := by
  induction prevouts generalizing view with
  | nil => exact h
  | cons prevout prevouts ih => exact spendCoin_eq_some (ih h)

theorem spendInputs_eq_some {inputs : CoinsView} {prevouts : List COutPoint} {vprevout : List Coin}
    (h : spendInputs inputs prevouts = some vprevout) :
    vprevout.length = prevouts.length ∧
      ∀ e ∈ prevouts.zip vprevout, inputs e.1 = some e.2 := by
  induction prevouts generalizing inputs vprevout with
  | nil =>
    cases h
    exact ⟨rfl, nofun⟩
  | cons prevout prevouts ih =>
    simp only [spendInputs, bind_eq_bind, bind_eq_some_iff,
      some.injEq] at h
    obtain ⟨coin, hcoin, rest, hrest, rfl⟩ := h
    obtain ⟨hlength, hcoins⟩ := ih hrest
    refine ⟨by rw [length_cons, length_cons, hlength], ?_⟩
    rw [zip_cons_cons, forall_mem_cons]
    exact ⟨hcoin, fun e hmem => spendCoin_eq_some (hcoins e hmem)⟩

section Origin

variable {nHeight : Int} {view view' : CoinsView} {o : COutPoint} {coin : Coin}

theorem addCoin_eq_some {coin' : Coin} {outpoint : COutPoint} {possibleOverwrite : Bool}
    (h : addCoin view outpoint coin' possibleOverwrite = .ok view') (hcoin : view' o = some coin) :
    view o = some coin ∨
      (o, coin) = (outpoint, coin') ∧ isUnspendable coin'.out.scriptPubKey = false := by
  unfold addCoin at h
  split at h
  · cases h
    exact Or.inl hcoin
  · next hspendable =>
      split at h
      · cases h
      · cases h
        by_cases ho : o = outpoint
        · rw [ho, Function.update_self] at hcoin
          cases hcoin
          exact Or.inr ⟨by rw [ho], by simpa using hspendable⟩
        · rw [Function.update_of_ne ho] at hcoin
          exact Or.inl hcoin

theorem addOutputs_eq_some {tx : CTransaction} {outputs : List (CTxOut × Nat)}
    (h : addOutputs tx nHeight view outputs = .ok view') (hcoin : view' o = some coin) :
    view o = some coin ∨ (o, coin) ∈ coinsOf tx nHeight outputs := by
  induction outputs generalizing view with
  | nil =>
    cases h
    exact Or.inl hcoin
  | cons output outputs ih =>
    obtain ⟨mid, hadd, hrest⟩ := bind_eq_ok.1 h
    rcases ih hrest with hmid | hmem
    · rcases addCoin_eq_some hadd hmid with hold | ⟨hnew, hspendable⟩
      · exact Or.inl hold
      · right
        rw [hnew]
        simp [coinsOf, spendable, hspendable]
    · right
      exact ((sublist_cons_self _ _).filter _).map _ |>.subset hmem

theorem updateCoins_eq_some {tx : CTransaction} (h : updateCoins tx view nHeight = .ok view')
    (hcoin : view' o = some coin) : view o = some coin ∨ (o, coin) ∈ createdBy nHeight tx := by
  unfold updateCoins addCoins at h
  split at h
  · exact addOutputs_eq_some h hcoin
  · rcases addOutputs_eq_some h hcoin with hold | hnew
    · exact Or.inl (foldl_spendCoin_eq_some hold)
    · exact Or.inr hnew

end Origin

def undone (vtx : List CTransaction) (vtxundo : List (List Coin)) : List (COutPoint × Coin) :=
  (vtx.zip vtxundo).flatMap fun p => p.1.prevouts.zip p.2

/-- Every input has a coin in the undo data. -/
def Sized (vtx : List CTransaction) (vtxundo : List (List Coin)) : Prop :=
  List.Forall₂ (fun tx txundo => txundo.length = tx.vin.length) vtx vtxundo

theorem undoOfTransactions_eq_some {rules : Rules} {nHeight : Int} {progress : Progress}
    {vtx : List CTransaction} {vtxundo : List (List Coin)}
    (h : undoOfTransactions rules nHeight progress vtx = some vtxundo) :
    Sized vtx vtxundo ∧ ∀ e ∈ undone vtx vtxundo,
      progress.view e.1 = some e.2 ∨ e ∈ created nHeight vtx := by
  induction vtx generalizing progress vtxundo with
  | nil =>
    cases h
    exact ⟨.nil, nofun⟩
  | cons tx vtx ih =>
    simp only [undoOfTransactions, bind_eq_bind, bind_eq_some_iff,
      some.injEq] at h
    obtain ⟨txundo, hspent, progress', hconnect, rest, hrest, rfl⟩ := h
    obtain ⟨hlength, hcoins⟩ := spendInputs_eq_some hspent
    obtain ⟨hsized, hlater⟩ := ih hrest
    refine ⟨.cons (by rw [hlength, CTransaction.prevouts, length_map]) hsized, ?_⟩
    have hupdate := connectTransaction_eq_ok (toOption_eq_some.1 hconnect)
    intro e hmem
    rw [undone, zip_cons_cons, flatMap_cons, mem_append] at hmem
    rw [created, flatMap_cons, mem_append]
    rcases hmem with hmem | hmem
    · exact Or.inl (hcoins e hmem)
    · -- what a later transaction spends may be an output of this one
      rcases hlater e hmem with hview | hnew
      · rcases updateCoins_eq_some hupdate hview with hold | hmine
        · exact Or.inl hold
        · exact Or.inr (Or.inl hmine)
      · exact Or.inr (Or.inr hnew)

/-- The undo data of a block: the inputs behind the coinbase, with coins of the view or of the
block. -/
theorem blockUndo_eq_some {rules : Rules} {nHeight : Int} {block : CBlock}
    {vtxundo : List (List Coin)} (h : blockUndo rules nHeight view block = some vtxundo) :
    Sized block.vtx.tail vtxundo ∧ ∀ e ∈ undone block.vtx.tail vtxundo,
      view e.1 = some e.2 ∨ e ∈ created nHeight block.vtx := by
  unfold blockUndo at h
  split at h
  · cases h
  · next coinbase others hvtx =>
      simp only [bind_eq_bind, bind_eq_some_iff] at h
      obtain ⟨progress, hconnect, hundo⟩ := h
      have hupdate := connectTransaction_eq_ok (toOption_eq_some.1 hconnect)
      obtain ⟨hsized, horigin⟩ := undoOfTransactions_eq_some hundo
      rw [hvtx, tail_cons]
      refine ⟨hsized, ?_⟩
      intro e hmem
      rw [created, flatMap_cons, mem_append]
      rcases horigin e hmem with hview | hnew
      · rcases updateCoins_eq_some hupdate hview with hold | hmine
        · exact Or.inl hold
        · exact Or.inr (Or.inl hmine)
      · exact Or.inr (Or.inr hnew)

section Batch

variable {hash160 : Script → UInt160} {vtx : List CTransaction} {vtxundo : List (List Coin)}

theorem map_fst_undone (h : Sized vtx vtxundo) :
    (undone vtx vtxundo).map Prod.fst = vtx.flatMap CTransaction.prevouts := by
  induction h with
  | nil => rfl
  | cons hlength _ ih =>
    rw [undone, zip_cons_cons, flatMap_cons, map_append, flatMap_cons,
      map_fst_zip]
    · exact congrArg _ ih
    · rw [hlength, CTransaction.prevouts, length_map]

theorem restoredEntries_eq (h : Sized vtx vtxundo)
    (hspendable : ∀ e ∈ undone vtx vtxundo, isUnspendable e.2.out.scriptPubKey = false) :
    restoredEntries hash160 vtx vtxundo =
      some ((undone vtx vtxundo).flatMap (coinEntries hash160)) := by
  induction h with
  | nil => rfl
  | cons hlength _ ih =>
    simp only [undone, zip_cons_cons, flatMap_cons, forall_mem_append]
      at hspendable ⊢
    rw [restoredEntries, if_pos hlength, ih hspendable.2, map_some, flatMap_append]
    congr 2
    apply flatMap_congr
    intro e hmem
    simp [restoredEntry, hspendable.1 e hmem, coinEntries, coinHash, coinValue]

theorem createdKeys_eq (nHeight : Int) :
    createdKeys hash160 vtx = (newEntries hash160 nHeight vtx).map Prod.fst := by
  simp only [createdKeys, newEntries, map_flatMap]
  congr 1
  funext tx
  congr 1
  funext output
  unfold outputKeys outputEntries
  split <;> rfl

theorem mem_createdKeys (nHeight : Int) {k : DBKey} :
    k ∈ createdKeys hash160 vtx ↔
      ∃ e ∈ created nHeight vtx, k = .address (coinHash hash160 e.2) e.1 ∨ k = .outpoint e.1 := by
  rw [createdKeys_eq nHeight, newEntries_eq, mem_keys_coinEntries]

end Batch

/-! ## The inverse -/

section Inverse

variable {hash160 : Script → UInt160} {db : IndexDB} {view : CoinsView}

variable {e : COutPoint × Coin}

theorem Mirrors.get?_of_coin (h : Mirrors hash160 db view) (hcoin : view e.1 = some e.2)
    {entry : DBKey × DBValue} (hentry : entry ∈ coinEntries hash160 e) :
    db.get? entry.1 = some entry.2 := by
  simp only [coinEntries, mem_cons, not_mem_nil, or_false] at hentry
  rcases hentry with rfl | rfl
  · rw [h.address, hcoin]
    simp
  · rw [h.outpoint, hcoin, map_some]

theorem Mirrors.get?_of_free (h : Mirrors hash160 db view) (hfree : view e.1 = none) {k : DBKey}
    (hk : k = .address (coinHash hash160 e.2) e.1 ∨ k = .outpoint e.1) : db.get? k = none := by
  rcases hk with rfl | rfl
  · rw [h.address, hfree]
    rfl
  · rw [h.outpoint, hfree]
    rfl

variable {nHeight : Int} {block : CBlock} {vtxundo : List (List Coin)}

theorem Mirrors.get?_of_undone (h : Mirrors hash160 db view)
    (horigin : ∀ e ∈ undone block.vtx.tail vtxundo,
      view e.1 = some e.2 ∨ e ∈ created nHeight block.vtx)
    (hmem : e ∈ undone block.vtx.tail vtxundo) {entry : DBKey × DBValue}
    (hentry : entry ∈ coinEntries hash160 e) (hkey : entry.1 ∉ createdKeys hash160 block.vtx) :
    db.get? entry.1 = some entry.2 := by
  rcases horigin e hmem with hold | hmine
  · exact h.get?_of_coin hold hentry
  · have hnew : entry.1 ∈ (newEntries hash160 nHeight block.vtx).map Prod.fst := by
      rw [newEntries_eq]
      exact mem_map_of_mem (mem_flatMap_of_mem hmine hentry)
    exact absurd (createdKeys_eq nHeight ▸ hnew) hkey

theorem Mirrors.notMem_spentKeys_of_notWritten (h : Mirrors hash160 db view)
    (hfree : ∀ o ∈ (created nHeight block.vtx).map Prod.fst, view o = none)
    (hspent : spent block.vtx = block.vtx.tail.flatMap CTransaction.prevouts)
    (hsized : Sized block.vtx.tail vtxundo)
    (horigin : ∀ e ∈ undone block.vtx.tail vtxundo,
      view e.1 = some e.2 ∨ e ∈ created nHeight block.vtx) {k : DBKey}
    (hwritten : k ∉
      ((undone block.vtx.tail vtxundo).flatMap (coinEntries hash160)).map Prod.fst) :
    k ∉ spentKeys db block.vtx := by
  intro hmem
  obtain ⟨o, ho, coin, hcoin, hk⟩ := h.mem_spentKeys.1 hmem
  rw [hspent, ← map_fst_undone hsized] at ho
  obtain ⟨⟨_, coin'⟩, he, rfl⟩ := mem_map.1 ho
  rcases horigin _ he with hold | hmine
  · -- the undo data have the coin of the view itself
    cases hold.symm.trans hcoin
    exact hwritten (mem_keys_coinEntries.2 ⟨_, he, hk⟩)
  · rw [hfree _ (mem_map_of_mem hmine)] at hcoin
    cases hcoin

/-- The inverse law for a block whose outputs are new and whose undo data give a coin of the view
or of the block for every input. -/
theorem customRemove_customAppend (h : Mirrors hash160 db view) (hheight : nHeight ≠ 0)
    (hspendable : ∀ o coin, view o = some coin → isUnspendable coin.out.scriptPubKey = false)
    (hfree : ∀ o ∈ (created nHeight block.vtx).map Prod.fst, view o = none)
    (hspent : spent block.vtx = block.vtx.tail.flatMap CTransaction.prevouts)
    (hsized : Sized block.vtx.tail vtxundo)
    (horigin : ∀ e ∈ undone block.vtx.tail vtxundo,
      view e.1 = some e.2 ∨ e ∈ created nHeight block.vtx) :
    customRemove hash160 nHeight block (some vtxundo)
      (customAppend hash160 nHeight block db) = some db := by
  have hrestored : restoredEntries hash160 block.vtx.tail vtxundo =
      some ((undone block.vtx.tail vtxundo).flatMap (coinEntries hash160)) := by
    apply restoredEntries_eq hsized
    intro e hmem
    rcases horigin e hmem with hview | hnew
    · exact hspendable e.1 e.2 hview
    · exact (created_spendable hnew).2
  rw [customRemove, if_neg hheight]
  simp only [hrestored, bind_eq_bind, bind_some, some.injEq]
  apply ext_get?
  intro k
  rw [writeBatch_append, get?_writeBatch_erase]
  by_cases hcreated : k ∈ createdKeys hash160 block.vtx
  · -- the keys of the block were not in the store before
    obtain ⟨e, hmem, hk⟩ := (mem_createdKeys nHeight).1 hcreated
    rw [if_pos hcreated, h.get?_of_free (hfree e.1 (mem_map_of_mem hmem)) hk]
  · rw [if_neg hcreated]
    by_cases hwritten : k ∈
        ((undone block.vtx.tail vtxundo).flatMap (coinEntries hash160)).map Prod.fst
    · -- every write of the key restores what the store held
      obtain ⟨entry, hentry, rfl⟩ := mem_map.1 hwritten
      obtain ⟨e, hmem, hentry⟩ := mem_flatMap.1 hentry
      have hold := h.get?_of_undone horigin hmem hentry hcreated
      rw [hold]
      apply get?_writeBatch_of_agree _ hwritten
      intro entry' hentry' hk'
      obtain ⟨e', hmem', hentry'⟩ := mem_flatMap.1 hentry'
      have hold' := h.get?_of_undone horigin hmem' hentry' (hk' ▸ hcreated)
      rw [hk', hold] at hold'
      exact (some.inj hold').symm
    · -- neither of the two batches has the key
      have hkept := h.notMem_spentKeys_of_notWritten hfree hspent hsized horigin hwritten
      rw [get?_writeBatch_of_notMem _ hwritten, get?_customAppend hheight,
        if_neg hkept, withCoins, ← newEntries_eq]
      apply get?_writeBatch_of_notMem
      rwa [← createdKeys_eq]

end Inverse

/-! ## Blocks that are connected -/

section Connected

variable {rules : Rules} {hash160 : Script → UInt160} {nHeight : Int} {view view' : CoinsView}
  {block : CBlock} {vtxundo : List (List Coin)} {db : IndexDB}

theorem spendInputs_of_have {inputs : CoinsView} {prevouts : List COutPoint}
    (hnodup : prevouts.Nodup) (hhave : ∀ o ∈ prevouts, haveCoin inputs o = true) :
    ∃ vprevout, spendInputs inputs prevouts = some vprevout := by
  induction prevouts generalizing inputs with
  | nil => exact ⟨[], rfl⟩
  | cons prevout prevouts ih =>
    obtain ⟨hfirst, hrest⟩ := forall_mem_cons.1 hhave
    obtain ⟨hnotMem, hnodup⟩ := nodup_cons.1 hnodup
    obtain ⟨coin, hcoin⟩ := isSome_iff_exists.1 hfirst
    have hstill : ∀ o ∈ prevouts, haveCoin (spendCoin inputs prevout) o = true := by
      intro o hmem
      have hne : o ≠ prevout := fun heq => hnotMem (heq ▸ hmem)
      rw [haveCoin, spendCoin, Function.update_of_ne hne]
      exact hrest o hmem
    obtain ⟨vprevout, hvprevout⟩ := ih hnodup hstill
    exact ⟨coin :: vprevout, by simp [spendInputs, hcoin, hvprevout]⟩

theorem have_of_connectTransaction {progress progress' : Progress} {tx : CTransaction}
    (h : connectTransaction rules nHeight progress tx = .ok progress')
    (hcoinbase : tx.isCoinBase = false) : ∀ o ∈ tx.prevouts, haveCoin progress.view o = true := by
  obtain ⟨nFees, hfees, _⟩ := bind_eq_ok.1 h
  rw [hcoinbase, cond_false] at hfees
  obtain ⟨fee, hfee, _⟩ := bind_eq_ok.1 hfees
  have hinputs := withMessage_eq_ok.1 hfee
  unfold checkTxInputs at hinputs
  split at hinputs
  · next hall => simpa [hcoinbase] using hall
  · cases hinputs

theorem nodup_prevouts {tx : CTransaction} (h : checkTransaction tx = .ok ()) :
    tx.prevouts.Nodup := by
  by_contra hdouble
  unfold checkTransaction at h
  split at h
  · cases h
  · split at h
    · cases h
    · split at h
      · cases h
      · obtain ⟨_, _, hprevouts⟩ := bind_eq_ok.1 h
        rw [checkPrevouts, if_pos hdouble] at hprevouts
        cases hprevouts

theorem undoOfTransactions_of_connected {progress progress' : Progress} {vtx : List CTransaction}
    (h : connectTransactions rules nHeight progress vtx = .ok progress')
    (hcoinbase : ∀ tx ∈ vtx, tx.isCoinBase = false)
    (hcheck : ∀ tx ∈ vtx, checkTransaction tx = .ok ()) :
    ∃ vtxundo, undoOfTransactions rules nHeight progress vtx = some vtxundo := by
  induction vtx generalizing progress with
  | nil => exact ⟨[], rfl⟩
  | cons tx vtx ih =>
    obtain ⟨hfirst, hothers⟩ := forall_mem_cons.1 hcoinbase
    obtain ⟨hcheckFirst, hcheckOthers⟩ := forall_mem_cons.1 hcheck
    obtain ⟨mid, hmid, hrest⟩ := bind_eq_ok.1 h
    obtain ⟨txundo, htxundo⟩ := spendInputs_of_have (nodup_prevouts hcheckFirst)
      (have_of_connectTransaction hmid hfirst)
    obtain ⟨vtxundo, hvtxundo⟩ := ih hrest hothers hcheckOthers
    exact ⟨txundo :: vtxundo, by
      simp [undoOfTransactions, htxundo, toOption_eq_some.2 hmid, hvtxundo]⟩

theorem blockUndo_of_connected (hheight : nHeight ≠ 0)
    (h : connectBlock rules nHeight view block = .ok view') :
    ∃ vtxundo, blockUndo rules nHeight view block = some vtxundo := by
  obtain ⟨hcheck, _, progress, hprogress, _⟩ := connectBlock_eq_ok hheight h
  obtain ⟨coinbase, others, hvtx, _, hothers, htxs⟩ := checkBlock_eq_ok hcheck
  rw [hvtx] at hprogress htxs
  obtain ⟨mid, hmid, hrest⟩ := bind_eq_ok.1 hprogress
  obtain ⟨vtxundo, hvtxundo⟩ :=
    undoOfTransactions_of_connected hrest hothers (forall_mem_cons.1 htxs).2
  exact ⟨vtxundo, by simp [blockUndo, hvtx, toOption_eq_some.2 hmid, hvtxundo]⟩

theorem spent_eq_of_checkBlock (h : checkBlock rules block = .ok ()) :
    spent block.vtx = block.vtx.tail.flatMap CTransaction.prevouts := by
  obtain ⟨coinbase, others, hvtx, hcoinbase, hothers, _⟩ := checkBlock_eq_ok h
  rw [hvtx, spent, flatMap_cons, tail_cons, spentBy, if_pos hcoinbase, nil_append]
  apply flatMap_congr
  intro tx hmem
  rw [spentBy, hothers tx hmem]
  rfl

/-- Removing a block from the index restores the store, whether or not the block spends outputs of
its own. -/
theorem customRemove_undoes_customAppend (hmirrors : Mirrors hash160 db view)
    (hspendable : ∀ o coin, view o = some coin → isUnspendable coin.out.scriptPubKey = false)
    (hconnect : connectBlock rules nHeight view block = .ok view')
    (hundo : blockUndo rules nHeight view block = some vtxundo) :
    customRemove hash160 nHeight block (some vtxundo)
      (customAppend hash160 nHeight block db) = some db := by
  by_cases hheight : nHeight = 0
  · rw [customRemove, if_pos hheight, customAppend, if_pos hheight]
  · obtain ⟨hcheck, hover, _⟩ := connectBlock_eq_ok hheight hconnect
    obtain ⟨hsized, horigin⟩ := blockUndo_eq_some hundo
    apply customRemove_customAppend hmirrors hheight hspendable _ (spent_eq_of_checkBlock hcheck)
      hsized horigin
    intro o hmem
    rw [map_fst_created, mem_flatMap] at hmem
    obtain ⟨tx, htx, ho⟩ := hmem
    exact free_of_not_overwrites hover htx o ho

/-- The reward is moved twice, the second time from an output of the same block. -/
theorem customRemove_undoes_moveTwice :
    SpendsOwn moveTwiceBlock ∧
      ∃ vtxundo, blockUndo openRules 2 rewardCoins moveTwiceBlock = some vtxundo ∧
        customRemove firstByte 2 moveTwiceBlock (some vtxundo)
          (customAppend firstByte 2 moveTwiceBlock rewardState.index) = some rewardState.index := by
  obtain ⟨coins, hconnect, _⟩ := connect_moveTwiceBlock
  obtain ⟨vtxundo, hundo⟩ := blockUndo_of_connected (by decide) hconnect
  have hgood : EventMachine.GoodRun (connectTip openRules firstByte)
      (fun _ block => ¬ SpendsOwn block) .start [genesisBlock, rewardBlock] :=
    ⟨by decide, by decide, trivial⟩
  have hsync : InSync firstByte rewardState := by
    rw [← run_rewardBlock]
    exact EventMachine.GoodRun.invariant (fun _ _ hs hown => hs.connectTip hown) inSync_start hgood
  refine ⟨by decide, vtxundo, hundo, ?_⟩
  exact customRemove_undoes_customAppend hsync.mirrors
    (fun o coin hcoin => (hsync.spendable o coin hcoin).2) hconnect hundo

end Connected

end TKNC.Index
