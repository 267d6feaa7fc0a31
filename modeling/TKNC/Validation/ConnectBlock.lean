import TKNC.Lib.Fallible
import TKNC.Validation.Coins

/-!
# ConnectBlock — the effect of a block on the coins

The checks that do not read the coins beyond a transaction's own inputs, such as proof of work,
signatures and lock times, are parameters: a block is connected if they pass as well.  The block
with height zero is the genesis block.

A block that spends none of its own outputs turns the coins over: it creates its spendable outputs
and spends its inputs, whatever their order.
-/

namespace TKNC.Validation

open Consensus Lib Lib.Fallible Primitives Wallet List

/-! ## Definitions -/

structure Rules where
  teamScript : Script
  /-- Header, signet solution and merkle root. -/
  checkHeader : CBlock → Except BlockError Unit
  getLegacySigOpCount : CTransaction → Nat
  getTransactionSigOpCost : CTransaction → CoinsView → Nat
  sequenceLocks : CTransaction → CoinsView → Int → Bool
  checkInputScripts : CTransaction → CoinsView → Except BlockError Unit

variable (rules : Rules)

def maxBlockSigopsCost : Nat := 80000

/-- A verdict on a transaction becomes one on the block; the message is extended. -/
def withMessage {α : Type} (message : String → String) (result : Except BlockError α) :
    Except BlockError α :=
  match result with
  | .error (.invalid rejectReason debugMessage) =>
      .error (.invalid rejectReason (message debugMessage))
  | other => other

def checkTransactions : List CTransaction → Except BlockError Unit
  | [] => .ok ()
  | tx :: vtx => do
      withMessage (fun debugMessage =>
        "Transaction check failed (tx hash " ++ hashString tx.hash ++ ") " ++ debugMessage)
        (checkTransaction tx)
      checkTransactions vtx

def checkBlock (block : CBlock) : Except BlockError Unit := do
  rules.checkHeader block
  match block.vtx with
  | [] => .error (.invalid "bad-blk-length" "size limits failed")
  | coinbase :: others =>
      if block.vtx.length * witnessScaleFactor > maxBlockWeight ∨
          block.size * witnessScaleFactor > maxBlockWeight then
        .error (.invalid "bad-blk-length" "size limits failed")
      else if ¬ coinbase.isCoinBase then
        .error (.invalid "bad-cb-missing" "first tx is not coinbase")
      else if others.any CTransaction.isCoinBase then
        .error (.invalid "bad-cb-multiple" "more than one coinbase")
      else do
        checkTransactions block.vtx
        if (block.vtx.map rules.getLegacySigOpCount).sum * witnessScaleFactor >
            maxBlockSigopsCost then
          .error (.invalid "bad-blk-sigops" "out-of-bounds SigOpCount")
        else
          .ok ()

structure Progress where
  view : CoinsView
  nFees : Int
  nSigOpsCost : Nat

def addFee (nHeight : Int) (progress : Progress) (tx : CTransaction) : Except BlockError Int := do
  let txfee ← withMessage (fun debugMessage =>
    debugMessage ++ " in transaction " ++ hashString tx.hash)
    (checkTxInputs tx progress.view nHeight)
  if ¬ moneyRange (progress.nFees + txfee) then
    .error (.invalid "bad-txns-accumulated-fee-outofrange"
      "accumulated fee in the block out of range")
  else if ¬ rules.sequenceLocks tx progress.view nHeight then
    .error (.invalid "bad-txns-nonfinal"
      ("contains a non-BIP68-final transaction " ++ hashString tx.hash))
  else
    .ok (progress.nFees + txfee)

def connectTransaction (nHeight : Int) (progress : Progress) (tx : CTransaction) :
    Except BlockError Progress := do
  let nFees ← bif tx.isCoinBase then .ok progress.nFees else addFee rules nHeight progress tx
  let nSigOpsCost := progress.nSigOpsCost + rules.getTransactionSigOpCost tx progress.view
  if nSigOpsCost > maxBlockSigopsCost then
    .error (.invalid "bad-blk-sigops" "too many sigops")
  else do
    bif tx.isCoinBase then .ok () else rules.checkInputScripts tx progress.view
    let view ← updateCoins tx progress.view nHeight
    .ok ⟨view, nFees, nSigOpsCost⟩

def connectTransactions (nHeight : Int) : Progress → List CTransaction → Except BlockError Progress
  | progress, [] => .ok progress
  | progress, tx :: vtx => do
      let progress ← connectTransaction rules nHeight progress tx
      connectTransactions nHeight progress vtx

/-- An output of the block is already there and unspent. -/
def overwrites (view : CoinsView) (block : CBlock) : Bool :=
  block.vtx.any fun tx => (List.range tx.vout.length).any fun o => haveCoin view (tx.outPoint o)

def connectBlock (nHeight : Int) (view : CoinsView) (block : CBlock) :
    Except BlockError CoinsView := do
  checkBlock rules block
  if nHeight = 0 then
    .ok view
  else if overwrites view block then
    .error (.invalid "bad-txns-BIP30" "tried to overwrite transaction")
  else do
    let progress ← connectTransactions rules nHeight ⟨view, 0, 0⟩ block.vtx
    orOverflow (checkCoinbase rules.teamScript nHeight progress.nFees
      ((block.vtx.head?.map CTransaction.vout).getD []))
    .ok progress.view

def created (nHeight : Int) (vtx : List CTransaction) : List (COutPoint × Coin) :=
  vtx.flatMap (createdBy nHeight)

def spent (vtx : List CTransaction) : List COutPoint :=
  vtx.flatMap spentBy

/-- A transaction of the block spends an output of the block. -/
def SpendsOwn (block : CBlock) : Prop :=
  ∃ outpoint ∈ block.vtx.flatMap outPointsOf, outpoint ∈ spent block.vtx

instance (block : CBlock) : Decidable (SpendsOwn block) := by
  unfold SpendsOwn
  infer_instance

theorem withMessage_eq_ok {α : Type} {message : String → String} {result : Except BlockError α}
    {a : α} : withMessage message result = .ok a ↔ result = .ok a := by
  unfold withMessage
  split
  · simp
  · rfl

variable {rules}

theorem checkTransactions_eq_ok {vtx : List CTransaction} (h : checkTransactions vtx = .ok ()) :
    ∀ tx ∈ vtx, checkTransaction tx = .ok () := by
  induction vtx with
  | nil => exact nofun
  | cons tx vtx ih =>
    rcases bind_eq_ok.1 h with ⟨_, hfirst, hrest⟩
    intro tx' hmem
    rcases mem_cons.1 hmem with rfl | hmem
    · exact withMessage_eq_ok.1 hfirst
    · exact ih hrest tx' hmem

theorem checkBlock_eq_ok {block : CBlock} (h : checkBlock rules block = .ok ()) :
    ∃ coinbase others, block.vtx = coinbase :: others ∧ coinbase.isCoinBase = true ∧
      (∀ tx ∈ others, tx.isCoinBase = false) ∧
      ∀ tx ∈ block.vtx, checkTransaction tx = .ok () := by
  rcases bind_eq_ok.1 h with ⟨_, _, h⟩
  split at h
  · cases h
  · rename_i coinbase others hvtx
    split at h
    · cases h
    · split at h
      · cases h
      · rename_i hcoinbase
        split at h
        · cases h
        · rename_i hothers
          rcases bind_eq_ok.1 h with ⟨_, htxs, _⟩
          refine ⟨coinbase, others, hvtx, by simpa using hcoinbase, ?_, checkTransactions_eq_ok htxs⟩
          intro tx hmem
          simpa using fun hcb => hothers (any_eq_true.2 ⟨tx, hmem, hcb⟩)

variable {nHeight : Int}

theorem connectTransaction_eq_ok {progress progress' : Progress} {tx : CTransaction}
    (h : connectTransaction rules nHeight progress tx = .ok progress') :
    updateCoins tx progress.view nHeight = .ok progress'.view := by
  rcases bind_eq_ok.1 h with ⟨_, _, h⟩
  dsimp only at h
  split at h
  · cases h
  · rcases bind_eq_ok.1 h with ⟨_, _, h⟩
    rcases bind_eq_ok.1 h with ⟨view, hview, h⟩
    cases h
    exact hview

theorem connectBlock_eq_ok {view view' : CoinsView} {block : CBlock} (hheight : nHeight ≠ 0)
    (h : connectBlock rules nHeight view block = .ok view') :
    checkBlock rules block = .ok () ∧ overwrites view block = false ∧
      ∃ progress, connectTransactions rules nHeight ⟨view, 0, 0⟩ block.vtx = .ok progress ∧
        progress.view = view' := by
  rcases bind_eq_ok.1 h with ⟨_, hcheck, h⟩
  rw [if_neg hheight] at h
  split at h
  · cases h
  · rename_i hover
    rcases bind_eq_ok.1 h with ⟨progress, hprogress, h⟩
    rcases bind_eq_ok.1 h with ⟨_, _, h⟩
    exact ⟨hcheck, by simpa using hover, progress, hprogress, Except.ok.inj h⟩

theorem connectBlock_of_passed {view : CoinsView} {progress : Progress} {coinbase : CTransaction}
    {others : List CTransaction} (hheight : nHeight ≠ 0)
    (hcheck : checkBlock rules ⟨coinbase :: others⟩ = .ok ())
    (hover : overwrites view ⟨coinbase :: others⟩ = false)
    (hprogress : connectTransactions rules nHeight ⟨view, 0, 0⟩ (coinbase :: others) = .ok progress)
    (hcoinbase : checkCoinbase rules.teamScript nHeight progress.nFees coinbase.vout =
      some (.ok ())) :
    connectBlock rules nHeight view ⟨coinbase :: others⟩ = .ok progress.view := by
  unfold connectBlock
  refine bind_eq_ok.2 ⟨(), hcheck, ?_⟩
  rw [if_neg hheight, if_neg (by simp [hover])]
  refine bind_eq_ok.2 ⟨progress, hprogress, bind_eq_ok.2 ⟨(), ?_, rfl⟩⟩
  exact congrArg orOverflow hcoinbase

/-! ## The turnover of a block -/

section Turnover

variable {nHeight : Int} {vtx : List CTransaction}

theorem map_fst_created : (created nHeight vtx).map Prod.fst = vtx.flatMap outPointsOf := by
  simp [created, map_flatMap]

theorem turnover_connectTransactions {progress progress' : Progress}
    (h : connectTransactions rules nHeight progress vtx = .ok progress')
    (hfree : ∀ tx ∈ vtx.head?, tx.isCoinBase = true →
      (outPointsOf tx).Nodup ∧ ∀ outpoint ∈ outPointsOf tx, progress.view outpoint = none)
    (hothers : ∀ tx ∈ vtx.tail, tx.isCoinBase = false)
    (hown : ∀ outpoint ∈ vtx.flatMap outPointsOf, outpoint ∉ spent vtx) :
    Turnover (created nHeight vtx) (spent vtx) progress.view progress'.view := by
  induction vtx generalizing progress with
  | nil =>
    cases h
    exact Turnover.refl _
  | cons tx vtx ih =>
    rcases bind_eq_ok.1 h with ⟨mid, hfirst, hrest⟩
    simp only [spent, flatMap_cons, mem_append, not_or] at hown
    have hstep : Turnover (createdBy nHeight tx) (spentBy tx) progress.view mid.view := by
      apply turnover_updateCoins (connectTransaction_eq_ok hfirst) (hfree tx rfl)
      intro outpoint hmem
      exact (hown outpoint (Or.inl hmem)).1
    have hlater : Turnover (created nHeight vtx) (spent vtx) mid.view progress'.view := by
      apply ih hrest
      · intro tx' hmem hcb
        rw [hothers tx' (mem_of_mem_head? hmem)] at hcb
        cases hcb
      · intro tx' hmem
        exact hothers tx' (mem_of_mem_tail hmem)
      · intro outpoint hmem
        exact (hown outpoint (Or.inr hmem)).2
    apply hstep.trans hlater
    · intro outpoint hmem
      rw [map_fst_createdBy] at hmem
      exact (hown outpoint (Or.inl hmem)).2
    · intro outpoint hmem
      rw [map_fst_created] at hmem
      exact (hown outpoint (Or.inr hmem)).1

theorem free_of_not_overwrites {view : CoinsView} {block : CBlock}
    (h : overwrites view block = false) {tx : CTransaction} (htx : tx ∈ block.vtx) :
    ∀ outpoint ∈ outPointsOf tx, view outpoint = none := by
  intro outpoint hmem
  rcases mem_outPointsOf hmem with ⟨i, hlt, rfl⟩
  simp only [overwrites, any_eq_false] at h
  have hnone : ∀ i < tx.vout.length, view (tx.outPoint i) = none := by
    simpa [haveCoin] using h tx htx
  exact hnone i hlt

/-- A block that spends none of its outputs creates them and spends its inputs. -/
theorem turnover_connectBlock {view view' : CoinsView} {block : CBlock} (hheight : nHeight ≠ 0)
    (h : connectBlock rules nHeight view block = .ok view') (hown : ¬ SpendsOwn block) :
    Turnover (created nHeight block.vtx) (spent block.vtx) view view' := by
  rcases connectBlock_eq_ok hheight h with ⟨hcheck, hover, progress, hprogress, rfl⟩
  rcases checkBlock_eq_ok hcheck with ⟨coinbase, others, hvtx, _, hothers, htxs⟩
  apply turnover_connectTransactions hprogress
  · intro tx hmem _
    have htx := mem_of_mem_head? hmem
    exact ⟨nodup_outPointsOf (htxs tx htx), free_of_not_overwrites hover htx⟩
  · rw [hvtx]
    exact hothers
  · intro outpoint hmem hspent
    exact hown ⟨outpoint, hmem, hspent⟩

theorem created_spendable {e : COutPoint × Coin} (h : e ∈ created nHeight vtx) :
    e.2.nHeight = nHeight ∧ isUnspendable e.2.out.scriptPubKey = false := by
  rcases mem_flatMap.1 h with ⟨tx, _, hmem⟩
  exact mem_createdBy hmem

end Turnover

end TKNC.Validation
