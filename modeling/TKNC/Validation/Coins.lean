import TKNC.Lib.Turnover
import TKNC.Primitives.Transaction
import TKNC.Validation.Coinbase

/-!
# Coins — the unspent outputs and how a transaction changes them

A coins view maps an outpoint to its unspent output.  The cache layers of the source are one map
here; the entries that they keep for spent coins are absent.
-/

namespace TKNC.Validation

open Consensus Lib Primitives Wallet List Prod

structure Coin where
  out : CTxOut
  nHeight : Int
  fCoinBase : Bool
  deriving DecidableEq, Repr

abbrev CoinsView : Type := COutPoint → Option Coin

def haveCoin (view : CoinsView) (outpoint : COutPoint) : Bool :=
  (view outpoint).isSome

/-! ## Checks of a single transaction -/

def maxBlockWeight : Nat := 4000000

def witnessScaleFactor : Nat := 4

def checkOutputs : Int → List CTxOut → Except BlockError Unit
  | _, [] => .ok ()
  | nValueOut, txOut :: vout =>
      if txOut.nValue < 0 then
        .error (.invalid "bad-txns-vout-negative" "")
      else if txOut.nValue > maxMoney then
        .error (.invalid "bad-txns-vout-toolarge" "")
      else if moneyRange (nValueOut + txOut.nValue) then
        checkOutputs (nValueOut + txOut.nValue) vout
      else
        .error (.invalid "bad-txns-txouttotal-toolarge" "")

def checkPrevouts (tx : CTransaction) : Except BlockError Unit :=
  if ¬ tx.prevouts.Nodup then
    .error (.invalid "bad-txns-inputs-duplicate" "")
  else if tx.isCoinBase then
    if tx.vin.any fun txin => txin.scriptSig.length < 2 || txin.scriptSig.length > 100 then
      .error (.invalid "bad-cb-length" "")
    else
      .ok ()
  else if tx.prevouts.any COutPoint.isNull then
    .error (.invalid "bad-txns-prevout-null" "")
  else
    .ok ()

def checkTransaction (tx : CTransaction) : Except BlockError Unit :=
  if tx.vin = [] then
    .error (.invalid "bad-txns-vin-empty" "")
  else if tx.vout = [] then
    .error (.invalid "bad-txns-vout-empty" "")
  else if tx.size * witnessScaleFactor > maxBlockWeight then
    .error (.invalid "bad-txns-oversize" "")
  else do
    checkOutputs 0 tx.vout
    checkPrevouts tx

def coinbaseMaturity : Int := 1

def addInputs (inputs : CoinsView) (nSpendHeight : Int) :
    Int → List COutPoint → Except BlockError Int
  | nValueIn, [] => .ok nValueIn
  | nValueIn, prevout :: prevouts =>
      match inputs prevout with
      | none => .error (.aborted "!coin.IsSpent()")
      | some coin =>
          if coin.fCoinBase ∧ nSpendHeight - coin.nHeight < coinbaseMaturity then
            .error (.invalid "bad-txns-premature-spend-of-coinbase"
              ("tried to spend coinbase at depth " ++ toString (nSpendHeight - coin.nHeight)))
          else if moneyRange coin.out.nValue && moneyRange (nValueIn + coin.out.nValue) then
            addInputs inputs nSpendHeight (nValueIn + coin.out.nValue) prevouts
          else
            .error (.invalid "bad-txns-inputvalues-outofrange" "")

/-- A computation without a value ends in an overflow. -/
def orOverflow {α : Type} : Option (Except BlockError α) → Except BlockError α
  | none => .error (.aborted "signed integer overflow")
  | some result => result

def checkTxInputs (tx : CTransaction) (inputs : CoinsView) (nSpendHeight : Int) :
    Except BlockError Int :=
  if tx.isCoinBase || tx.prevouts.all (haveCoin inputs) then do
    let nValueIn ← addInputs inputs nSpendHeight 0 tx.prevouts
    let valueOut ← orOverflow (getValueOut tx.vout)
    if nValueIn < valueOut then
      .error (.invalid "bad-txns-in-belowout"
        ("value in (" ++ formatMoney nValueIn ++ ") < value out (" ++ formatMoney valueOut ++ ")"))
    else if moneyRange (nValueIn - valueOut) then
      .ok (nValueIn - valueOut)
    else
      .error (.invalid "bad-txns-fee-outofrange" "")
  else
    .error (.invalid "bad-txns-inputs-missingorspent" "CheckTxInputs: inputs missing/spent")

def spendCoin (view : CoinsView) (outpoint : COutPoint) : CoinsView :=
  Function.update view outpoint none

def addCoin (view : CoinsView) (outpoint : COutPoint) (coin : Coin) (possibleOverwrite : Bool) :
    Except BlockError CoinsView :=
  if isUnspendable coin.out.scriptPubKey then
    .ok view
  else if ¬ possibleOverwrite ∧ haveCoin view outpoint then
    .error (.exception
      "Attempted to overwrite an unspent coin (when possible_overwrite is false)")
  else
    .ok (Function.update view outpoint (some coin))

def addOutputs (tx : CTransaction) (nHeight : Int) :
    CoinsView → List (CTxOut × Nat) → Except BlockError CoinsView
  | view, [] => .ok view
  | view, (txOut, i) :: outputs => do
      -- coinbase transactions can always be overwritten
      let view ← addCoin view (tx.outPoint i) ⟨txOut, nHeight, tx.isCoinBase⟩ tx.isCoinBase
      addOutputs tx nHeight view outputs

def addCoins (view : CoinsView) (tx : CTransaction) (nHeight : Int) : Except BlockError CoinsView :=
  addOutputs tx nHeight view tx.vout.zipIdx

/-- Inputs are marked spent, then outputs are added.  `CheckTxInputs` has found all inputs. -/
def updateCoins (tx : CTransaction) (inputs : CoinsView) (nHeight : Int) :
    Except BlockError CoinsView :=
  if tx.isCoinBase then
    addCoins inputs tx nHeight
  else
    addCoins (tx.prevouts.foldl spendCoin inputs) tx nHeight

/-! ## What an update creates and spends -/

def spendable (outputs : List (CTxOut × Nat)) : List (CTxOut × Nat) :=
  outputs.filter fun output => !isUnspendable output.1.scriptPubKey

def coinsOf (tx : CTransaction) (nHeight : Int) (outputs : List (CTxOut × Nat)) :
    List (COutPoint × Coin) :=
  (spendable outputs).map fun output =>
    (tx.outPoint output.2, ⟨output.1, nHeight, tx.isCoinBase⟩)

def createdBy (nHeight : Int) (tx : CTransaction) : List (COutPoint × Coin) :=
  coinsOf tx nHeight tx.vout.zipIdx

def outPointsOf (tx : CTransaction) : List COutPoint :=
  (spendable tx.vout.zipIdx).map fun output => tx.outPoint output.2

def spentBy (tx : CTransaction) : List COutPoint :=
  if tx.isCoinBase then [] else tx.prevouts

@[simp] theorem map_fst_createdBy (nHeight : Int) (tx : CTransaction) :
    (createdBy nHeight tx).map fst = outPointsOf tx := by
  simp [createdBy, coinsOf, outPointsOf]

variable {tx : CTransaction} {nHeight : Int}

/-- Outputs that may overwrite must have distinct free outpoints; the others cannot be added
otherwise. -/
theorem turnover_addOutputs {outputs : List (CTxOut × Nat)} {view view' : CoinsView}
    (h : addOutputs tx nHeight view outputs = .ok view')
    (hfree : tx.isCoinBase = true →
      ((coinsOf tx nHeight outputs).map fst).Nodup ∧
        ∀ outpoint ∈ (coinsOf tx nHeight outputs).map fst, view outpoint = none) :
    Turnover (coinsOf tx nHeight outputs) [] view view' := by
  induction outputs generalizing view with
  | nil =>
    cases h
    exact Turnover.refl _
  | cons output outputs ih =>
    rcases output with ⟨txOut, i⟩
    rw [addOutputs, addCoin] at h
    by_cases hspendable : isUnspendable txOut.scriptPubKey = true
    · -- the output is skipped
      have hcoins : coinsOf tx nHeight ((txOut, i) :: outputs) = coinsOf tx nHeight outputs := by
        simp [coinsOf, spendable, hspendable]
      rw [hcoins] at hfree ⊢
      rw [if_pos hspendable] at h
      exact ih h hfree
    · have hcoins : coinsOf tx nHeight ((txOut, i) :: outputs) =
          [(tx.outPoint i, ⟨txOut, nHeight, tx.isCoinBase⟩)] ++ coinsOf tx nHeight outputs := by
        simp [coinsOf, spendable, hspendable]
      rw [hcoins] at hfree ⊢
      rw [if_neg hspendable] at h
      have hnew : view (tx.outPoint i) = none ∧
          addOutputs tx nHeight (Function.update view (tx.outPoint i)
            (some ⟨txOut, nHeight, tx.isCoinBase⟩)) outputs = .ok view' := by
        by_cases hcb : tx.isCoinBase = true
        · rw [if_neg (by simp [hcb])] at h
          exact ⟨(hfree hcb).2 _ mem_cons_self, h⟩
        · by_cases hhave : haveCoin view (tx.outPoint i) = true
          · rw [if_pos ⟨hcb, hhave⟩] at h
            cases h
          · rw [if_neg (fun hboth => hhave hboth.2)] at h
            exact ⟨by simpa [haveCoin] using hhave, h⟩
      refine (Turnover.create hnew.1 _).trans (ih hnew.2 ?_) nofun nofun
      intro hcb
      rcases hfree hcb with ⟨hnodup, hnone⟩
      rw [map_append, nodup_append] at hnodup
      refine ⟨hnodup.2.1, ?_⟩
      intro outpoint hmem
      rw [Function.update_of_ne]
      · exact hnone outpoint (by simp [hmem])
      · exact fun heq => hnodup.2.2 _ mem_cons_self outpoint hmem heq.symm

theorem mem_createdBy {e : COutPoint × Coin} (h : e ∈ createdBy nHeight tx) :
    e.2.nHeight = nHeight ∧ isUnspendable e.2.out.scriptPubKey = false := by
  rcases mem_map.1 h with ⟨output, hmem, rfl⟩
  exact ⟨rfl, by simpa using (mem_filter.1 hmem).2⟩

theorem mem_outPointsOf {outpoint : COutPoint} (h : outpoint ∈ outPointsOf tx) :
    ∃ i < tx.vout.length, outpoint = tx.outPoint i := by
  rcases mem_map.1 h with ⟨output, hmem, rfl⟩
  have hlt := (mem_zipIdx (mem_filter.1 hmem).1).2.1
  exact ⟨output.2, by omega, rfl⟩

/-- The size limit keeps the indices of the outputs below 32 bits. -/
theorem nodup_outPointsOf (h : checkTransaction tx = .ok ()) :
    (outPointsOf tx).Nodup := by
  have hsize : tx.vout.length < 2 ^ 32 := by
    have hle := tx.length_vout_le_size
    unfold checkTransaction maxBlockWeight witnessScaleFactor at h
    split at h
    · cases h
    · split at h
      · cases h
      · split at h
        · cases h
        · omega
  have hmap : outPointsOf tx = ((spendable tx.vout.zipIdx).map snd).map tx.outPoint := by
    simp [outPointsOf]
  have hindices : ((spendable tx.vout.zipIdx).map snd).Nodup := by
    have hsub : ((spendable tx.vout.zipIdx).map snd).Sublist (tx.vout.zipIdx.map snd) :=
      filter_sublist.map snd
    rw [zipIdx_map_snd] at hsub
    exact hsub.nodup nodup_range'
  have hbound : ∀ i ∈ (spendable tx.vout.zipIdx).map snd, i < 2 ^ 32 := by
    intro i hmem
    rcases mem_map.1 hmem with ⟨output, houtput, rfl⟩
    have hlt := (mem_zipIdx (mem_filter.1 houtput).1).2.1
    omega
  rw [hmap]
  apply hindices.map_on
  intro i hi j hj heq
  have hn := congrArg (fun outpoint => outpoint.n.toNat) heq
  simp only [CTransaction.outPoint, UInt32.toNat_ofNat'] at hn
  rw [Nat.mod_eq_of_lt (hbound i hi), Nat.mod_eq_of_lt (hbound j hj)] at hn
  exact hn

theorem turnover_updateCoins {view view' : CoinsView} (h : updateCoins tx view nHeight = .ok view')
    (hfree : tx.isCoinBase = true →
      (outPointsOf tx).Nodup ∧ ∀ outpoint ∈ outPointsOf tx, view outpoint = none)
    (hother : ∀ outpoint ∈ outPointsOf tx, outpoint ∉ spentBy tx) :
    Turnover (createdBy nHeight tx) (spentBy tx) view view' := by
  unfold updateCoins addCoins at h
  rw [← map_fst_createdBy nHeight tx] at hfree hother
  by_cases hcb : tx.isCoinBase = true
  · rw [if_pos hcb] at h
    rw [spentBy, if_pos hcb]
    exact turnover_addOutputs h hfree
  · rw [if_neg hcb] at h
    rw [spentBy, if_neg hcb] at hother ⊢
    have hspend := Turnover.spendAll tx.prevouts view
    have hcreate := turnover_addOutputs h (fun hcb' => absurd hcb' hcb)
    have hboth := hspend.trans hcreate nofun hother
    rw [append_nil] at hboth
    exact hboth

end TKNC.Validation
