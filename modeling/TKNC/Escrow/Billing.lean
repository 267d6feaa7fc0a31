import TKNC.Escrow.Confirmation
import TKNC.Escrow.Database

/-!
# Billing — charging a request and paying the miner

`CheckAndDeductEscrow` charges the first usable record of an API key.  When the consumption crosses
a full TKNC it transfers the crossed amount from a wallet of the node to the miner and appends the
transaction to the pending list of the record.

The call runs under the escrow mutex, so it is one step on the database.  The transfers it makes are
part of its result.
-/

namespace TKNC.Escrow

open Consensus Lib Lib.MachineInt Lib.Numeral Wallet Bool

structure TokenRates where
  cache : List (Bytes × Int)
  stored : List (Bytes × Int)

/-- An empty cache is loaded from the store, which yields its positive rates. -/
def TokenRates.loaded (rates : TokenRates) : List (Bytes × Int) :=
  if rates.cache = [] then rates.stored.filter (fun r => decide (r.2 > 0)) else rates.cache

def getTokensPerTknc (rates : TokenRates) (minerWallet : Bytes) : Int :=
  if minerWallet ≠ [] then (rates.loaded.lookup minerWallet).getD 0 else 0

/-- A node as billing sees it: its wallets and clock, the token rates, and the costs reserved for
requests in flight. -/
structure Node extends NodeContext where
  tokenRates : TokenRates
  pendingCosts : Bytes → Int

/-! ## Charge -/

/-- Price of a token: the miner's rate if the node knows one, or else the rate in the record. -/
def rateTkncPerToken (node : Node) (escrow : SpendingLimit) : Int :=
  let tokensPerTknc := getTokensPerTknc node.tokenRates escrow.minerWallet
  let rate := if tokensPerTknc > 0 then coin.tdiv tokensPerTknc else escrow.rateTkncPerToken
  if rate ≤ 0 then 1 else rate

theorem one_le_rateTkncPerToken (node : Node) (e : SpendingLimit) :
    1 ≤ rateTkncPerToken node e := by
  unfold rateTkncPerToken
  dsimp only
  split <;> omega

structure Charge where
  cost : Int
  tokensUsed : Int
  deriving DecidableEq, Repr

def chargeFor (escrow : SpendingLimit) (rate tokensUsed : Int) : Charge :=
  let cost := i64 (tokensUsed * rate)
  let cost := if cost ≤ 0 then 1 else cost
  -- The last charge of a limited record takes what is left.
  let remainingLimit := escrow.getRemainingLimit
  if cost > remainingLimit then
    { cost := remainingLimit
      tokensUsed := remainingLimit.tdiv rate }
  else
    { cost := cost
      tokensUsed := tokensUsed }

def markExhausted (escrow : SpendingLimit) : SpendingLimit :=
  if escrow.isExhausted then { escrow with state := .exhausted } else escrow

def applyCharge (escrow : SpendingLimit) (charge : Charge) (now : Int) : SpendingLimit :=
  let consumed := i64 (escrow.consumedTknc + charge.cost)
  markExhausted
    { escrow with
      consumedTknc := consumed
      spendingLimit := if escrow.totalTknc = 0 then 0 else i64 (escrow.totalTknc - consumed)
      usedTokens := i64 (escrow.usedTokens + charge.tokensUsed)
      lastActivity := now
      state := if escrow.state = .created then .active else escrow.state }

/-! ## Payment -/

structure Transfer where
  wallet : CWallet
  toAddress : Bytes
  amount : Int
  subtractFee : Bool
  txid : Txid

structure Payment where
  transferOk : Bool
  txid : Bytes
  amount : Int
  transfers : List Transfer

def Payment.recorded (p : Payment) : Bool :=
  p.transferOk && p.txid ≠ []

/-- Nothing is transferred; `ok` tells a deferred payment from a failed one. -/
def Payment.nothing (ok : Bool) : Payment :=
  { transferOk := ok
    txid := []
    amount := 0
    transfers := [] }

def payMiner (node : Node) (escrow : SpendingLimit) (coinsToPay : Int) : Payment :=
  match findWalletByAddress node.toNodeContext escrow.userWallet with
  | none =>
      -- Wallet not found on this node: payment deferred.
      Payment.nothing true
  | some userWallet =>
      if userWallet.isLocked then
        Payment.nothing false
      else
        match transferFromWallet node.toNodeContext userWallet escrow.minerWallet coinsToPay false
            escrow.userWallet with
        | some txid =>
            { transferOk := true
              txid := getHex txid
              amount := coinsToPay
              transfers := [⟨userWallet, escrow.minerWallet, coinsToPay, false, txid⟩] }
        | none =>
            -- The full transfer failed: try the remaining balance.
            let available := userWallet.available
            if available > 0 ∧ available < coinsToPay then
              match transferFromWallet node.toNodeContext userWallet escrow.minerWallet available true
                  escrow.userWallet with
              | some txid =>
                  { transferOk := true
                    txid := getHex txid
                    amount := available
                    transfers := [⟨userWallet, escrow.minerWallet, available, true, txid⟩] }
              | none => Payment.nothing false
            else
              Payment.nothing false

def recordTransfer (escrow : SpendingLimit) (txid : Bytes) (amount : Int) : SpendingLimit :=
  { escrow with
    pendingTxids := appendPending escrow.pendingTxids (txid, amount)
    transferredTknc := i64 (escrow.transferredTknc + amount) }

@[simp] theorem transferredTknc_recordTransfer (escrow : SpendingLimit) (txid : Bytes)
    (amount : Int) :
    (recordTransfer escrow txid amount).transferredTknc =
      i64 (escrow.transferredTknc + amount) := rfl

/-- What a crossing from `prevConsumed` to the present consumption has to pay. -/
def coinsToPay (escrow : SpendingLimit) (prevConsumed : Int) : Int :=
  i64 (i64 (escrow.consumedTknc.tdiv coin - prevConsumed.tdiv coin) * coin)

def crossesBoundary (escrow : SpendingLimit) (prevConsumed : Int) : Bool :=
  decide (escrow.consumedTknc.tdiv coin > prevConsumed.tdiv coin) && escrow.minerWallet ≠ []

/-! ## The call -/

structure BillingReceipt where
  apiKey : Bytes
  escrowId : Bytes
  minerWallet : Bytes
  modelName : Bytes
  outputTokens : Int
  totalTokens : Int
  costTknc : Int
  consumedTknc : Int
  remainingLimit : Int
  timestamp : Int
  deriving DecidableEq, Repr

/-- `receipt` is absent when the call returns false. -/
structure BillingResult where
  receipt : Option BillingReceipt
  db : Database
  transfers : List Transfer

def BillingResult.refused (db : Database) : BillingResult :=
  { receipt := none
    db := db
    transfers := [] }

def recoverState (escrow : SpendingLimit) : SpendingLimit :=
  if escrow.state = .paymentPending then { escrow with state := .active } else escrow

def chargedRecord (node : Node) (escrow : SpendingLimit) (tokensUsed : Int) : SpendingLimit :=
  applyCharge (updateConfirmedTransfers node.toNodeContext escrow)
    (chargeFor escrow (rateTkncPerToken node escrow) tokensUsed) node.getTime

def paymentFor (node : Node) (escrow : SpendingLimit) (tokensUsed : Int) : Payment :=
  let charged := chargedRecord node escrow tokensUsed
  if crossesBoundary charged escrow.consumedTknc then
    payMiner node charged (coinsToPay charged escrow.consumedTknc)
  else
    Payment.nothing false

def billedRecord (node : Node) (escrow : SpendingLimit) (tokensUsed : Int) : SpendingLimit :=
  let charged := chargedRecord node escrow tokensUsed
  let payment := paymentFor node escrow tokensUsed
  if payment.recorded then recordTransfer charged payment.txid payment.amount else charged

def billEscrow (node : Node) (db : Database) (k : DbKey) (escrow : SpendingLimit)
    (apiKey : Bytes) (tokensUsed : Int) : BillingResult :=
  let rate := rateTkncPerToken node escrow
  if tokensUsed > int64Max.tdiv rate then
    BillingResult.refused db
  else
    let charge := chargeFor escrow rate tokensUsed
    -- The charge is stored before the payment is tried, and again after a recorded transfer.
    let db := writeSpendingLimit db k (chargedRecord node escrow tokensUsed)
    let payment := paymentFor node escrow tokensUsed
    let billed := billedRecord node escrow tokensUsed
    let db := if payment.recorded then writeSpendingLimit db k billed else db
    { receipt := some
        { apiKey := apiKey
          escrowId := billed.escrowId
          minerWallet := billed.minerWallet
          modelName := billed.modelName
          outputTokens := charge.tokensUsed
          totalTokens := charge.tokensUsed
          costTknc := charge.cost
          consumedTknc := billed.consumedTknc
          remainingLimit := if billed.totalTknc = 0 then 0 else billed.spendingLimit
          timestamp := node.getTime }
      db := db
      transfers := payment.transfers }

def billLoop (node : Node) (db : Database) (apiKey : Bytes) (tokensUsed : Int) :
    List (DbKey × SpendingLimit) → BillingResult
  | [] => BillingResult.refused db
  | (k, escrow) :: rest =>
      if escrow.apiKey = apiKey then
        if escrow.state ≠ .created ∧ escrow.state ≠ .active ∧ escrow.state ≠ .paymentPending then
          billLoop node db apiKey tokensUsed rest
        else
          let escrow := recoverState escrow
          if escrow.isExhausted then billLoop node db apiKey tokensUsed rest
          else if escrow.isExpired node.getTime then billLoop node db apiKey tokensUsed rest
          else billEscrow node db k escrow apiKey tokensUsed
      else
        billLoop node db apiKey tokensUsed rest

def checkAndDeductEscrow (node : Node) (db : Database) (apiKey : Bytes) (tokensUsed : Int) :
    BillingResult :=
  billLoop node db apiKey tokensUsed (listAllSpendingLimits db)

/-! ## Which record is charged -/

def chargeable (node : Node) (apiKey : Bytes) (kv : DbKey × SpendingLimit) : Bool :=
  kv.2.apiKey = apiKey && kv.2.isActive && !kv.2.isExhausted && !kv.2.isExpired node.getTime

@[simp] theorem isExhausted_recoverState (e : SpendingLimit) :
    (recoverState e).isExhausted = e.isExhausted := by
  unfold recoverState
  split <;> rfl

@[simp] theorem isExpired_recoverState (e : SpendingLimit) (now : Int) :
    (recoverState e).isExpired now = e.isExpired now := by
  unfold recoverState
  split <;> rfl

theorem isActive_iff (e : SpendingLimit) :
    e.isActive = true ↔
      ¬ (e.state ≠ .created ∧ e.state ≠ .active ∧ e.state ≠ .paymentPending) := by
  simp only [SpendingLimit.isActive, or_eq_true, decide_eq_true_eq]
  tauto

theorem billLoop_eq (node : Node) (db : Database) (apiKey : Bytes) (tokensUsed : Int)
    (l : List (DbKey × SpendingLimit)) :
    billLoop node db apiKey tokensUsed l =
      match l.find? (chargeable node apiKey) with
      | none => BillingResult.refused db
      | some (k, e) => billEscrow node db k (recoverState e) apiKey tokensUsed := by
  induction l with
  | nil => rfl
  | cons kv rest ih =>
    rcases kv with ⟨k, e⟩
    -- the tests of the loop, in its order, are the conjuncts of `chargeable`
    by_cases hcharge : chargeable node apiKey (k, e) = true
    · rw [List.find?_cons_of_pos hcharge]
      simp only [chargeable, and_eq_true, decide_eq_true_eq, not_eq_true',
        isActive_iff] at hcharge
      rcases hcharge with ⟨⟨⟨hkey, hactive⟩, hexhausted⟩, hexpired⟩
      simp only [billLoop, if_pos hkey, if_neg hactive, isExhausted_recoverState, hexhausted,
        isExpired_recoverState, hexpired, false_eq_true, if_false]
    · rw [List.find?_cons_of_neg hcharge, ← ih]
      simp only [chargeable, and_eq_true, decide_eq_true_eq, not_eq_true',
        isActive_iff] at hcharge
      simp only [billLoop, isExhausted_recoverState, isExpired_recoverState]
      split
      · rename_i hkey
        split
        · rfl
        · rename_i hactive
          split
          · rfl
          · rename_i hexhausted
            split
            · rfl
            · rename_i hexpired
              exact absurd ⟨⟨⟨hkey, hactive⟩, by simpa using hexhausted⟩,
                by simpa using hexpired⟩ hcharge
      · rfl

/-! ## What the call leaves behind -/

theorem applyCharge_frame (e : SpendingLimit) (charge : Charge) (now : Int) :
    ∃ state, applyCharge e charge now =
      { e with
        consumedTknc := i64 (e.consumedTknc + charge.cost)
        spendingLimit :=
          if e.totalTknc = 0 then 0 else i64 (e.totalTknc - i64 (e.consumedTknc + charge.cost))
        usedTokens := i64 (e.usedTokens + charge.tokensUsed)
        lastActivity := now
        state := state } := by
  have hmark : ∀ e : SpendingLimit, ∃ state, markExhausted e = { e with state := state } := by
    intro e
    unfold markExhausted
    split
    · exact ⟨_, rfl⟩
    · exact ⟨e.state, rfl⟩
  exact hmark _

section ChargedRecord

variable (node : Node) (e : SpendingLimit) (tokensUsed : Int)

theorem chargedRecord_shape :
    ∃ confirmed pending state, chargedRecord node e tokensUsed =
      { e with
        consumedTknc :=
          i64 (e.consumedTknc + (chargeFor e (rateTkncPerToken node e) tokensUsed).cost)
        confirmedTknc := confirmed
        pendingTxids := pending
        spendingLimit :=
          if e.totalTknc = 0 then 0
          else i64 (e.totalTknc -
            i64 (e.consumedTknc + (chargeFor e (rateTkncPerToken node e) tokensUsed).cost))
        usedTokens :=
          i64 (e.usedTokens + (chargeFor e (rateTkncPerToken node e) tokensUsed).tokensUsed)
        lastActivity := node.getTime
        state := state } := by
  rcases updateConfirmedTransfers_frame node.toNodeContext e with ⟨confirmed, pending, hupdate⟩
  rcases applyCharge_frame (updateConfirmedTransfers node.toNodeContext e)
    (chargeFor e (rateTkncPerToken node e) tokensUsed) node.getTime with ⟨state, hcharge⟩
  refine ⟨confirmed, pending, state, ?_⟩
  rw [chargedRecord, hcharge, hupdate]

@[simp] theorem apiKey_chargedRecord : (chargedRecord node e tokensUsed).apiKey = e.apiKey := by
  rcases chargedRecord_shape node e tokensUsed with ⟨_, _, _, h⟩
  rw [h]

@[simp] theorem escrowId_chargedRecord :
    (chargedRecord node e tokensUsed).escrowId = e.escrowId := by
  rcases chargedRecord_shape node e tokensUsed with ⟨_, _, _, h⟩
  rw [h]

@[simp] theorem userWallet_chargedRecord :
    (chargedRecord node e tokensUsed).userWallet = e.userWallet := by
  rcases chargedRecord_shape node e tokensUsed with ⟨_, _, _, h⟩
  rw [h]

@[simp] theorem minerWallet_chargedRecord :
    (chargedRecord node e tokensUsed).minerWallet = e.minerWallet := by
  rcases chargedRecord_shape node e tokensUsed with ⟨_, _, _, h⟩
  rw [h]

@[simp] theorem totalTknc_chargedRecord :
    (chargedRecord node e tokensUsed).totalTknc = e.totalTknc := by
  rcases chargedRecord_shape node e tokensUsed with ⟨_, _, _, h⟩
  rw [h]

@[simp] theorem transferredTknc_chargedRecord :
    (chargedRecord node e tokensUsed).transferredTknc = e.transferredTknc := by
  rcases chargedRecord_shape node e tokensUsed with ⟨_, _, _, h⟩
  rw [h]

theorem consumedTknc_chargedRecord :
    (chargedRecord node e tokensUsed).consumedTknc =
      i64 (e.consumedTknc + (chargeFor e (rateTkncPerToken node e) tokensUsed).cost) := by
  rcases chargedRecord_shape node e tokensUsed with ⟨_, _, _, h⟩
  rw [h]

theorem spendingLimit_chargedRecord :
    (chargedRecord node e tokensUsed).spendingLimit =
      if e.totalTknc = 0 then 0
      else i64 (e.totalTknc - (chargedRecord node e tokensUsed).consumedTknc) := by
  rcases chargedRecord_shape node e tokensUsed with ⟨_, _, _, h⟩
  rw [h]

/-- The counted tokens grow by those that the charge pays for; the terms of the record stay. -/
theorem chargedRecord_tokens :
    (chargedRecord node e tokensUsed).usedTokens =
        i64 (e.usedTokens + (chargeFor e (rateTkncPerToken node e) tokensUsed).tokensUsed) ∧
      (chargedRecord node e tokensUsed).quotaTokens = e.quotaTokens ∧
      (chargedRecord node e tokensUsed).rateTkncPerToken = e.rateTkncPerToken := by
  rcases chargedRecord_shape node e tokensUsed with ⟨_, _, _, h⟩
  rw [h]
  exact ⟨rfl, rfl, rfl⟩

theorem chargedRecord_ledger :
    (chargedRecord node e tokensUsed).confirmedTknc =
        (updateConfirmedTransfers node.toNodeContext e).confirmedTknc ∧
      (chargedRecord node e tokensUsed).pendingTxids =
        (updateConfirmedTransfers node.toNodeContext e).pendingTxids := by
  rcases applyCharge_frame (updateConfirmedTransfers node.toNodeContext e)
    (chargeFor e (rateTkncPerToken node e) tokensUsed) node.getTime with ⟨_, hcharge⟩
  rw [chargedRecord, hcharge]
  exact ⟨rfl, rfl⟩

end ChargedRecord

open Payment

/-- Everything the payment section can do: nothing, or one transfer from the wallet that the lookup
gave, of the full amount or of a smaller balance. -/
theorem payMiner_cases (node : Node) (e : SpendingLimit) (coins : Int) :
    (∃ ok, payMiner node e coins = nothing ok) ∨
      ∃ w amount subtractFee txid,
        findWalletByAddress node.toNodeContext e.userWallet = some w ∧
        transferFromWallet node.toNodeContext w e.minerWallet amount subtractFee e.userWallet =
          some txid ∧
        (amount = coins ∨ 0 < amount ∧ amount < coins) ∧
        payMiner node e coins =
          { transferOk := true
            txid := getHex txid
            amount := amount
            transfers := [⟨w, e.minerWallet, amount, subtractFee, txid⟩] } := by
  unfold payMiner
  split
  · exact Or.inl ⟨true, rfl⟩
  · rename_i w hw
    split
    · exact Or.inl ⟨false, rfl⟩
    · split
      · rename_i txid htxid
        exact Or.inr ⟨w, coins, false, txid, hw, htxid, Or.inl rfl, rfl⟩
      · dsimp only
        split
        · rename_i hrange
          split
          · rename_i txid htxid
            exact Or.inr ⟨w, _, true, txid, hw, htxid, Or.inr hrange, rfl⟩
          · exact Or.inl ⟨false, rfl⟩
        · exact Or.inl ⟨false, rfl⟩

/-- The outcomes of a charge: the record is charged, and at most one transfer, by the wallet that
the lookup gave, is made and recorded. -/
theorem billedRecord_cases (node : Node) (e : SpendingLimit) (tokensUsed : Int) :
    (billedRecord node e tokensUsed = chargedRecord node e tokensUsed ∧
      (paymentFor node e tokensUsed).transfers = []) ∨
      ∃ w amount subtractFee txid,
        findWalletByAddress node.toNodeContext e.userWallet = some w ∧
        crossesBoundary (chargedRecord node e tokensUsed) e.consumedTknc = true ∧
        (amount = coinsToPay (chargedRecord node e tokensUsed) e.consumedTknc ∨
          0 < amount ∧ amount < coinsToPay (chargedRecord node e tokensUsed) e.consumedTknc) ∧
        billedRecord node e tokensUsed =
          recordTransfer (chargedRecord node e tokensUsed) (getHex txid) amount ∧
        (paymentFor node e tokensUsed).transfers =
          [⟨w, e.minerWallet, amount, subtractFee, txid⟩] := by
  -- a payment is only tried when a boundary is crossed, and only a made transfer has an id
  by_cases hcross : crossesBoundary (chargedRecord node e tokensUsed) e.consumedTknc = true
  · have hpay : paymentFor node e tokensUsed = payMiner node (chargedRecord node e tokensUsed)
        (coinsToPay (chargedRecord node e tokensUsed) e.consumedTknc) := if_pos hcross
    rcases payMiner_cases node (chargedRecord node e tokensUsed)
      (coinsToPay (chargedRecord node e tokensUsed) e.consumedTknc) with
      ⟨ok, hnothing⟩ | ⟨w, amount, subtractFee, txid, hw, _, hamount, hmade⟩
    · left
      rw [hnothing] at hpay
      simp [billedRecord, hpay, nothing, recorded]
    · right
      rw [hmade] at hpay
      rw [userWallet_chargedRecord] at hw
      refine ⟨w, amount, subtractFee, txid, hw, hcross, hamount, ?_, ?_⟩
      · simp [billedRecord, hpay, recorded, getHex_ne_nil]
      · rw [hpay, minerWallet_chargedRecord]
  · left
    have hpay : paymentFor node e tokensUsed = nothing false := if_neg hcross
    simp [billedRecord, hpay, nothing, recorded]

theorem billedRecord_frame (node : Node) (e : SpendingLimit) (tokensUsed : Int) :
    ∃ pending transferred, billedRecord node e tokensUsed =
      { chargedRecord node e tokensUsed with
        pendingTxids := pending
        transferredTknc := transferred } := by
  rcases billedRecord_cases node e tokensUsed with h | ⟨_, _, _, _, _, _, _, h, _⟩
  · exact ⟨_, _, h.1⟩
  · exact ⟨_, _, h⟩

section BilledRecord

variable (node : Node) (e : SpendingLimit) (tokensUsed : Int)

@[simp] theorem apiKey_billedRecord : (billedRecord node e tokensUsed).apiKey = e.apiKey := by
  rcases billedRecord_frame node e tokensUsed with ⟨_, _, h⟩
  rw [h]
  exact apiKey_chargedRecord node e tokensUsed

@[simp] theorem escrowId_billedRecord :
    (billedRecord node e tokensUsed).escrowId = e.escrowId := by
  rcases billedRecord_frame node e tokensUsed with ⟨_, _, h⟩
  rw [h]
  exact escrowId_chargedRecord node e tokensUsed

@[simp] theorem minerWallet_billedRecord :
    (billedRecord node e tokensUsed).minerWallet = e.minerWallet := by
  rcases billedRecord_frame node e tokensUsed with ⟨_, _, h⟩
  rw [h]
  exact minerWallet_chargedRecord node e tokensUsed

@[simp] theorem totalTknc_billedRecord :
    (billedRecord node e tokensUsed).totalTknc = e.totalTknc := by
  rcases billedRecord_frame node e tokensUsed with ⟨_, _, h⟩
  rw [h]
  exact totalTknc_chargedRecord node e tokensUsed

theorem consumedTknc_billedRecord :
    (billedRecord node e tokensUsed).consumedTknc =
      (chargedRecord node e tokensUsed).consumedTknc := by
  rcases billedRecord_frame node e tokensUsed with ⟨_, _, h⟩
  rw [h]

theorem spendingLimit_billedRecord :
    (billedRecord node e tokensUsed).spendingLimit =
      if e.totalTknc = 0 then 0
      else i64 (e.totalTknc - (billedRecord node e tokensUsed).consumedTknc) := by
  rcases billedRecord_frame node e tokensUsed with ⟨_, _, h⟩
  rw [h]
  exact spendingLimit_chargedRecord node e tokensUsed

theorem billedRecord_tokens :
    (billedRecord node e tokensUsed).usedTokens =
        i64 (e.usedTokens + (chargeFor e (rateTkncPerToken node e) tokensUsed).tokensUsed) ∧
      (billedRecord node e tokensUsed).quotaTokens = e.quotaTokens ∧
      (billedRecord node e tokensUsed).rateTkncPerToken = e.rateTkncPerToken := by
  rcases billedRecord_frame node e tokensUsed with ⟨_, _, h⟩
  rw [h]
  exact chargedRecord_tokens node e tokensUsed

end BilledRecord

variable {tokensUsed : Int}

theorem billEscrow_eq (node : Node) (db : Database) (k : DbKey) (escrow : SpendingLimit)
    (apiKey : Bytes) (hfits : ¬ tokensUsed > int64Max.tdiv (rateTkncPerToken node escrow)) :
    (billEscrow node db k escrow apiKey tokensUsed).db =
        writeSpendingLimit db k (billedRecord node escrow tokensUsed) ∧
      (billEscrow node db k escrow apiKey tokensUsed).transfers =
        (paymentFor node escrow tokensUsed).transfers ∧
      ∃ receipt, (billEscrow node db k escrow apiKey tokensUsed).receipt = some receipt ∧
        receipt.costTknc =
          (chargeFor escrow (rateTkncPerToken node escrow) tokensUsed).cost := by
  simp only [billEscrow, if_neg hfits]
  refine ⟨?_, trivial, _, rfl, rfl⟩
  -- of the two writes to the same key only the second stays
  split
  · exact OrderedMap.insert_insert _ _ _ _
  · rename_i hrecorded
    simp only [billedRecord, if_neg hrecorded]

/-! ## One statement of the whole call -/

section RecoverState

variable (e : SpendingLimit)

theorem recoverState_frame : ∃ state, recoverState e = { e with state := state } := by
  unfold recoverState
  split
  · exact ⟨_, rfl⟩
  · exact ⟨e.state, rfl⟩

@[simp] theorem apiKey_recoverState : (recoverState e).apiKey = e.apiKey := by
  rcases recoverState_frame e with ⟨_, h⟩
  rw [h]

@[simp] theorem escrowId_recoverState : (recoverState e).escrowId = e.escrowId := by
  rcases recoverState_frame e with ⟨_, h⟩
  rw [h]

@[simp] theorem userWallet_recoverState : (recoverState e).userWallet = e.userWallet := by
  rcases recoverState_frame e with ⟨_, h⟩
  rw [h]

@[simp] theorem minerWallet_recoverState : (recoverState e).minerWallet = e.minerWallet := by
  rcases recoverState_frame e with ⟨_, h⟩
  rw [h]

@[simp] theorem totalTknc_recoverState : (recoverState e).totalTknc = e.totalTknc := by
  rcases recoverState_frame e with ⟨_, h⟩
  rw [h]

@[simp] theorem consumedTknc_recoverState : (recoverState e).consumedTknc = e.consumedTknc := by
  rcases recoverState_frame e with ⟨_, h⟩
  rw [h]

@[simp] theorem transferredTknc_recoverState : (recoverState e).transferredTknc = e.transferredTknc := by
  rcases recoverState_frame e with ⟨_, h⟩
  rw [h]

@[simp] theorem confirmedTknc_recoverState : (recoverState e).confirmedTknc = e.confirmedTknc := by
  rcases recoverState_frame e with ⟨_, h⟩
  rw [h]

@[simp] theorem pendingTxids_recoverState : (recoverState e).pendingTxids = e.pendingTxids := by
  rcases recoverState_frame e with ⟨_, h⟩
  rw [h]

@[simp] theorem usedTokens_recoverState : (recoverState e).usedTokens = e.usedTokens := by
  rcases recoverState_frame e with ⟨_, h⟩
  rw [h]

@[simp] theorem quotaTokens_recoverState : (recoverState e).quotaTokens = e.quotaTokens := by
  rcases recoverState_frame e with ⟨_, h⟩
  rw [h]

@[simp] theorem storedRate_recoverState :
    (recoverState e).rateTkncPerToken = e.rateTkncPerToken := by
  rcases recoverState_frame e with ⟨_, h⟩
  rw [h]

end RecoverState

@[simp] theorem rateTkncPerToken_recoverState (node : Node) (e : SpendingLimit) :
    rateTkncPerToken node (recoverState e) = rateTkncPerToken node e := by
  rcases recoverState_frame e with ⟨_, h⟩
  rw [h]
  rfl

@[simp] theorem chargeFor_recoverState (e : SpendingLimit) (rate tokensUsed : Int) :
    chargeFor (recoverState e) rate tokensUsed = chargeFor e rate tokensUsed := by
  rcases recoverState_frame e with ⟨_, h⟩
  rw [h]
  rfl

variable {e : SpendingLimit} {node : Node}

theorem consumedTknc_charged_recovered
    (hfits : Fits 64 (e.consumedTknc + (chargeFor e (rateTkncPerToken node e) tokensUsed).cost)) :
    (chargedRecord node (recoverState e) tokensUsed).consumedTknc =
      e.consumedTknc + (chargeFor e (rateTkncPerToken node e) tokensUsed).cost := by
  rw [consumedTknc_chargedRecord, consumedTknc_recoverState, rateTkncPerToken_recoverState,
    chargeFor_recoverState, i64_of_fits hfits]

/-- `k` holds the record that the call charges. -/
structure Charged (node : Node) (db : Database) (apiKey : Bytes) (tokensUsed : Int) (k : DbKey)
    (e : SpendingLimit) : Prop where
  first : db.entries.find? (chargeable node apiKey) = some (k, e)
  fits : tokensUsed ≤ int64Max.tdiv (rateTkncPerToken node e)

variable {apiKey : Bytes} {db : Database} {k : DbKey}

theorem Charged.stored (h : Charged node db apiKey tokensUsed k e) :
    db.get? k = some e :=
  OrderedMap.get?_eq_some_iff.2 (List.mem_of_find?_eq_some h.first)

theorem Charged.isActive (h : Charged node db apiKey tokensUsed k e) :
    e.isActive = true := by
  have hp := List.find?_some h.first
  simp only [chargeable, and_eq_true] at hp
  exact hp.1.1.2

theorem Charged.not_exhausted (h : Charged node db apiKey tokensUsed k e) :
    e.isExhausted = false := by
  have hp := List.find?_some h.first
  simp only [chargeable, and_eq_true, not_eq_true'] at hp
  exact hp.1.2

theorem Charged.bills (h : Charged node db apiKey tokensUsed k e) :
    (checkAndDeductEscrow node db apiKey tokensUsed).db =
        writeSpendingLimit db k (billedRecord node (recoverState e) tokensUsed) ∧
      (checkAndDeductEscrow node db apiKey tokensUsed).transfers =
        (paymentFor node (recoverState e) tokensUsed).transfers ∧
      ∃ receipt, (checkAndDeductEscrow node db apiKey tokensUsed).receipt = some receipt ∧
        receipt.costTknc = (chargeFor e (rateTkncPerToken node e) tokensUsed).cost := by
  have hcall : checkAndDeductEscrow node db apiKey tokensUsed =
      billEscrow node db k (recoverState e) apiKey tokensUsed := by
    rw [checkAndDeductEscrow, listAllSpendingLimits, billLoop_eq, h.first]
  have hfits : ¬ tokensUsed > int64Max.tdiv (rateTkncPerToken node (recoverState e)) := by
    rw [rateTkncPerToken_recoverState]
    exact Int.not_lt.2 h.fits
  rw [hcall]
  simpa using billEscrow_eq node db k (recoverState e) apiKey hfits

theorem checkAndDeductEscrow_refused (h : ∀ k e, ¬ Charged node db apiKey tokensUsed k e) :
    checkAndDeductEscrow node db apiKey tokensUsed = BillingResult.refused db := by
  rw [checkAndDeductEscrow, listAllSpendingLimits, billLoop_eq]
  cases hfind : db.entries.find? (chargeable node apiKey) with
  | none => rfl
  | some kv =>
    rcases kv with ⟨k, e⟩
    have hover : tokensUsed > int64Max.tdiv (rateTkncPerToken node (recoverState e)) := by
      rw [rateTkncPerToken_recoverState]
      by_contra hfits
      exact h k e ⟨hfind, Int.not_lt.1 hfits⟩
    simp only [billEscrow, if_pos hover]

end TKNC.Escrow
