import TKNC.Escrow.Confirmation
import TKNC.Escrow.Database

/-!
# MinerGate — the miner's own check of payment

The miner counts what it served for each API key (`TrackMinerServedTokens`) and refuses a request
when the counter exceeds the payments it can verify by two TKNC (`CheckMinerReceivedPayment`).
Payments are named by the client, in a header or in the synchronised record, as pairs of a
transaction id and a claimed amount.
-/

namespace TKNC.Escrow

open Consensus Lib.MachineInt Lib.Numeral Wallet

abbrev ServedMap : Type := Bytes → Int

def servedCost (db : Database) (apiKey : Bytes) (tokensUsed : Int) : Int :=
  let tokensPerTknc :=
    match findSpendingLimitByAPIKey db apiKey with
    | some e => if e.rateTokensPerTknc > 0 then e.rateTokensPerTknc else 0
    | none => 0
  let rate := if tokensPerTknc > 0 then coin.tdiv tokensPerTknc else 1
  let rate := if rate ≤ 0 then 1 else rate
  let cost := i64 (tokensUsed * rate)
  if cost ≤ 0 then 1 else cost

def trackMinerServedTokens (db : Database) (served : ServedMap) (apiKey : Bytes)
    (tokensUsed : Int) : ServedMap :=
  if apiKey = [] ∨ tokensUsed ≤ 0 then served
  else
    fun key =>
      if key = apiKey then i64 (served apiKey + servedCost db apiKey tokensUsed) else served key

theorem servedCost_pos (db : Database) (apiKey : Bytes) (tokensUsed : Int) :
    0 < servedCost db apiKey tokensUsed := by
  unfold servedCost
  dsimp only
  split <;> omega

section Track

variable {db : Database} {served : ServedMap} {apiKey key : Bytes} {tokensUsed : Int}

theorem trackMinerServedTokens_self (hkey : apiKey ≠ []) (htokens : 0 < tokensUsed)
    (hfits : Fits 64 (served apiKey))
    (hmax : served apiKey + servedCost db apiKey tokensUsed ≤ int64Max) :
    trackMinerServedTokens db served apiKey tokensUsed apiKey =
      served apiKey + servedCost db apiKey tokensUsed := by
  have hcost := servedCost_pos db apiKey tokensUsed
  have hbounds := fits64_iff.1 hfits
  simp only [int64Max] at hmax
  simp only [trackMinerServedTokens, hkey, Int.not_le.2 htokens, or_self, if_false, if_true]
  exact i64_of_fits (fits64_iff.2 (by omega))

theorem trackMinerServedTokens_other (h : ¬ (key = apiKey ∧ apiKey ≠ [] ∧ 0 < tokensUsed)) :
    trackMinerServedTokens db served apiKey tokensUsed key = served key := by
  unfold trackMinerServedTokens
  split
  · rfl
  · rename_i hcounted
    rw [not_or, Int.not_le] at hcounted
    exact if_neg fun hkey => h ⟨hkey, hcounted⟩

end Track

/-! ## Checking -/

/-- The wallet knows the named transaction, it is not conflicted, and some output is the wallet's. -/
def verifies (w : CWallet) (e : PendingEntry) : Bool :=
  match fromHex e.1 with
  | none => false
  | some txid =>
      match w.mapWallet txid with
      | none => false
      | some tx => !decide (tx.depth < 0) && tx.vout.any (fun txout => w.isMine txout.scriptPubKey)

/-- What the miner counts as received: the amounts that the client claims for verified entries. -/
def receivedTknc (w : CWallet) (pendingStr : Bytes) : Int :=
  amountSum64 ((parsePendingTxids pendingStr).filter (verifies w))

def refusalMessage (served received : Int) : String :=
  "Miner has served " ++ formatMoney served ++ " TKNC but only received " ++ formatMoney received ++
    " TKNC in verified payments. Debt exceeds 2 TKNC grace period. " ++
    "Inference refused until payment is received."

def effectivePending (escrow : SpendingLimit) (pendingTxidsOverride : Bytes) : Bytes :=
  if pendingTxidsOverride ≠ [] then pendingTxidsOverride else escrow.pendingTxids

def checkMinerReceivedPayment (node : NodeContext) (db : Database) (served : ServedMap)
    (apiKey pendingTxidsOverride : Bytes) : Except String Unit :=
  let servedTknc := served apiKey
  -- Nothing served yet: this comes before the lookup of the record.
  if servedTknc ≤ 0 then .ok ()
  else
    match findSpendingLimitByAPIKey db apiKey with
    -- No escrow found: synchronisation may not have arrived yet.
    | none => .ok ()
    | some escrow =>
        -- A record that names no miner is not checked.
        if escrow.minerWallet = [] then .ok ()
        else
          match findWalletByAddress node escrow.minerWallet with
          -- The miner's wallet is not on this node.
          | none => .ok ()
          | some minerWallet =>
              let received := receivedTknc minerWallet (effectivePending escrow pendingTxidsOverride)
              let unconfirmedDebt := i64 (servedTknc - received)
              if unconfirmedDebt ≥ 2 * coin then .error (refusalMessage servedTknc received)
              else .ok ()

structure GateFound (node : NodeContext) (db : Database) (apiKey : Bytes) (escrow : SpendingLimit)
    (w : CWallet) : Prop where
  record : findSpendingLimitByAPIKey db apiKey = some escrow
  address : escrow.minerWallet ≠ []
  wallet : findWalletByAddress node escrow.minerWallet = some w

theorem GateFound.accepts_iff {node : NodeContext} {db : Database} {apiKey : Bytes}
    {escrow : SpendingLimit} {w : CWallet} (h : GateFound node db apiKey escrow w)
    (served : ServedMap) (override : Bytes) (hserved : 0 < served apiKey) :
    checkMinerReceivedPayment node db served apiKey override = .ok () ↔
      i64 (served apiKey - receivedTknc w (effectivePending escrow override)) < 2 * coin := by
  simp only [checkMinerReceivedPayment, if_neg (Int.not_le.2 hserved), h.record, if_neg h.address,
    h.wallet]
  split
  · simp only [reduceCtorEq, false_iff]
    omega
  · simp only [true_iff]
    omega

def minerRecord : SpendingLimit :=
  { escrowId := ascii "escrow_key_1"
    userWallet := ascii "user"
    minerWallet := ascii "miner"
    apiKey := ascii "key" }

def minerDb : Database :=
  writeSpendingLimit Lib.OrderedMap.empty ⟨ascii "escrow_key_1"⟩ minerRecord

end TKNC.Escrow
