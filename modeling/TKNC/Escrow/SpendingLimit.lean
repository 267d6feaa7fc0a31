import TKNC.Consensus.Amount
import TKNC.Lib.Numeral

/-!
# SpendingLimit — the escrow record of an API key

`escrow/escrow.h`: one record holds the agreed rate, what was consumed, and what was transferred to
the miner.  Amounts are `int64_t`; every sum and difference is taken in the register (`i64`).
-/

namespace TKNC.Escrow

open Consensus Lib.MachineInt Lib.Numeral

/-- `SpendingLimit::State`.  The field is deserialised from a byte without a check, so a stored
record can also hold one of the bytes `6 + offset` that name no state. -/
inductive State where
  | created
  | active
  | suspended
  | exhausted
  | closed
  | paymentPending
  | unknown (offset : Fin 250)
  deriving DecidableEq, Repr

def spendingLimitStateToString : State → String
  | .created => "CREATED"
  | .active => "ACTIVE"
  | .suspended => "SUSPENDED"
  | .exhausted => "EXHAUSTED"
  | .closed => "CLOSED"
  | .paymentPending => "PAYMENT_PENDING"
  | .unknown _ => "UNKNOWN"

structure SpendingLimit where
  escrowId : Bytes := []
  userWallet : Bytes := []
  minerWallet : Bytes := []
  modelName : Bytes := []
  modelHash : Bytes := []
  snapshotHash : Bytes := []
  apiKey : Bytes := []
  totalTknc : Int := 0
  consumedTknc : Int := 0
  spendingLimit : Int := 0
  transferredTknc : Int := 0
  confirmedTknc : Int := 0
  pendingTxids : Bytes := []
  quotaTokens : Int := 0
  usedTokens : Int := 0
  rateTokensPerTknc : Int := 0
  rateTkncPerToken : Int := 0
  createdAt : Int := 0
  expiresAt : Int := 0
  lastActivity : Int := 0
  state : State := .created
  deriving DecidableEq, Repr

namespace SpendingLimit

def getRemainingLimit (e : SpendingLimit) : Int :=
  if e.totalTknc = 0 then int64Max else i64 (e.totalTknc - e.consumedTknc)

def isExhausted (e : SpendingLimit) : Bool :=
  if e.totalTknc = 0 then false
  -- the money is spent, or the token quota is used up
  else decide (e.consumedTknc ≥ e.totalTknc) || decide (e.usedTokens ≥ e.quotaTokens)

def isExpired (e : SpendingLimit) (now : Int) : Bool :=
  if e.expiresAt ≤ 0 then false else decide (now > e.expiresAt)

def isActive (e : SpendingLimit) : Bool :=
  e.state = .created || e.state = .active || e.state = .paymentPending

end SpendingLimit

/-! ## Creation -/

/-- Arguments of the `createescrow` call, with what it takes from elsewhere: the hash of the
pricing snapshot, the random suffix of the new id and the clock. -/
structure CreateEscrowArgs where
  userWallet : Bytes
  minerWallet : Bytes
  amount : Int
  rateTokensPerTknc : Int
  modelName : Bytes
  modelHash : Bytes
  apiKey : Bytes
  snapshotHash : Bytes
  suffix : Bytes
  now : Int

def generateSpendingLimitID (sourceId suffix : Bytes) : Bytes :=
  let base := if sourceId.length > 16 then sourceId.drop (sourceId.length - 16) else sourceId
  ascii "escrow_" ++ base ++ ascii "_" ++ suffix.take 8

def snapshotRate (rateTokensPerTknc : Int) : Int :=
  if rateTokensPerTknc ≥ coin then 1 else coin.tdiv rateTokensPerTknc

def createescrow (args : CreateEscrowArgs) : Except String SpendingLimit :=
  if args.amount < 0 then
    .error "Amount must be non-negative (0 = unlimited)"
  else if args.rateTokensPerTknc ≤ 0 then
    .error "Rate must be positive"
  else
    .ok
      { escrowId := generateSpendingLimitID args.apiKey args.suffix
        userWallet := args.userWallet
        minerWallet := args.minerWallet
        modelName := args.modelName
        modelHash := args.modelHash
        snapshotHash := args.snapshotHash
        apiKey := args.apiKey
        totalTknc := args.amount
        consumedTknc := 0
        spendingLimit := args.amount
        -- amount * rate overflows for large arguments, and is rounded down to whole tokens
        quotaTokens :=
          if args.amount = 0 then int64Max
          else (i64 (args.amount * args.rateTokensPerTknc)).tdiv coin
        usedTokens := 0
        rateTokensPerTknc := args.rateTokensPerTknc
        rateTkncPerToken := snapshotRate args.rateTokensPerTknc
        createdAt := args.now
        expiresAt := i64 (args.now + 90 * 86400)
        lastActivity := args.now
        state := .created }

/-- A record as creation leaves it: nothing billed, nothing transferred, nothing pending. -/
structure Fresh (e : SpendingLimit) : Prop where
  consumed : e.consumedTknc = 0
  transferred : e.transferredTknc = 0
  confirmed : e.confirmedTknc = 0
  pending : e.pendingTxids = []

theorem fresh_of_createescrow {args : CreateEscrowArgs} {e : SpendingLimit}
    (h : createescrow args = .ok e) : Fresh e := by
  unfold createescrow at h
  split at h
  · cases h
  · split at h
    · cases h
    · cases h
      exact ⟨rfl, rfl, rfl, rfl⟩

end TKNC.Escrow
