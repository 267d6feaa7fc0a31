import Mathlib.Data.List.Dedup
import TKNC.Escrow.MinerGate

/-!
# MinerCredit — is the credit of the gate real money?

The gate checks that a named transaction exists and has an output of the miner's wallet, but then
counts the amount that the client wrote next to it, once for every time it is named.  For a wallet
and a string the result says exactly when every acceptance is backed by outputs.
-/

namespace TKNC.Escrow

open Consensus Lib.AccountBook Lib.MachineInt Lib.Numeral Wallet

def namedTxids (pendingStr : Bytes) : List Txid :=
  ((parsePendingTxids pendingStr).filterMap (fun e => fromHex e.1)).dedup

def txPayment (w : CWallet) (txid : Txid) : Int :=
  match w.mapWallet txid with
  | none => 0
  | some tx =>
      if tx.depth < 0 then 0
      else ((tx.vout.filter (fun txout => w.isMine txout.scriptPubKey)).map (·.nValue)).sum

def realPayment (w : CWallet) (pendingStr : Bytes) : Int :=
  ((namedTxids pendingStr).map (txPayment w)).sum

/-- What the string claims for the entries that verify, repetitions included, as an `int64_t`. -/
def claimedPayment (w : CWallet) (pendingStr : Bytes) : Int :=
  i64 (total Prod.snd ((parsePendingTxids pendingStr).filter (verifies w)))

theorem receivedTknc_eq (w : CWallet) (pendingStr : Bytes) :
    receivedTknc w pendingStr = claimedPayment w pendingStr :=
  amountSum64_eq _

/-! ## The equivalence -/

/-- However much was served, an accepted key owes less than two TKNC of real money. -/
def CreditIsReal (node : NodeContext) (db : Database) (apiKey override : Bytes)
    (escrow : SpendingLimit) (w : CWallet) : Prop :=
  ∀ served : ServedMap, Fits 64 (served apiKey) → 0 < served apiKey →
    checkMinerReceivedPayment node db served apiKey override = .ok () →
      served apiKey - realPayment w (effectivePending escrow override) < 2 * coin

/-- The arithmetic of the gate: which pairs of a claimed total `c` and a real total `r` make the
test on the wrapped difference sound for every positive counter. -/
theorem forall_counter_iff {c r : Int} (hc : Fits 64 c) :
    (∀ s : Int, Fits 64 s → 0 < s → i64 (s - c) < 2 * coin → s - r < 2 * coin) ↔
      (0 ≤ c ∧ c ≤ r) ∨ 2 ^ 63 ≤ r + 2 * coin := by
  rw [fits64_iff] at hc
  simp only [fits64_iff, i64_eq, coin]
  constructor
  · intro h
    by_contra hbad
    push Not at hbad
    -- A negative claim makes the largest counter wrap; a claim above the real value covers it.
    by_cases hneg : c < 0
    · have := h 9223372036854775807 (by omega) (by omega) (by omega)
      omega
    · have := h (max 1 (r + 200000000)) (by omega) (by omega) (by omega)
      omega
  · intro h s hs hpos haccept
    omega

theorem creditIsReal_iff {node : NodeContext} {db : Database} {apiKey : Bytes}
    {escrow : SpendingLimit} {w : CWallet} (h : GateFound node db apiKey escrow w)
    (override : Bytes) :
    CreditIsReal node db apiKey override escrow w ↔
      (0 ≤ claimedPayment w (effectivePending escrow override) ∧
        claimedPayment w (effectivePending escrow override) ≤
          realPayment w (effectivePending escrow override)) ∨
      2 ^ 63 ≤ realPayment w (effectivePending escrow override) + 2 * coin := by
  have hfits : Fits 64 (claimedPayment w (effectivePending escrow override)) := fits_i64 _
  rw [← forall_counter_iff hfits]
  -- a counter that is the same for every key stands for its value at the key
  constructor
  · intro hcredit s hs hpos haccept
    have hgate := h.accepts_iff (fun _ => s) override hpos
    rw [receivedTknc_eq] at hgate
    exact hcredit (fun _ => s) hs hpos (hgate.2 haccept)
  · intro hall served hs hpos haccept
    have hgate := (h.accepts_iff served override hpos).1 haccept
    rw [receivedTknc_eq] at hgate
    exact hall (served apiKey) hs hpos hgate

def dustWallet : CWallet :=
  { CWallet.owning [ascii "miner"] with
    mapWallet := fun txid => if txid = 7 then some ⟨1, [⟨1, ascii "miner"⟩]⟩ else none }

def dustNode : NodeContext := NodeContext.ofWallets [dustWallet]

def dustClaim : Bytes :=
  serializePendingTxids [(getHex 7, 1000000000)]

theorem gateFound_dust : GateFound dustNode minerDb (ascii "key") minerRecord dustWallet :=
  ⟨by decide, by decide, rfl⟩

theorem creditIsReal_iff_dust :
    GateFound dustNode minerDb (ascii "key") minerRecord dustWallet ∧
      (CreditIsReal dustNode minerDb (ascii "key") dustClaim minerRecord dustWallet ↔
        (0 ≤ claimedPayment dustWallet (effectivePending minerRecord dustClaim) ∧
          claimedPayment dustWallet (effectivePending minerRecord dustClaim) ≤
            realPayment dustWallet (effectivePending minerRecord dustClaim)) ∨
        2 ^ 63 ≤ realPayment dustWallet (effectivePending minerRecord dustClaim) + 2 * coin) :=
  ⟨gateFound_dust, creditIsReal_iff gateFound_dust dustClaim⟩

theorem not_creditIsReal_dust :
    checkMinerReceivedPayment dustNode minerDb (fun _ => 1100000000) (ascii "key") dustClaim =
        .ok () ∧
      realPayment dustWallet (effectivePending minerRecord dustClaim) = 1 ∧
      ¬ CreditIsReal dustNode minerDb (ascii "key") dustClaim minerRecord dustWallet := by
  have haccept : checkMinerReceivedPayment dustNode minerDb (fun _ => 1100000000) (ascii "key")
      dustClaim = .ok () := by decide
  have hreal : realPayment dustWallet (effectivePending minerRecord dustClaim) = 1 := by decide
  refine ⟨haccept, hreal, ?_⟩
  intro hcredit
  have hbound := hcredit (fun _ => 1100000000) (by decide) (by decide) haccept
  rw [hreal] at hbound
  exact absurd hbound (by decide)

end TKNC.Escrow
