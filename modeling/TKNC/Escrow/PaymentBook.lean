import TKNC.Escrow.Billing

/-!
# PaymentBook — what the ledger fields of a record stand for

A record keeps three things about its transfers: the sum of all of them, the sum of the confirmed
ones and, as text, the list of the others.  Abstractly this is an account book.  `Represents` relates
the two, and each operation of the billing code on the record is shown to be an operation of the
book, as long as the consumption stays in its register.
-/

namespace TKNC.Escrow

open Consensus Lib Lib.AccountBook Lib.MachineInt Lib.Numeral Wallet Prod SpendingLimit Int

/-! ## Books of transfers -/

/-- Transfers have positive amounts and their sum is an `int64_t`. -/
structure PaymentBook extends Book PendingEntry where
  positive : ∀ t ∈ recorded, 0 < t.2
  bounded : total Prod.snd recorded ≤ int64Max

namespace PaymentBook

def empty : PaymentBook :=
  { Book.empty with
    positive := nofun
    bounded := by decide }

def settle (b : PaymentBook) (p : PendingEntry → Bool) : PaymentBook :=
  { b.toBook.settle p with
    positive := b.positive
    bounded := b.bounded }

def record (b : PaymentBook) (t : PendingEntry) (hpos : 0 < t.2)
    (hbound : total Prod.snd b.recorded + t.2 ≤ int64Max) : PaymentBook :=
  { b.toBook.record t with
    positive := by
      intro t' ht'
      rcases List.mem_append.1 ht' with ht' | ht'
      · exact b.positive t' ht'
      · exact List.mem_singleton.1 ht' ▸ hpos
    bounded := by simpa [Book.record] using hbound }

variable (b : PaymentBook)

theorem settled_nonneg : 0 ≤ total snd b.settled :=
  total_nonneg fun t ht => le_of_lt (b.positive t (b.mem_recorded_of_settled ht))

theorem filter_nonneg (p : PendingEntry → Bool) : 0 ≤ total snd (b.pending.filter p) :=
  total_nonneg fun t ht =>
    le_of_lt (b.positive t (b.mem_recorded_of_pending (List.mem_of_mem_filter ht)))

theorem settled_add_filter_le (p : PendingEntry → Bool) :
    total snd b.settled + total snd (b.pending.filter p) ≤ int64Max := by
  have hall := (b.settle p).toBook.total_recorded snd
  have hrest := b.filter_nonneg (fun t => !p t)
  have hbound := b.bounded
  simp only [settle, Book.settle, total_append] at hall
  omega

theorem pending_nonneg : 0 ≤ total snd b.pending :=
  total_nonneg fun t ht => le_of_lt (b.positive t (b.mem_recorded_of_pending ht))

theorem pending_le : total snd b.pending ≤ int64Max := by
  have hall := b.toBook.total_recorded snd
  have hsettled := b.settled_nonneg
  have hbound := b.bounded
  omega

end PaymentBook

/-! ## Records and books -/

structure Represents (e : SpendingLimit) (b : PaymentBook) : Prop where
  pending : parsePendingTxids e.pendingTxids = b.pending
  confirmed : e.confirmedTknc = total Prod.snd b.settled
  transferred : e.transferredTknc = total Prod.snd b.recorded

variable {e : SpendingLimit}

theorem Fresh.represents (h : Fresh e) : Represents e PaymentBook.empty :=
  { pending := by rw [h.pending]; rfl
    confirmed := h.confirmed
    transferred := h.transferred }

variable {b : PaymentBook}

theorem Represents.of_ledger {e e' : SpendingLimit} (h : Represents e b)
    (hpending : e'.pendingTxids = e.pendingTxids) (hconfirmed : e'.confirmedTknc = e.confirmedTknc)
    (htransferred : e'.transferredTknc = e.transferredTknc) : Represents e' b :=
  { pending := by rw [hpending, h.pending]
    confirmed := by rw [hconfirmed, h.confirmed]
    transferred := by rw [htransferred, h.transferred] }

/-- Confirmation settles entries of the book and records none. -/
theorem Represents.update (h : Represents e b) (node : NodeContext) :
    ∃ b' : PaymentBook, b'.recorded = b.recorded ∧
      Represents (updateConfirmedTransfers node e) b' := by
  rcases updateConfirmedTransfers_cases node e with hsame | ⟨w, _, _, hmoved⟩
  · exact ⟨b, rfl, hsame.symm ▸ h⟩
  · refine ⟨b.settle (confirmedIn w), rfl, ?_⟩
    have hsettled := b.settled_nonneg
    have hfilter := b.filter_nonneg (confirmedIn w)
    have hsum := b.settled_add_filter_le (confirmedIn w)
    simp only [int64Max] at hsum
    -- the sums of the source never wrap: they are parts of a bounded total
    have hnewly : newlyConfirmed w b.pending = total snd (b.pending.filter (confirmedIn w)) := by
      rw [newlyConfirmed, amountSum64_eq]
      exact i64_of_fits (fits64_iff.2 (by omega))
    rw [hmoved]
    refine ⟨?_, ?_, h.transferred⟩
    · rw [parse_stillPending, h.pending]
      rfl
    · rw [h.pending, h.confirmed, hnewly, i64_of_fits (fits64_iff.2 (by omega))]
      exact (total_append _ _).symm

theorem wellFormed_getHex {txid : Txid} {amount : Int} (hfits : Fits 64 amount) :
    WellFormed (getHex txid, amount) :=
  { noColon := fun hmem => hexValue_of_mem_getHex hmem (by decide)
    noSemicolon := fun hmem => hexValue_of_mem_getHex hmem (by decide)
    fits := hfits }

theorem Represents.recordTransfer (h : Represents e b) (txid : Txid) {amount : Int}
    (hpos : 0 < amount) (hbound : total snd b.recorded + amount ≤ int64Max) :
    Represents (recordTransfer e (getHex txid) amount)
      (b.record (getHex txid, amount) hpos hbound) := by
  have hrecorded : 0 ≤ total snd b.recorded :=
    total_nonneg fun t ht => le_of_lt (b.positive t ht)
  simp only [int64Max] at hbound
  refine ⟨?_, h.confirmed, ?_⟩
  · rw [Escrow.recordTransfer, parse_appendPending (wellFormed_getHex (fits64_iff.2 (by omega))),
      h.pending]
    rfl
  · rw [Escrow.recordTransfer, h.transferred, i64_of_fits (fits64_iff.2 (by omega))]
    simp [PaymentBook.record, Book.record]

/-! ## Billing -/

/-- A record and its book, with a consumption that covers what was transferred. -/
structure Ledger (e : SpendingLimit) (b : PaymentBook) : Prop where
  represents : Represents e b
  total_le : e.totalTknc ≤ int64Max
  consumed_nonneg : 0 ≤ e.consumedTknc
  consumed_le : e.consumedTknc ≤ int64Max
  covered : total Prod.snd b.recorded ≤ e.consumedTknc / coin * coin

theorem Fresh.ledger (h : Fresh e) (htotal : e.totalTknc ≤ int64Max) :
    Ledger e PaymentBook.empty :=
  { represents := h.represents
    total_le := htotal
    consumed_nonneg := by simp [h.consumed]
    consumed_le := by simp [h.consumed, int64Max]
    covered := by simp [h.consumed, PaymentBook.empty, Book.empty] }

/-- The charge keeps the consumption of an unlimited record in its register. -/
def ChargeFits (node : Node) (e : SpendingLimit) (tokensUsed : Int) : Prop :=
  e.totalTknc = 0 → 0 ≤ tokensUsed ∧
    e.consumedTknc + max 1 (tokensUsed * rateTkncPerToken node e) ≤ int64Max

theorem cost_unlimited {rate tokensUsed : Int} (htotal : e.totalTknc = 0) (hrate : 1 ≤ rate)
    (htokens : 0 ≤ tokensUsed) (hfits : tokensUsed * rate ≤ int64Max) :
    (chargeFor e rate tokensUsed).cost = max 1 (tokensUsed * rate) := by
  have hnonneg : 0 ≤ tokensUsed * rate := mul_nonneg htokens (by omega)
  simp only [int64Max] at hfits
  simp only [chargeFor, getRemainingLimit, htotal, if_true,
    i64_of_fits (fits64_iff.2 ⟨by omega, hfits⟩), int64Max]
  split <;> split <;> simp only [] <;> omega

theorem cost_limited (rate tokensUsed : Int) (htotal : e.totalTknc ≠ 0)
    (htotal_le : e.totalTknc ≤ int64Max) (hnonneg : 0 ≤ e.consumedTknc)
    (hleft : e.isExhausted = false) :
    1 ≤ (chargeFor e rate tokensUsed).cost ∧
      e.consumedTknc + (chargeFor e rate tokensUsed).cost ≤ e.totalTknc := by
  simp only [isExhausted, if_neg htotal, Bool.or_eq_false_iff,
    decide_eq_false_iff_not, ge_iff_le, not_le] at hleft
  simp only [int64Max] at htotal_le
  have hexact : i64 (e.totalTknc - e.consumedTknc) = e.totalTknc - e.consumedTknc :=
    i64_of_fits (fits64_iff.2 (by omega))
  simp only [chargeFor, getRemainingLimit, if_neg htotal, hexact]
  -- whatever the product wrapped to, the cost is cut to lie between one and what is left
  generalize i64 (tokensUsed * rate) = cost
  split <;> split <;> simp only [] <;> omega

theorem one_le_cost (rate tokensUsed : Int) (htotal_le : e.totalTknc ≤ int64Max)
    (hnonneg : 0 ≤ e.consumedTknc) (hleft : e.isExhausted = false) :
    1 ≤ (chargeFor e rate tokensUsed).cost := by
  by_cases htotal : e.totalTknc = 0
  · simp only [chargeFor, getRemainingLimit, htotal, if_true, int64Max]
    split <;> split <;> simp only [] <;> omega
  · exact (cost_limited rate tokensUsed htotal htotal_le hnonneg hleft).1

theorem Ledger.update (h : Ledger e b) (node : NodeContext) :
    ∃ b' : PaymentBook, b'.recorded = b.recorded ∧
      Ledger (updateConfirmedTransfers node e) b' := by
  rcases h.represents.update node with ⟨b', hrecorded, hrepresents⟩
  rcases updateConfirmedTransfers_frame node e with ⟨confirmed, pending, hframe⟩
  rw [hframe] at hrepresents ⊢
  exact ⟨b', hrecorded, hrepresents, h.total_le, h.consumed_nonneg, h.consumed_le,
    hrecorded ▸ h.covered⟩

variable {tokensUsed : Int}

theorem Ledger.cost_bounds {node : Node} (h : Ledger e b) (hleft : e.isExhausted = false)
    (hcharge : ChargeFits node e tokensUsed) :
    1 ≤ (chargeFor e (rateTkncPerToken node e) tokensUsed).cost ∧
      e.consumedTknc + (chargeFor e (rateTkncPerToken node e) tokensUsed).cost ≤ int64Max := by
  by_cases htotal : e.totalTknc = 0
  · rcases hcharge htotal with ⟨htokens, hsum⟩
    have hnonneg := h.consumed_nonneg
    rw [cost_unlimited htotal (one_le_rateTkncPerToken node e) htokens (by omega)]
    exact ⟨by omega, hsum⟩
  · have hbounds := cost_limited (rateTkncPerToken node e) tokensUsed htotal h.total_le
      h.consumed_nonneg hleft
    have hle := h.total_le
    exact ⟨hbounds.1, by omega⟩

theorem coinsToPay_eq {prevConsumed : Int} (hprev : 0 ≤ prevConsumed)
    (hle : prevConsumed ≤ e.consumedTknc) (hmax : e.consumedTknc ≤ int64Max) :
    coinsToPay e prevConsumed = (e.consumedTknc / coin - prevConsumed / coin) * coin := by
  simp only [int64Max] at hmax
  simp only [coinsToPay, coin]
  rw [tdiv_eq_ediv_of_nonneg (by omega), tdiv_eq_ediv_of_nonneg hprev]
  -- the crossed amount is at most the consumption, so neither operation wraps
  have hcoins : i64 (e.consumedTknc / 100000000 - prevConsumed / 100000000) =
      e.consumedTknc / 100000000 - prevConsumed / 100000000 :=
    i64_of_fits (fits64_iff.2 (by omega))
  rw [hcoins]
  exact i64_of_fits (fits64_iff.2 (by omega))

theorem crossesBoundary_iff {prevConsumed : Int} (hprev : 0 ≤ prevConsumed)
    (hle : prevConsumed ≤ e.consumedTknc) :
    crossesBoundary e prevConsumed = true ↔
      prevConsumed / coin < e.consumedTknc / coin ∧ e.minerWallet ≠ [] := by
  simp only [crossesBoundary, Bool.and_eq_true, decide_eq_true_eq]
  rw [tdiv_eq_ediv_of_nonneg (by omega), tdiv_eq_ediv_of_nonneg hprev]

def Transfer.entry (tr : Transfer) : PendingEntry :=
  (getHex tr.txid, tr.amount)

theorem Ledger.charged {node : Node} (h : Ledger e b) (hleft : e.isExhausted = false)
    (hcharge : ChargeFits node e tokensUsed) :
    (chargedRecord node (recoverState e) tokensUsed).consumedTknc =
        e.consumedTknc + (chargeFor e (rateTkncPerToken node e) tokensUsed).cost ∧
      ∃ b' : PaymentBook, b'.recorded = b.recorded ∧
        Ledger (chargedRecord node (recoverState e) tokensUsed) b' := by
  have hconsumed : (chargedRecord node (recoverState e) tokensUsed).consumedTknc =
      e.consumedTknc + (chargeFor e (rateTkncPerToken node e) tokensUsed).cost := by
    have hbounds := h.cost_bounds hleft hcharge
    have hnonneg := h.consumed_nonneg
    simp only [int64Max] at hbounds
    exact consumedTknc_charged_recovered (fits64_iff.2 (by omega))
  -- the ledger fields pass through the recovery of the state, the confirmation and the charge
  have hrecovered : Represents (recoverState e) b :=
    h.represents.of_ledger (by simp) (by simp) (by simp)
  rcases hrecovered.update node.toNodeContext with ⟨b', hrecorded, hupdated⟩
  rcases chargedRecord_ledger node (recoverState e) tokensUsed with ⟨hconfirmed, hpending⟩
  rcases updateConfirmedTransfers_frame node.toNodeContext (recoverState e) with ⟨_, _, hframe⟩
  have hbounds := h.cost_bounds hleft hcharge
  refine ⟨hconsumed, b', hrecorded, ?_, ?_, ?_, ?_, ?_⟩
  · refine hupdated.of_ledger hpending hconfirmed ?_
    rw [transferredTknc_chargedRecord, hframe]
  · rw [totalTknc_chargedRecord, totalTknc_recoverState]
    exact h.total_le
  · rw [hconsumed]
    have := h.consumed_nonneg
    omega
  · rw [hconsumed]
    exact hbounds.2
  · rw [hconsumed, hrecorded]
    have := h.covered
    simp only [coin] at this ⊢
    omega

theorem Ledger.billed {node : Node} (h : Ledger e b) (hleft : e.isExhausted = false)
    (hcharge : ChargeFits node e tokensUsed) :
    ∃ b' : PaymentBook,
      b'.recorded = b.recorded ++
        (paymentFor node (recoverState e) tokensUsed).transfers.map Transfer.entry ∧
      Ledger (billedRecord node (recoverState e) tokensUsed) b' := by
  rcases h.charged hleft hcharge with ⟨hconsumed, b', hrecorded, hledger⟩
  rcases billedRecord_cases node (recoverState e) tokensUsed with
    ⟨hbilled, hnil⟩ | ⟨w, amount, subtractFee, txid, _, hcross, hamount, hbilled, hone⟩
  · exact ⟨b', by rw [hrecorded, hnil, List.map_nil, List.append_nil], hbilled.symm ▸ hledger⟩
  · have hcost := (h.cost_bounds hleft hcharge).1
    have hprev := h.consumed_nonneg
    rw [consumedTknc_recoverState] at hcross hamount
    have hle : e.consumedTknc ≤
        (chargedRecord node (recoverState e) tokensUsed).consumedTknc := by omega
    have hcrossed := ((crossesBoundary_iff hprev hle).1 hcross).1
    rw [coinsToPay_eq hprev hle hledger.consumed_le] at hamount
    have hcovered := h.covered
    have hmax := hledger.consumed_le
    rw [← hrecorded] at hcovered
    simp only [coin, int64Max] at hcrossed hamount hcovered hmax
    -- The amount is positive and what is recorded stays below the crossed boundary.
    have hpos : 0 < amount := by omega
    have hsum : total snd b'.recorded + amount ≤
        (chargedRecord node (recoverState e) tokensUsed).consumedTknc / coin * coin := by
      simp only [coin]
      omega
    have hbound : total snd b'.recorded + amount ≤ int64Max := by
      simp only [coin, int64Max] at hsum ⊢
      omega
    refine ⟨b'.record (getHex txid, amount) hpos hbound, ?_, ?_⟩
    · rw [hone, ← hrecorded]
      rfl
    · rw [hbilled]
      refine ⟨hledger.represents.recordTransfer txid hpos hbound, hledger.total_le,
        hledger.consumed_nonneg, hledger.consumed_le, ?_⟩
      change total snd (b'.recorded ++ [(getHex txid, amount)]) ≤ _
      rw [total_append, total_cons, total_nil, add_zero]
      exact hsum

/-- The payer's node when the transactions of a list are in the chain and the next one to be made is
`txid`. -/
def payingNode (confirmed : List Txid) (txid : Txid) : Node :=
  { NodeContext.ofWallets
      [{ CWallet.owning [ascii "user"] with
          mapWallet := knownTxs confirmed ⟨1, []⟩
          createTransaction := fun _ _ => some txid }] with
    tokenRates := ⟨[], []⟩
    pendingCosts := fun _ => 0 }

def unlimitedArgs : CreateEscrowArgs :=
  { userWallet := ascii "user"
    minerWallet := ascii "miner"
    amount := 0
    rateTokensPerTknc := 1
    modelName := ascii "model"
    modelHash := []
    apiKey := ascii "key"
    snapshotHash := []
    suffix := ascii "1"
    now := 0 }

def unlimitedRecord : SpendingLimit :=
  { escrowId := ascii "escrow_key_1"
    userWallet := ascii "user"
    minerWallet := ascii "miner"
    modelName := ascii "model"
    apiKey := ascii "key"
    quotaTokens := 9223372036854775807
    rateTokensPerTknc := 1
    rateTkncPerToken := 100000000
    expiresAt := 7776000 }

def unlimitedKey : DbKey :=
  ⟨ascii "escrow_key_1"⟩

def unlimitedDb : Database :=
  writeSpendingLimit OrderedMap.empty unlimitedKey unlimitedRecord

theorem unlimitedDb_keyedById : KeyedById unlimitedDb := by
  unfold KeyedById
  decide

end TKNC.Escrow
