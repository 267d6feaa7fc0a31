import TKNC.Escrow.PendingTxids
import TKNC.Escrow.SpendingLimit
import TKNC.Lib.AccountBook
import TKNC.Wallet.Wallet

/-!
# Confirmation — moving confirmed transfers out of the pending list

`UpdateConfirmedTransfers` looks up the wallet of the payer, splits the pending list into confirmed
and unconfirmed entries and adds the confirmed amounts to `confirmedTknc`.  It changes the record
only if the confirmed amounts sum to something positive.
-/

namespace TKNC.Escrow

open Lib.AccountBook Lib.MachineInt Lib.Numeral Wallet

def amountSum64 (l : List PendingEntry) : Int :=
  l.foldl (fun acc e => i64 (acc + e.2)) 0

theorem foldl_i64 (l : List PendingEntry) {acc : Int} (hacc : Fits 64 acc) :
    l.foldl (fun acc e => i64 (acc + e.2)) acc = i64 (acc + total Prod.snd l) := by
  induction l generalizing acc with
  | nil => simp [i64_of_fits hacc]
  | cons e l ih =>
    -- wrapping after every addition is wrapping once at the end
    rw [List.foldl_cons, ih (fits_i64 _), total_cons]
    simp only [i64_eq]
    omega

theorem amountSum64_eq (l : List PendingEntry) : amountSum64 l = i64 (total Prod.snd l) := by
  rw [amountSum64, foldl_i64 l (by decide), Int.zero_add]

/-! ## The update -/

def confirmedIn (w : CWallet) (e : PendingEntry) : Bool :=
  isTxConfirmedOnChain e.1 w

def newlyConfirmed (w : CWallet) (pending : List PendingEntry) : Int :=
  amountSum64 (pending.filter (confirmedIn w))

def stillPending (w : CWallet) (pending : List PendingEntry) : List PendingEntry :=
  pending.filter (fun e => !confirmedIn w e)

def updateConfirmedTransfers (node : NodeContext) (escrow : SpendingLimit) : SpendingLimit :=
  if escrow.pendingTxids = [] then escrow
  else
    let pending := parsePendingTxids escrow.pendingTxids
    if pending = [] then escrow
    else
      match findWalletByAddress node escrow.userWallet with
      | none => escrow
      | some userWallet =>
          let newly := newlyConfirmed userWallet pending
          if newly > 0 then
            { escrow with
              confirmedTknc := i64 (escrow.confirmedTknc + newly)
              pendingTxids := serializePendingTxids (stillPending userWallet pending) }
          else
            escrow

/-- Everything the update can do: nothing, or move the confirmed entries of the payer's wallet. -/
theorem updateConfirmedTransfers_cases (node : NodeContext) (escrow : SpendingLimit) :
    updateConfirmedTransfers node escrow = escrow ∨
      ∃ w, findWalletByAddress node escrow.userWallet = some w ∧
        0 < newlyConfirmed w (parsePendingTxids escrow.pendingTxids) ∧
        updateConfirmedTransfers node escrow =
          { escrow with
            confirmedTknc := i64 (escrow.confirmedTknc +
              newlyConfirmed w (parsePendingTxids escrow.pendingTxids))
            pendingTxids := serializePendingTxids
              (stillPending w (parsePendingTxids escrow.pendingTxids)) } := by
  unfold updateConfirmedTransfers
  split
  · exact Or.inl rfl
  · dsimp only
    split
    · exact Or.inl rfl
    · split
      · exact Or.inl rfl
      · rename_i w hw
        split
        · rename_i hpos
          exact Or.inr ⟨w, hw, hpos, rfl⟩
        · exact Or.inl rfl

variable {escrow : SpendingLimit} {node : NodeContext}

theorem updateConfirmedTransfers_of_pos {w : CWallet}
    (hw : findWalletByAddress node escrow.userWallet = some w)
    (hpos : 0 < newlyConfirmed w (parsePendingTxids escrow.pendingTxids)) :
    updateConfirmedTransfers node escrow =
      { escrow with
        confirmedTknc := i64 (escrow.confirmedTknc +
          newlyConfirmed w (parsePendingTxids escrow.pendingTxids))
        pendingTxids := serializePendingTxids
          (stillPending w (parsePendingTxids escrow.pendingTxids)) } := by
  have hparse : parsePendingTxids escrow.pendingTxids ≠ [] := by
    intro hnil
    rw [hnil] at hpos
    exact absurd hpos (by simp [newlyConfirmed, amountSum64])
  have hstr : escrow.pendingTxids ≠ [] := by
    intro hnil
    rw [hnil] at hparse
    exact hparse rfl
  simp only [updateConfirmedTransfers, if_neg hstr, if_neg hparse, hw, if_pos hpos]

theorem updateConfirmedTransfers_frame (node : NodeContext) (escrow : SpendingLimit) :
    ∃ confirmed pending, updateConfirmedTransfers node escrow =
      { escrow with confirmedTknc := confirmed, pendingTxids := pending } := by
  rcases updateConfirmedTransfers_cases node escrow with h | ⟨w, _, _, h⟩
  · exact ⟨escrow.confirmedTknc, escrow.pendingTxids, h⟩
  · exact ⟨_, _, h⟩

theorem parse_stillPending (w : CWallet) (s : Bytes) :
    parsePendingTxids (serializePendingTxids (stillPending w (parsePendingTxids s))) =
      stillPending w (parsePendingTxids s) :=
  parse_serialize fun _ he => wellFormed_of_mem_parse (List.mem_of_mem_filter he)

/-- An update that acts always changes the string: the new one stands for fewer entries. -/
theorem pendingTxids_changed {w : CWallet} {s : Bytes}
    (hpos : 0 < newlyConfirmed w (parsePendingTxids s)) :
    serializePendingTxids (stillPending w (parsePendingTxids s)) ≠ s := by
  intro heq
  have hparse : stillPending w (parsePendingTxids s) = parsePendingTxids s := by
    rw [← parse_stillPending w s, heq]
  -- no entry would have been confirmed, and then the sum is zero
  have hnone : (parsePendingTxids s).filter (confirmedIn w) = [] := by
    rw [List.filter_eq_nil_iff]
    intro e he
    have hkeep := List.filter_eq_self.1 hparse e he
    simpa using hkeep
  rw [newlyConfirmed, hnone] at hpos
  exact absurd hpos (by decide)

theorem pendingTxids_update_eq_iff {w : CWallet}
    (hw : findWalletByAddress node escrow.userWallet = some w) :
    (updateConfirmedTransfers node escrow).pendingTxids = escrow.pendingTxids ↔
      newlyConfirmed w (parsePendingTxids escrow.pendingTxids) ≤ 0 := by
  constructor
  · intro hsame
    by_contra hpos
    rw [updateConfirmedTransfers_of_pos hw (Int.not_le.1 hpos)] at hsame
    exact pendingTxids_changed (Int.not_le.1 hpos) hsame
  · intro hnonpos
    rcases updateConfirmedTransfers_cases node escrow with h | ⟨w', hw', hpos, _⟩
    · rw [h]
    · cases Option.some.inj (hw.symm.trans hw')
      omega

theorem updateConfirmedTransfers_of_none (hw : findWalletByAddress node escrow.userWallet = none) :
    updateConfirmedTransfers node escrow = escrow := by
  rcases updateConfirmedTransfers_cases node escrow with h | ⟨w', hw', _, _⟩
  · exact h
  · rw [hw] at hw'
    cases hw'

/-! ## Conservation -/

theorem total_filter_add_filter_not (p : PendingEntry → Bool) (l : List PendingEntry) :
    total Prod.snd (l.filter p) + total Prod.snd (l.filter (fun e => !p e)) = total Prod.snd l := by
  rw [← total_append]
  exact total_perm (List.filter_append_perm p l)

def ledgerSum (escrow : SpendingLimit) : Int :=
  escrow.confirmedTknc + total Prod.snd (parsePendingTxids escrow.pendingTxids)

/-- The sum that the update may write stays in the register. -/
def ConfirmedSumFits (node : NodeContext) (escrow : SpendingLimit) : Prop :=
  ∀ w, findWalletByAddress node escrow.userWallet = some w →
    Fits 64 (escrow.confirmedTknc +
      total Prod.snd ((parsePendingTxids escrow.pendingTxids).filter (confirmedIn w)))

/-- An amount leaves the pending list exactly when it is counted as confirmed, whatever the string
was; and the text list stands for any list of entries that holds no separator. -/
theorem ledgerSum_updateConfirmedTransfers {node : NodeContext} {escrow : SpendingLimit}
    (hfits : ConfirmedSumFits node escrow) {txids : List PendingEntry}
    (hwell : ∀ e ∈ txids, WellFormed e) :
    ledgerSum (updateConfirmedTransfers node escrow) = ledgerSum escrow ∧
      parsePendingTxids (serializePendingTxids txids) = txids := by
  refine ⟨?_, parse_serialize hwell⟩
  rcases updateConfirmedTransfers_cases node escrow with hsame | ⟨w, hw, _, hmoved⟩
  · rw [hsame]
  · -- wrapping the sum first and then the result is wrapping once, and the result fits
    have hconfirmed : i64 (escrow.confirmedTknc +
        newlyConfirmed w (parsePendingTxids escrow.pendingTxids)) = escrow.confirmedTknc +
          total Prod.snd ((parsePendingTxids escrow.pendingTxids).filter (confirmedIn w)) := by
      rw [← i64_of_fits (hfits w hw), newlyConfirmed, amountSum64_eq]
      simp only [i64_eq]
      omega
    rw [hmoved]
    simp only [ledgerSum, hconfirmed, parse_stillPending]
    rw [stillPending, Int.add_assoc, total_filter_add_filter_not]

def confirmingWallet : CWallet :=
  { CWallet.owning [ascii "user"] with mapWallet := knownTxs [1] ⟨1, []⟩ }

def mixedRecord : SpendingLimit :=
  { userWallet := ascii "user"
    confirmedTknc := 7
    pendingTxids := getHex 1 ++ ascii ":5;junk;:-3;00:4;00:4;00:x" }

theorem ledgerSum_mixedRecord :
    ConfirmedSumFits (.ofWallets [confirmingWallet]) mixedRecord ∧
      ledgerSum (updateConfirmedTransfers (.ofWallets [confirmingWallet]) mixedRecord) =
          ledgerSum mixedRecord ∧
        parsePendingTxids (serializePendingTxids [(ascii "ab", -3), ([], 0)]) =
          [(ascii "ab", -3), ([], 0)] := by
  have hwallet : findWalletByAddress (.ofWallets [confirmingWallet]) mixedRecord.userWallet =
      some confirmingWallet := rfl
  have hfits : ConfirmedSumFits (.ofWallets [confirmingWallet]) mixedRecord := by
    intro w hw
    cases hwallet.symm.trans hw
    decide
  have hwell : ∀ e ∈ [(ascii "ab", (-3 : Int)), ([], 0)], WellFormed e :=
    List.forall_mem_cons.2 ⟨⟨by decide, by decide, by decide⟩,
      List.forall_mem_singleton.2 ⟨by decide, by decide, by decide⟩⟩
  exact ⟨hfits, ledgerSum_updateConfirmedTransfers hfits hwell⟩

end TKNC.Escrow
