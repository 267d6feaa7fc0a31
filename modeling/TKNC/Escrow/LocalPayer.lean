import TKNC.Escrow.Admission
import TKNC.Escrow.Payer

/-!
# LocalPayer — is a record trusted only on the node of its payer?

A record can come from a peer with any limit in it.  Admission is meant to trust it only where a
wallet of the payer backs it, and its texts for a missing wallet say so.  The lookup of that wallet
falls back to the first loaded one, so the refusal is out of reach on any node with a wallet.
-/

namespace TKNC.Escrow

open Consensus Lib.MachineInt Lib.Numeral Wallet

/-- The wallet owns the address; a string that is no address has no owner. -/
def Owns (node : NodeContext) (w : CWallet) (address : Bytes) : Prop :=
  ∃ dest, node.decodeDestination address = some dest ∧ w.isMine dest = true

/-- The key is admitted only if a loaded wallet that owns the user address has funds. -/
def PayerIsLocal (node : Node) (db : Database) (apiKey : Bytes) (e : SpendingLimit) : Prop :=
  (canAffordInference node db apiKey).1 = .ok () →
    ∃ w ∈ node.loaded, Owns node.toNodeContext w e.userWallet ∧ 0 < w.available

/-- The wallet would get the record admitted: the tests of the record succeed, and the wallet has
funds that are not all reserved. -/
structure Vouches (node : Node) (apiKey : Bytes) (e : SpendingLimit) (w : CWallet) : Prop where
  debt : e.totalTknc = 0 → 0 < e.consumedTknc →
    i64 (e.consumedTknc - e.transferredTknc) < coin
  usable : e.state ≠ .suspended ∧ e.state ≠ .closed ∧ e.state ≠ .exhausted
  unexpired : e.isExpired node.getTime = false
  limit : 0 < e.totalTknc → 0 < e.getRemainingLimit
  funds : 0 < w.available
  unreserved : node.pendingCosts apiKey < w.available

theorem admissible_iff_vouches (node : Node) (apiKey : Bytes) (e : SpendingLimit) :
    Admissible node apiKey e ↔
      ∃ w, findWalletByAddress node.toNodeContext e.userWallet = some w ∧
        Vouches node apiKey e w := by
  constructor
  · rintro ⟨hdebt, husable, hunexpired, hlimit, w, hw, hfunds, hunreserved⟩
    exact ⟨w, hw, hdebt, husable, hunexpired, hlimit, hfunds, hunreserved⟩
  · rintro ⟨w, hw, hdebt, husable, hunexpired, hlimit, hfunds, hunreserved⟩
    exact ⟨hdebt, husable, hunexpired, hlimit, w, hw, hfunds, hunreserved⟩

theorem findWalletByAddress_of_no_owner {node : NodeContext} {address : Bytes}
    (h : ∀ w ∈ node.loaded, ¬ Owns node w address) :
    findWalletByAddress node address = node.fallback := by
  cases hdest : node.decodeDestination address with
  | none =>
    cases hctx : node.walletCtx with
    | none => simp [findWalletByAddress, NodeContext.fallback, hctx]
    | some wallets =>
      by_cases haddr : address = [] <;>
        simp [findWalletByAddress, NodeContext.fallback, hctx, haddr, hdest]
  | some dest =>
    refine findWalletByAddress_of_not_owned hdest ?_
    rintro ⟨w, hw, hmine⟩
    exact h w hw ⟨dest, hdest, hmine⟩

theorem findWalletByAddress_of_owner {node : NodeContext} {address : Bytes}
    (h : ∃ w ∈ node.loaded, Owns node w address) :
    ∃ w ∈ node.loaded, findWalletByAddress node address = some w ∧ Owns node w address := by
  rcases h with ⟨w, hw, dest, hdest, hmine⟩
  rcases findWalletByAddress_of_owned hdest ⟨w, hw, hmine⟩ with ⟨w', hlookup, hmine'⟩
  exact ⟨w', loaded_of_findWalletByAddress hlookup, hlookup, dest, hdest, hmine'⟩

/-- Admission asks the payer exactly if the payer has a wallet on the node, or if the wallet that
stands in would not get the record admitted. -/
theorem payerIsLocal_iff {node : Node} {db : Database} {apiKey : Bytes} {e : SpendingLimit}
    (hselected : findSpendingLimitByAPIKey db apiKey = some e) :
    PayerIsLocal node db apiKey e ↔
      (∃ w ∈ node.loaded, Owns node.toNodeContext w e.userWallet) ∨
        ∀ w, node.fallback = some w → ¬ Vouches node apiKey e w := by
  have hadmitted : (canAffordInference node db apiKey).1 = .ok () ↔
      ∃ w, findWalletByAddress node.toNodeContext e.userWallet = some w ∧
        Vouches node apiKey e w := by
    rw [canAffordInference_ok_iff, ← admissible_iff_vouches]
    simp [hselected]
  by_cases howned : ∃ w ∈ node.loaded, Owns node.toNodeContext w e.userWallet
  · refine iff_of_true ?_ (Or.inl howned)
    intro hok
    rcases hadmitted.1 hok with ⟨w, hw, hvouches⟩
    rcases findWalletByAddress_of_owner howned with ⟨w', hmem, hw', howns⟩
    cases Option.some.inj (hw.symm.trans hw')
    exact ⟨w, hmem, howns, hvouches.funds⟩
  · -- nobody owns the address, so the key must not be admitted
    have hlookup : findWalletByAddress node.toNodeContext e.userWallet = node.fallback :=
      findWalletByAddress_of_no_owner (by simpa using howned)
    rw [hlookup] at hadmitted
    simp only [howned, false_or]
    constructor
    · intro hlocal w hw hvouches
      rcases hlocal (hadmitted.2 ⟨w, hw, hvouches⟩) with ⟨w', hmem, howns, _⟩
      exact howned ⟨w', hmem, howns⟩
    · intro hrefused hok
      rcases hadmitted.1 hok with ⟨w, hw, hvouches⟩
      exact absurd hvouches (hrefused w hw)

/-! ## A forged limit -/

def forgedRecord : SpendingLimit :=
  { userRecord with
    totalTknc := 100000000000000
    quotaTokens := 1000000 }

def forgedDb : Database :=
  (writeSpendingLimitFromP2P Lib.OrderedMap.empty forgedRecord).2

theorem payerIsLocal_iff_forged :
    findSpendingLimitByAPIKey forgedDb (ascii "key") = some forgedRecord ∧
    (PayerIsLocal strangerNode forgedDb (ascii "key") forgedRecord ↔
      (∃ w ∈ strangerNode.loaded, Owns strangerNode.toNodeContext w forgedRecord.userWallet) ∨
        ∀ w, strangerNode.fallback = some w →
          ¬ Vouches strangerNode (ascii "key") forgedRecord w) :=
  have hselected : findSpendingLimitByAPIKey forgedDb (ascii "key") = some forgedRecord := by decide
  ⟨hselected, payerIsLocal_iff hselected⟩

theorem not_payerIsLocal_forged :
    forgedRecord.userWallet ≠ [] ∧
      (∀ w ∈ strangerNode.loaded, ¬ Owns strangerNode.toNodeContext w forgedRecord.userWallet) ∧
      (canAffordInference strangerNode forgedDb (ascii "key")).1 = .ok () ∧
      ¬ PayerIsLocal strangerNode forgedDb (ascii "key") forgedRecord := by
  have hstranger : ∀ w ∈ strangerNode.loaded,
      ¬ Owns strangerNode.toNodeContext w forgedRecord.userWallet := by
    rintro w hw ⟨dest, hdest, hmine⟩
    cases List.mem_singleton.1 hw
    cases Option.some.inj hdest
    exact absurd hmine (by decide)
  have hadmitted : (canAffordInference strangerNode forgedDb (ascii "key")).1 = .ok () := by rfl
  refine ⟨by decide, hstranger, hadmitted, ?_⟩
  intro hlocal
  rcases hlocal hadmitted with ⟨w, hw, howns, _⟩
  exact hstranger w hw howns

end TKNC.Escrow
