import TKNC.Escrow.Billing

/-!
# Admission — the balance check before a request

`CanAffordInference` reads the record of the key, moves confirmed transfers out of its pending list
and writes that back, and then tests debt, state, expiry, limit and wallet balance in this order.
The read, the confirmation and the write-back are three steps: the mutex is released in between.
-/

namespace TKNC.Escrow

open Consensus Lib Lib.MachineInt Lib.Numeral Wallet

/-! ## Write-back -/

/-- The two ledger fields of the copy go into the stored record with the copy's escrow id, as that
record is now. -/
def writeBack (db : Database) (escrow : SpendingLimit) (oldPending : Bytes) : Database :=
  if escrow.pendingTxids ≠ oldPending then
    match (listAllSpendingLimits db).find? (fun kv => kv.2.escrowId = escrow.escrowId) with
    | some (k, dbEscrow) =>
        writeSpendingLimit db k
          { dbEscrow with
            confirmedTknc := escrow.confirmedTknc
            pendingTxids := escrow.pendingTxids }
    | none => db
  else
    db

variable {db : Database}

theorem writeBack_eq {k : DbKey} {escrow stored : SpendingLimit} {oldPending : Bytes}
    (hkeyed : KeyedById db) (hget : db.get? k = some stored) (hid : escrow.escrowId = k.id)
    (hchanged : escrow.pendingTxids ≠ oldPending) :
    writeBack db escrow oldPending =
      writeSpendingLimit db k
        { stored with
          confirmedTknc := escrow.confirmedTknc
          pendingTxids := escrow.pendingTxids } := by
  simp only [writeBack, if_pos hchanged, listAllSpendingLimits, hkeyed.find_id hget hid]

theorem writeBack_other {k : DbKey} {escrow : SpendingLimit} {oldPending : Bytes}
    (hkeyed : KeyedById db)
    (hother : ¬ (escrow.pendingTxids ≠ oldPending ∧ escrow.escrowId = k.id)) :
    KeyedById (writeBack db escrow oldPending) ∧
      (writeBack db escrow oldPending).get? k = db.get? k := by
  unfold writeBack
  split
  · rename_i hchanged
    split
    · rename_i k' e' hfind
      have hid : e'.escrowId = escrow.escrowId := by simpa using List.find?_some hfind
      have hkey := hkeyed _ (List.mem_of_find?_eq_some hfind)
      refine ⟨hkeyed.write hkey, OrderedMap.get?_insert_of_ne ?_⟩
      rintro rfl
      exact hother ⟨hchanged, hid.symm.trans hkey.symm⟩
    · exact ⟨hkeyed, rfl⟩
  · exact ⟨hkeyed, rfl⟩

/-! ## Tests -/

def debtCheck (node : Node) (escrow : SpendingLimit) : Except String Unit :=
  if escrow.totalTknc = 0 ∧ escrow.consumedTknc > 0 then
    let untransferred := i64 (escrow.consumedTknc - escrow.transferredTknc)
    -- The node of the payer is recognised by a wallet for the user address.
    if (findWalletByAddress node.toNodeContext escrow.userWallet).isSome then
      if untransferred ≥ coin then
        .error ("Payment required: consumed " ++ formatMoney escrow.consumedTknc ++
          " TKNC but only " ++ formatMoney escrow.transferredTknc ++
          " TKNC transferred. Please unlock wallet to enable payment transfer.")
      else .ok ()
    else if untransferred ≥ 2 * coin then
      .error ("Payment overdue: consumed " ++ formatMoney escrow.consumedTknc ++
        " TKNC but only " ++ formatMoney escrow.transferredTknc ++
        " TKNC transferred on-chain. Grace period (2 TKNC) exceeded.")
    else .ok ()
  else .ok ()

def stateCheck (now : Int) (escrow : SpendingLimit) : Except String Unit :=
  if escrow.state = .suspended then
    .error "Escrow suspended — miner may be offline."
  else if escrow.state = .closed ∨ escrow.state = .exhausted then
    .error ("Escrow is " ++ spendingLimitStateToString escrow.state ++ ".")
  else if escrow.isExpired now then
    .error "Escrow has expired."
  else .ok ()

def balanceCheck (node : Node) (apiKey : Bytes) (w : CWallet) (emptyText reservedText : String) :
    Except String Unit :=
  let available := w.available
  if available ≤ 0 then .error emptyText
  else
    let pending := node.pendingCosts apiKey
    if pending > 0 then
      let effective := if available > pending then i64 (available - pending) else 0
      if effective ≤ 0 then .error reservedText else .ok ()
    else .ok ()

def prepaidCheck (node : Node) (apiKey : Bytes) (escrow : SpendingLimit) : Except String Unit :=
  if escrow.getRemainingLimit ≤ 0 then
    .error "Spending limit exhausted."
  else
    match findWalletByAddress node.toNodeContext escrow.userWallet with
    | none =>
        if escrow.userWallet = [] then
          .error ("Prepaid escrow has no user wallet — cannot verify. " ++
            "Run tknc_setinferproxytarget first.")
        else
          .error "User wallet not found on this node. Cannot verify prepaid escrow balance."
    | some w =>
        balanceCheck node apiKey w
          "Insufficient wallet balance (0 TKNC available). Please recharge your wallet."
          "Insufficient wallet balance: all available funds are reserved by in-flight requests."

/-- The payer's wallet of a pay-as-you-go record.  A record without a user address would get the
address of the first loaded wallet. -/
def payerWallet (node : Node) (db : Database) (escrow : SpendingLimit) :
    Option CWallet × SpendingLimit × Database :=
  match findWalletByAddress node.toNodeContext escrow.userWallet with
  | some w => (some w, escrow, db)
  | none =>
      -- A record made without a user address gets a RECEIVE address of the first wallet.
      if escrow.userWallet = [] then
        match node.fallback with
        | none => (none, escrow, db)
        | some w =>
            match w.receiveAddress.map node.encodeDestination with
            | none => (some w, escrow, db)
            | some fixedAddr =>
                if fixedAddr = [] then (some w, escrow, db)
                else
                  let escrow := { escrow with userWallet := fixedAddr }
                  (some w, escrow, (writeSpendingLimitFromP2P db escrow).2)
      else (none, escrow, db)

def payAsYouGoCheck (node : Node) (apiKey : Bytes) (escrow : SpendingLimit)
    (userWallet : Option CWallet) : Except String Unit :=
  match userWallet with
  | none =>
      if escrow.userWallet = [] then
        .error ("No user wallet associated with this API key. " ++
          "Run tknc_setinferproxytarget first.")
      else
        .error "User wallet not found on this node. Cannot verify balance."
  | some w =>
      balanceCheck node apiKey w
        ("Insufficient wallet balance (0 TKNC available). " ++
          "Please recharge your wallet to use inference.")
        ("Insufficient wallet balance: all available funds are reserved by in-flight requests. " ++
          "Please wait for current requests to complete or recharge your wallet.")

def checks (node : Node) (db : Database) (apiKey : Bytes) (escrow : SpendingLimit) :
    Except String Unit × Database :=
  match (do debtCheck node escrow; stateCheck node.getTime escrow) with
  | .error message => (.error message, db)
  | .ok () =>
      if escrow.totalTknc > 0 then
        (prepaidCheck node apiKey escrow, db)
      else
        let (userWallet, escrow, db) := payerWallet node db escrow
        (payAsYouGoCheck node apiKey escrow userWallet, db)

def canAffordInference (node : Node) (db : Database) (apiKey : Bytes) :
    Except String Unit × Database :=
  match findSpendingLimitByAPIKey db apiKey with
  | none =>
      (.error ("No billing escrow found for this API key. " ++
        "Run tknc_setinferproxytarget first."), db)
  | some read =>
      let escrow := updateConfirmedTransfers node.toNodeContext read
      checks node (writeBack db escrow read.pendingTxids) apiKey escrow

/-! ## When a key is admitted -/

/-- What the tests ask of the record that the key selects, read off that record: little debt, a
usable state, money left, and a wallet with funds that are not all reserved. -/
structure Admissible (node : Node) (apiKey : Bytes) (e : SpendingLimit) : Prop where
  debt : e.totalTknc = 0 → 0 < e.consumedTknc →
    i64 (e.consumedTknc - e.transferredTknc) < coin
  usable : e.state ≠ .suspended ∧ e.state ≠ .closed ∧ e.state ≠ .exhausted
  unexpired : e.isExpired node.getTime = false
  limit : 0 < e.totalTknc → 0 < e.getRemainingLimit
  funds : ∃ w, findWalletByAddress node.toNodeContext e.userWallet = some w ∧
    0 < w.available ∧ node.pendingCosts apiKey < w.available

/-- The address is never repaired: the lookup already falls back to the first wallet. -/
theorem payerWallet_eq (node : Node) (db : Database) (e : SpendingLimit) :
    payerWallet node db e =
      (findWalletByAddress node.toNodeContext e.userWallet, e, db) := by
  unfold payerWallet
  cases hw : findWalletByAddress node.toNodeContext e.userWallet with
  | some w => rfl
  | none =>
    dsimp only
    split
    · rename_i hempty
      -- for an empty address the lookup has already tried the first wallet
      have hnone : node.fallback = none := by
        rw [hempty] at hw
        cases hctx : node.walletCtx with
        | none => simp [NodeContext.fallback, hctx]
        | some wallets => simpa [findWalletByAddress, NodeContext.fallback, hctx] using hw
      rw [hnone]
    · rfl

theorem balanceCheck_ok_iff (node : Node) (apiKey : Bytes) (w : CWallet)
    (emptyText reservedText : String) :
    balanceCheck node apiKey w emptyText reservedText = .ok () ↔
      0 < w.available ∧ node.pendingCosts apiKey < w.available := by
  have hfits := fits64_iff.1 (fits_i64 (w.mineTrusted + w.mineUntrustedPending))
  change _ ≤ w.available ∧ w.available ≤ _ at hfits
  unfold balanceCheck
  dsimp only
  by_cases hempty : w.available ≤ 0
  · simp [if_pos hempty, Int.not_lt.2 hempty]
  · rw [if_neg hempty]
    by_cases hreserved : node.pendingCosts apiKey > 0
    · rw [if_pos hreserved]
      by_cases hmore : w.available > node.pendingCosts apiKey
      · have hexact : i64 (w.available - node.pendingCosts apiKey) =
            w.available - node.pendingCosts apiKey := i64_of_fits (fits64_iff.2 (by omega))
        rw [if_pos hmore, hexact, if_neg (by omega)]
        exact iff_of_true rfl ⟨by omega, hmore⟩
      · rw [if_neg hmore, if_pos (Int.le_refl 0)]
        exact iff_of_false nofun fun h => hmore h.2
    · rw [if_neg hreserved]
      exact iff_of_true rfl ⟨by omega, by omega⟩

theorem debtCheck_ok_iff {node : Node} {e : SpendingLimit} {w : CWallet}
    (hw : findWalletByAddress node.toNodeContext e.userWallet = some w) :
    debtCheck node e = .ok () ↔
      (e.totalTknc = 0 → 0 < e.consumedTknc →
        i64 (e.consumedTknc - e.transferredTknc) < coin) := by
  simp only [debtCheck, hw, Option.isSome_some, if_true]
  split
  · rename_i hdebt
    split
    · rename_i hover
      exact iff_of_false nofun fun h => absurd (h hdebt.1 hdebt.2) (Int.not_lt.2 hover)
    · rename_i hunder
      exact iff_of_true rfl fun _ _ => Int.not_le.1 hunder
  · rename_i hnone
    exact iff_of_true rfl fun htotal hconsumed => absurd ⟨htotal, hconsumed⟩ hnone

theorem stateCheck_ok_iff (now : Int) (e : SpendingLimit) :
    stateCheck now e = .ok () ↔
      (e.state ≠ .suspended ∧ e.state ≠ .closed ∧ e.state ≠ .exhausted) ∧
        e.isExpired now = false := by
  unfold stateCheck
  split
  · rename_i hsuspended
    exact iff_of_false nofun fun h => h.1.1 hsuspended
  · split
    · rename_i hended
      exact iff_of_false nofun fun h => hended.elim h.1.2.1 h.1.2.2
    · split
      · rename_i hexpired
        exact iff_of_false nofun fun h => by simp [hexpired] at h
      · rename_i hsuspended hended hexpired
        push Not at hended
        exact iff_of_true rfl ⟨⟨hsuspended, hended.1, hended.2⟩, by simpa using hexpired⟩

theorem bind_ok_iff {a b : Except String Unit} :
    (do a; b) = .ok () ↔ a = .ok () ∧ b = .ok () := by
  cases a with
  | error message => exact iff_of_false nofun nofun
  | ok value => exact (and_iff_right rfl).symm

theorem lastCheck_ok_iff (node : Node) (apiKey : Bytes) (e : SpendingLimit) :
    (if e.totalTknc > 0 then prepaidCheck node apiKey e
      else payAsYouGoCheck node apiKey e
        (findWalletByAddress node.toNodeContext e.userWallet)) = .ok () ↔
      (0 < e.totalTknc → 0 < e.getRemainingLimit) ∧
        ∃ w, findWalletByAddress node.toNodeContext e.userWallet = some w ∧
          0 < w.available ∧ node.pendingCosts apiKey < w.available := by
  cases hw : findWalletByAddress node.toNodeContext e.userWallet with
  | none =>
    refine iff_of_false ?_ (by simp)
    simp only [prepaidCheck, payAsYouGoCheck, hw]
    repeat' split
    all_goals exact nofun
  | some w =>
    simp only [prepaidCheck, payAsYouGoCheck, hw, Option.some.injEq, exists_eq_left']
    split
    · rename_i htotal
      split
      · rename_i hspent
        exact iff_of_false nofun fun h => absurd (h.1 htotal) (Int.not_lt.2 hspent)
      · rename_i hleft
        rw [balanceCheck_ok_iff]
        exact (and_iff_right fun _ => Int.not_le.1 hleft).symm
    · rename_i htotal
      rw [balanceCheck_ok_iff]
      exact (and_iff_right fun h => absurd h htotal).symm

theorem checks_ok_iff (node : Node) (db : Database) (apiKey : Bytes) (e : SpendingLimit) :
    (checks node db apiKey e).1 = .ok () ↔ Admissible node apiKey e := by
  -- the tests of debt and state come first, and only then does the kind of the record matter
  have hstages : (checks node db apiKey e).1 = .ok () ↔
      (debtCheck node e = .ok () ∧ stateCheck node.getTime e = .ok ()) ∧
        (if e.totalTknc > 0 then prepaidCheck node apiKey e
          else payAsYouGoCheck node apiKey e
            (findWalletByAddress node.toNodeContext e.userWallet)) = .ok () := by
    rw [← bind_ok_iff]
    unfold checks
    cases (do debtCheck node e; stateCheck node.getTime e : Except String Unit) with
    | error message => exact iff_of_false nofun nofun
    | ok value =>
      simp only [payerWallet_eq, true_and]
      split <;> rfl
  rw [hstages, stateCheck_ok_iff, lastCheck_ok_iff]
  constructor
  · rintro ⟨⟨hdebt, husable, hunexpired⟩, hlimit, w, hw, hfunds⟩
    exact ⟨(debtCheck_ok_iff hw).1 hdebt, husable, hunexpired, hlimit, w, hw, hfunds⟩
  · rintro ⟨hdebt, husable, hunexpired, hlimit, w, hw, hfunds⟩
    exact ⟨⟨(debtCheck_ok_iff hw).2 hdebt, husable, hunexpired⟩, hlimit, w, hw, hfunds⟩

theorem checks_db (node : Node) (db : Database) (apiKey : Bytes) (e : SpendingLimit) :
    (checks node db apiKey e).2 = db := by
  unfold checks
  split
  · rfl
  · simp only [payerWallet_eq]
    split <;> rfl

theorem admissible_update_iff (node : Node) (apiKey : Bytes) (e : SpendingLimit) :
    Admissible node apiKey (updateConfirmedTransfers node.toNodeContext e) ↔
      Admissible node apiKey e := by
  rcases updateConfirmedTransfers_frame node.toNodeContext e with ⟨confirmed, pending, hupdate⟩
  rw [hupdate]
  constructor
  · rintro ⟨hdebt, husable, hunexpired, hlimit, hfunds⟩
    exact ⟨hdebt, husable, hunexpired, hlimit, hfunds⟩
  · rintro ⟨hdebt, husable, hunexpired, hlimit, hfunds⟩
    exact ⟨hdebt, husable, hunexpired, hlimit, hfunds⟩

theorem canAffordInference_ok_iff (node : Node) (db : Database) (apiKey : Bytes) :
    (canAffordInference node db apiKey).1 = .ok () ↔
      ∃ e, findSpendingLimitByAPIKey db apiKey = some e ∧ Admissible node apiKey e := by
  unfold canAffordInference
  cases hfind : findSpendingLimitByAPIKey db apiKey with
  | none => exact iff_of_false nofun (by simp)
  | some read =>
    simp only [checks_ok_iff, admissible_update_iff, Option.some.injEq, exists_eq_left']

theorem OnlyRecord.admission {apiKey : Bytes} {k : DbKey} {e : SpendingLimit}
    (h : OnlyRecord db apiKey k e) (hkeyed : KeyedById db) (node : Node) :
    KeyedById (canAffordInference node db apiKey).2 ∧
      OnlyRecord (canAffordInference node db apiKey).2 apiKey k
        (updateConfirmedTransfers node.toNodeContext e) := by
  have hcall : (canAffordInference node db apiKey).2 =
      writeBack db (updateConfirmedTransfers node.toNodeContext e) e.pendingTxids := by
    rw [canAffordInference, h.select]
    exact checks_db _ _ _ _
  have hid : k.id = e.escrowId := hkeyed _ h.stored
  rw [hcall]
  rcases updateConfirmedTransfers_cases node.toNodeContext e with hsame | ⟨w, hw, hpos, hmoved⟩
  · rw [hsame, writeBack, if_neg (by simp)]
    exact ⟨hkeyed, h⟩
  · -- a settled entry is missing from the pending list, so the record is written
    have hchanged : (updateConfirmedTransfers node.toNodeContext e).pendingTxids ≠
        e.pendingTxids := by
      rw [Ne, pendingTxids_update_eq_iff hw]
      exact Int.not_le.2 hpos
    have hsameId : (updateConfirmedTransfers node.toNodeContext e).escrowId = k.id := by
      rw [hmoved, hid]
    rw [writeBack_eq hkeyed (OrderedMap.get?_eq_some_iff.2 h.stored) hsameId hchanged, hmoved]
    exact ⟨hkeyed.write hid, h.write h.key⟩

end TKNC.Escrow
