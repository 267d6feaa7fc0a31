import TKNC.Escrow.KeyGate
import TKNC.Escrow.PaymentBook
import TKNC.Lib.Sha256

/-!
# SkipBilling — who may have a request served without a charge

A gateway that forwards a request does the billing itself and tells the next gateway so, with a
header that only it should be able to make: the secret of the process, or an HMAC of the API key
under an escrow id.  The verifier takes the id from a header of the same request when there is one,
so the key of the HMAC is chosen by the sender.
-/

namespace TKNC.Gateway.SkipBilling

open ApiKey Escrow Escrow.KeyGate Lib Lib.Numeral

/-- `id` is the escrow id of a stored record of the key. -/
def StoredId (db : Database) (apiKey id : Bytes) : Prop :=
  ∃ k e, db.get? k = some e ∧ e.apiKey = apiKey ∧ e.escrowId = id

/-- The header of the request is the secret of the process, or is made with a stored id. -/
def Authentic (gw : KeyGate.Gateway) (db : Database) (r : ChatRequest) : Prop :=
  ∃ header, r.skipHeader = some header ∧
    (header = gw.skipBillingSecret ∨
      ∃ id, StoredId db r.apiKey id ∧ header = computeSkipBillingSecret gw r.apiKey id)

/-- The request does not bring an id of its own together with a header made from it. -/
def NoOwnId (gw : KeyGate.Gateway) (db : Database) (r : ChatRequest) : Prop :=
  ∀ header id, r.skipHeader = some header → r.escrowIdHeader = some id →
    header = gw.skipBillingSecret ∨ id = [] ∨ StoredId db r.apiKey id ∨
      header ≠ computeSkipBillingSecret gw r.apiKey id

variable {gw : KeyGate.Gateway} {db : Database} {r : ChatRequest}

theorem ne_nil_of_validate {apiKey : Bytes} (h : validateAPIKeyFormat apiKey = true) :
    apiKey ≠ [] := by
  rintro rfl
  cases h

theorem computeSkipBillingSecret_inj {apiKey id id' : Bytes}
    (hmac : gw.hmacSha256 id' apiKey = gw.hmacSha256 id apiKey → id' = id) (hkey : apiKey ≠ [])
    (hid : id ≠ [])
    (h : computeSkipBillingSecret gw apiKey id' = computeSkipBillingSecret gw apiKey id) :
    id' = id := by
  rw [computeSkipBillingSecret, computeSkipBillingSecret, if_neg (not_or.2 ⟨hkey, hid⟩)] at h
  split at h
  · -- the secret of an empty id is empty
    exact absurd (congrArg List.length h) (by simp [ascii])
  · exact hmac (List.append_cancel_left h)

theorem skipBilling_eq_true_iff {header : Bytes} (hheader : r.skipHeader = some header) :
    skipBilling gw db r = true ↔ header = gw.skipBillingSecret ∨
      ∃ id, id ≠ [] ∧ header = computeSkipBillingSecret gw r.apiKey id ∧
        (r.escrowIdHeader = some id ∨ r.escrowIdHeader = none ∧
          ∃ e, findSpendingLimitByAPIKey db r.apiKey = some e ∧ e.escrowId = id) := by
  simp only [skipBilling, hheader]
  by_cases hsecret : header = gw.skipBillingSecret
  · simp [hsecret]
  · rw [if_neg hsecret, or_iff_right hsecret]
    simp only [Bool.and_eq_true, decide_eq_true_eq]
    cases hown : r.escrowIdHeader with
    | some id =>
      simp only [Option.some.injEq, reduceCtorEq, false_and, or_false]
      constructor
      · rintro ⟨hid, hmatch⟩
        exact ⟨id, hid, hmatch, rfl⟩
      · rintro ⟨id', hid, hmatch, rfl⟩
        exact ⟨hid, hmatch⟩
    | none =>
      simp only [reduceCtorEq, true_and, false_or]
      cases findSpendingLimitByAPIKey db r.apiKey with
      | none => simp
      | some e => simp

theorem storedId_of_select {apiKey : Bytes} {e : SpendingLimit}
    (h : findSpendingLimitByAPIKey db apiKey = some e) : StoredId db apiKey e.escrowId := by
  rcases Option.map_eq_some_iff.1 h with ⟨kv, hfind, rfl⟩
  rcases findEntryByAPIKey_some hfind with ⟨hmem, hkey⟩
  exact ⟨kv.1, kv.2, OrderedMap.get?_eq_some_iff.2 hmem, hkey, rfl⟩

/-- Assumed of the HMAC: the id that the request brings and a stored one do not collide. -/
theorem skipBilling_authentic_iff
    (hmac : ∀ id id', r.escrowIdHeader = some id → StoredId db r.apiKey id' →
      gw.hmacSha256 id' r.apiKey = gw.hmacSha256 id r.apiKey → id' = id)
    (hformat : validateAPIKeyFormat r.apiKey = true) :
    (skipBilling gw db r = true → Authentic gw db r) ↔ NoOwnId gw db r := by
  have hkey := ne_nil_of_validate hformat
  constructor
  · intro hskip header id hheader hown
    by_contra hforged
    push Not at hforged
    rcases hforged with ⟨hsecret, hid, hstored, hmatch⟩
    have haccepted : skipBilling gw db r = true :=
      (skipBilling_eq_true_iff hheader).2 (Or.inr ⟨id, hid, hmatch, Or.inl hown⟩)
    rcases hskip haccepted with ⟨header', hheader', hmade⟩
    cases Option.some.inj (hheader.symm.trans hheader')
    rcases hmade with hsame | ⟨id', hstored', hmade⟩
    · exact hsecret hsame
    · have hsame := computeSkipBillingSecret_inj (hmac id id' hown hstored') hkey hid
        (hmade.symm.trans hmatch)
      exact hstored (hsame ▸ hstored')
  · intro hown hskip
    cases hheader : r.skipHeader with
    | none => simp [skipBilling, hheader] at hskip
    | some header =>
      refine ⟨header, hheader, ?_⟩
      rcases (skipBilling_eq_true_iff hheader).1 hskip with
        hsecret | ⟨id, hid, hmatch, hgiven | ⟨_, e, hselect, rfl⟩⟩
      · exact Or.inl hsecret
      · rcases hown header id hheader hgiven with hsecret | hempty | hstored | hdiffers
        · exact Or.inl hsecret
        · exact absurd hempty hid
        · exact Or.inr ⟨id, hstored, hmatch⟩
        · exact absurd hmatch hdiffers
      · exact Or.inr ⟨e.escrowId, storedId_of_select hselect, hmatch⟩

/-! ## A request with an id of its own -/

def hmacGateway : KeyGate.Gateway :=
  { fundedGateway with
    hmacSha256 := fun key message =>
      (Sha256.hmac key message).flatMap fun b => toHex 2 b.toNat }

def plainRequest : ChatRequest where
  authorization := some (ascii "Bearer " ++ someKey)
  bodyApiKey := none
  prompt := ascii "hello"
  skipHeader := none
  escrowIdHeader := none

def skipRequest (id : Bytes) : ChatRequest :=
  { plainRequest with
    skipHeader := some (computeSkipBillingSecret hmacGateway someKey id)
    escrowIdHeader := some id }

theorem apiKey_skipRequest (id : Bytes) : (skipRequest id).apiKey = someKey := by
  have hplain : plainRequest.apiKey = someKey := by decide +kernel
  have hsame : (skipRequest id).apiKey = plainRequest.apiKey := by
    rw [ChatRequest.apiKey, ChatRequest.apiKey, skipRequest]
  rw [hsame, hplain]

theorem skipBilling_skipRequest {id : Bytes} (hid : id ≠ []) (db : Database) :
    skipBilling hmacGateway db (skipRequest id) = true := by
  refine (skipBilling_eq_true_iff rfl).2 (Or.inr ⟨id, hid, ?_, Or.inl rfl⟩)
  rw [apiKey_skipRequest]

def keyRecord : SpendingLimit :=
  { escrowId := ascii "escrow_1", apiKey := someKey }

def keyDb : Database :=
  writeSpendingLimit OrderedMap.empty ⟨ascii "escrow_1"⟩ keyRecord

theorem authentic_skipRequest :
    skipBilling hmacGateway keyDb (skipRequest (ascii "escrow_1")) = true ∧
      Authentic hmacGateway keyDb (skipRequest (ascii "escrow_1")) := by
  have hskip := skipBilling_skipRequest (by decide : ascii "escrow_1" ≠ []) keyDb
  have honly : ∀ id id', some (ascii "escrow_1") = some id → StoredId keyDb someKey id' →
      id' = id := by
    rintro _ _ ⟨⟩ ⟨k, e, hget, _, rfl⟩
    cases List.mem_singleton.1 (OrderedMap.get?_eq_some_iff.1 hget)
    rfl
  refine ⟨hskip, (skipBilling_authentic_iff ?_ ?_).2 ?_ hskip⟩
  · rw [apiKey_skipRequest]
    exact fun id id' hid hstored _ => honly id id' hid hstored
  · rw [apiKey_skipRequest]
    decide +kernel
  · rintro _ _ _ ⟨⟩
    refine Or.inr (Or.inr (Or.inl ?_))
    rw [apiKey_skipRequest]
    exact ⟨⟨ascii "escrow_1"⟩, keyRecord, by decide +kernel, rfl, rfl⟩

theorem not_authentic_forged :
    validateAPIKeyFormat (skipRequest (ascii "made-up")).apiKey = true ∧
      skipBilling hmacGateway OrderedMap.empty (skipRequest (ascii "made-up")) = true ∧
      ¬Authentic hmacGateway OrderedMap.empty (skipRequest (ascii "made-up")) := by
  refine ⟨by decide +kernel, skipBilling_skipRequest (by decide) _, ?_⟩
  rintro ⟨header, hheader, hmade⟩
  cases hheader
  rcases hmade with hsecret | ⟨id, ⟨k, e, hget, _⟩, _⟩
  · -- the secret of the process does not begin like the header
    have hhead := congrArg List.head? hsecret
    rw [computeSkipBillingSecret, if_neg (by decide +kernel)] at hhead
    cases hhead
  · cases hget

end TKNC.Gateway.SkipBilling
