import Mathlib.Logic.Function.Basic
import TKNC.Consensus.Amount
import TKNC.Lib.Numeral

/-!
# ApiKey — API keys and their database

A key is created active, can be revoked, and is handed on to peers.  `CAPIKeyDB` is read and written
by key only, so the database is a partial function.
-/

namespace TKNC.ApiKey

open Consensus Lib.MachineInt Lib.Numeral

def apiKeyPrefix : Bytes := ascii "tknc_"

def apiKeyRandomBytes : Nat := 16

def apiKeyTotalLength : Nat := 37

structure APIKey where
  key : Bytes
  minerId : Bytes
  balance : Int
  lockedBalance : Int
  totalTokensUsed : Int
  expiryTime : Int
  modelName : Bytes
  paymentTxHash : Bytes
  active : Bool
  deriving DecidableEq, Repr

/-- Thirty-two lower-case digits for the random bytes. -/
def generateAPIKey (random : BitVec 128) : Bytes :=
  apiKeyPrefix ++ toHex (2 * apiKeyRandomBytes) random.toNat

def validateAPIKeyFormat (key : Bytes) : Bool :=
  if key.length ≠ apiKeyTotalLength then false
  else if key.take 5 ≠ apiKeyPrefix then false
  else (key.drop 5).all (fun c => (hexValue c).isSome)

def parseAPIKeyMinerID (key : Bytes) : Bytes :=
  if validateAPIKeyFormat key then key.drop 5 else []

theorem validate_generateAPIKey (random : BitVec 128) :
    validateAPIKeyFormat (generateAPIKey random) = true := by
  have hfive : apiKeyPrefix.length = 5 := rfl
  have hlength : (generateAPIKey random).length = apiKeyTotalLength := by
    simp [generateAPIKey, length_toHex, hfive, apiKeyRandomBytes, apiKeyTotalLength]
  have htake : (generateAPIKey random).take 5 = apiKeyPrefix :=
    List.take_left' hfive
  have hdrop : (generateAPIKey random).drop 5 = toHex (2 * apiKeyRandomBytes) random.toNat :=
    List.drop_left' hfive
  simp only [validateAPIKeyFormat, hlength, htake, hdrop, ne_eq, not_true_eq_false, if_false]
  apply List.all_eq_true.2
  intro c hc
  rcases mem_toHex hc with ⟨d, hd, rfl⟩
  simp [hexValue_hexByte hd]

abbrev ApiKeyDb : Type := Bytes → Option APIKey

def writeAPIKey (db : ApiKeyDb) (key : Bytes) (apiKey : APIKey) : ApiKeyDb :=
  Function.update db key (some apiKey)

def readAPIKey (db : ApiKeyDb) (key : Bytes) : Option APIKey :=
  db key

def isActiveKey (db : ApiKeyDb) (key : Bytes) : Bool :=
  (readAPIKey db key).any (·.active)

/-! ## Calls -/

/-- Arguments of `tknc_createapikey`, with what it takes from elsewhere. -/
structure CreateApiKeyArgs where
  balance : Int
  modelName : Option Bytes
  expiryDays : Option Int
  random : BitVec 128
  now : Int

def createdKey (args : CreateApiKeyArgs) : APIKey :=
  let apiKey := generateAPIKey args.random
  { key := apiKey
    minerId := parseAPIKeyMinerID apiKey
    balance := args.balance
    lockedBalance := 0
    totalTokensUsed := 0
    -- the product is an `int`
    expiryTime := i64 (args.now + wrap 32 (args.expiryDays.getD 365 * 86400))
    modelName := args.modelName.getD (ascii "all")
    paymentTxHash := []
    active := true }

def tkncCreateapikey (db : ApiKeyDb) (args : CreateApiKeyArgs) : Except String (APIKey × ApiKeyDb) :=
  if moneyRange args.balance then
    .ok (createdKey args, writeAPIKey db (createdKey args).key (createdKey args))
  else
    .error "Amount out of range"

def tkncRevokeapikey (db : ApiKeyDb) (apiKey : Bytes) : Except String ApiKeyDb :=
  if validateAPIKeyFormat apiKey then
    match readAPIKey db apiKey with
    | none => .error "API Key not found"
    | some keyData => .ok (writeAPIKey db apiKey { keyData with active := false })
  else
    .error "Invalid API Key format"

/-- The returned flag and the database; a key that is present is not written again. -/
def writeAPIKeyFromP2P (db : ApiKeyDb) (keyData : APIKey) : Bool × ApiKeyDb :=
  if validateAPIKeyFormat keyData.key then
    match readAPIKey db keyData.key with
    | some _ => (true, db)
    | none => (true, writeAPIKey db keyData.key keyData)
  else
    (false, db)

section Calls

variable {db db' : ApiKeyDb}

theorem created_spec {args : CreateApiKeyArgs} {key : APIKey}
    (h : tkncCreateapikey db args = .ok (key, db')) :
    isActiveKey db' key.key = true ∧ ∀ key' ≠ generateAPIKey args.random, db' key' = db key' := by
  unfold tkncCreateapikey at h
  split at h
  · cases h
    refine ⟨by simp [isActiveKey, readAPIKey, writeAPIKey, createdKey], ?_⟩
    intro key' hne
    exact Function.update_of_ne hne _ _
  · cases h

theorem revoked_spec {apiKey : Bytes} (h : tkncRevokeapikey db apiKey = .ok db') :
    (∃ keyData, db' apiKey = some keyData ∧ keyData.active = false) ∧
      ∀ key' ≠ apiKey, db' key' = db key' := by
  unfold tkncRevokeapikey at h
  split at h
  · split at h
    · cases h
    · cases h
      refine ⟨⟨_, Function.update_self _ _ _, rfl⟩, ?_⟩
      intro key' hne
      exact Function.update_of_ne hne _ _
  · cases h

theorem get_writeAPIKeyFromP2P {key : Bytes} {stored : APIKey} (h : db key = some stored)
    (keyData : APIKey) : (writeAPIKeyFromP2P db keyData).2 key = some stored := by
  unfold writeAPIKeyFromP2P
  split
  · split
    · exact h
    · rename_i hnone
      -- another key is written
      have hne : key ≠ keyData.key := by
        rintro rfl
        cases h.symm.trans hnone
      exact (Function.update_of_ne hne _ _).trans h
  · exact h

end Calls

end TKNC.ApiKey
