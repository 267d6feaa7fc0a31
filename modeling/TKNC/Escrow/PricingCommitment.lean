import TKNC.Escrow.Lifecycle
import TKNC.Lib.Sha256

/-!
# PricingCommitment — the pricing snapshot of a commitment and of an escrow

`commitpricing` hashes a snapshot of the agreed terms into an OP_RETURN output; `createescrow`
builds a snapshot of its own from the same terms and stores its hash in the record.  Both take the
time of their call into the snapshot.

The two snapshots agree in everything but the time (`createescrowSnapshot_eq`), so that the hashes
agree for calls within the same second and for no others, unless SHA-256 collides.
-/

namespace TKNC.Escrow

open Consensus Lib.MachineInt Lib.Numeral Lib.Sha256

structure PricingSnapshot where
  rateTkncPerToken : Int
  rateTokensPerTknc : Int
  quotaTokens : Int
  totalTkncPaid : Int
  minerWallet : Bytes
  userWallet : Bytes
  modelName : Bytes
  modelHash : Bytes
  timestamp : Int
  version : Int

namespace PricingSnapshot

/-- One character of a JSON string; `char` is signed, so that bytes from 128 on are below 32. -/
def escapeByte (c : UInt8) : Bytes :=
  if c = 34 then ascii "\\\""
  else if c = 92 then ascii "\\\\"
  else if c = 8 then ascii "\\b"
  else if c = 12 then ascii "\\f"
  else if c = 10 then ascii "\\n"
  else if c = 13 then ascii "\\r"
  else if c = 9 then ascii "\\t"
  else if c < 32 ∨ 128 ≤ c then ascii "\\u" ++ toHex 4 c.toNat
  else [c]

def jsonEscape (s : Bytes) : Bytes :=
  ascii "\"" ++ s.flatMap escapeByte ++ ascii "\""

def jsonHead (s : PricingSnapshot) : Bytes :=
  ascii "\x7b" ++
  ascii "\"rate_tknc_per_token\":" ++ toString64 s.rateTkncPerToken ++ ascii "," ++
  ascii "\"rate_tokens_per_tknc\":" ++ toString64 s.rateTokensPerTknc ++ ascii "," ++
  ascii "\"quota_tokens\":" ++ toString64 s.quotaTokens ++ ascii "," ++
  ascii "\"total_tknc_paid\":" ++ toString64 s.totalTkncPaid ++ ascii "," ++
  ascii "\"miner_wallet\":" ++ jsonEscape s.minerWallet ++ ascii "," ++
  ascii "\"user_wallet\":" ++ jsonEscape s.userWallet ++ ascii "," ++
  ascii "\"model_name\":" ++ jsonEscape s.modelName ++ ascii "," ++
  ascii "\"model_hash\":" ++ jsonEscape s.modelHash ++ ascii "," ++
  ascii "\"timestamp\":"

def toJSON (s : PricingSnapshot) : Bytes :=
  s.jsonHead ++ (toString64 s.timestamp ++
    (ascii ",\"version\":" ++ toString64 s.version ++ ascii "\x7d"))

def getHex (hash : Bytes) : Bytes :=
  hash.reverse.flatMap fun b => toHex 2 b.toNat

def computeHash (s : PricingSnapshot) : Bytes :=
  getHex (hash256 (hash256 s.toJSON))

def validate (s : PricingSnapshot) : Bool :=
  if s.rateTokensPerTknc ≤ 0 then false
  else if s.rateTkncPerToken ≤ 0 then false
  else if s.quotaTokens ≤ 0 then false
  else if s.totalTkncPaid ≤ 0 then false
  else if s.minerWallet = [] then false
  else if s.userWallet = [] then false
  else if s.modelName = [] then false
  else if s.timestamp ≤ 0 then false
  else if s.rateTkncPerToken > 0 ∧
      s.rateTokensPerTknc > int64Max.tdiv s.rateTkncPerToken then false
  else if i64 (s.rateTokensPerTknc * s.rateTkncPerToken) ≤ 0 then false
  else s.quotaTokens = (i64 (s.totalTkncPaid * s.rateTokensPerTknc)).tdiv coin

end PricingSnapshot

/-! ## The two calls -/

structure PricingTerms where
  rateTokensPerTknc : Int
  minerWallet : Bytes
  userWallet : Bytes
  amount : Int
  modelName : Bytes
  modelHash : Bytes

def commitpricingSnapshot (terms : PricingTerms) (now : Int) : PricingSnapshot where
  rateTkncPerToken := snapshotRate terms.rateTokensPerTknc
  rateTokensPerTknc := terms.rateTokensPerTknc
  quotaTokens := (i64 (terms.amount * terms.rateTokensPerTknc)).tdiv coin
  totalTkncPaid := terms.amount
  minerWallet := terms.minerWallet
  userWallet := terms.userWallet
  modelName := terms.modelName
  modelHash := terms.modelHash
  timestamp := now
  version := 1

/-- What `commitpricing` returns of the commitment: the hash, and the script data that hold it. -/
structure PricingCommitment where
  snapshotHash : Bytes
  opReturnData : Bytes

def hexPairs : Bytes → Bytes
  | a :: b :: rest => UInt8.ofNat ((ofHex [a, b]).getD 0) :: hexPairs rest
  | _ => []

def commitpricing (terms : PricingTerms) (now : Int) : Except String PricingCommitment :=
  if ¬moneyRange terms.amount then .error "Amount out of range"
  else if terms.rateTokensPerTknc ≤ 0 then .error "Rate must be positive"
  else if terms.amount ≤ 0 then .error "Amount must be positive"
  else if terms.minerWallet = [] ∨ terms.userWallet = [] then
    .error "Wallet addresses must not be empty"
  else if terms.modelName = [] then .error "Model name must not be empty"
  else
    let snapshot := commitpricingSnapshot terms now
    if ¬snapshot.validate then
      .error "Pricing snapshot validation failed. Check rate consistency."
    else
      let snapshotHash := snapshot.computeHash
      .ok
        { snapshotHash
          opReturnData := 0x6a :: UInt8.ofNat (snapshotHash.length / 2) :: hexPairs snapshotHash }

def createescrowSnapshot (args : CreateEscrowArgs) : PricingSnapshot where
  rateTkncPerToken := snapshotRate args.rateTokensPerTknc
  rateTokensPerTknc := args.rateTokensPerTknc
  quotaTokens :=
    if args.amount = 0 then int64Max
    else (i64 (args.amount * args.rateTokensPerTknc)).tdiv coin
  totalTkncPaid := args.amount
  minerWallet := args.minerWallet
  userWallet := args.userWallet
  modelName := args.modelName
  modelHash := args.modelHash
  timestamp := args.now
  version := 1

/-- The record that `createescrow` stores under these terms; the key, the suffix of the id and the
clock are its own. -/
def createescrowFor (terms : PricingTerms) (apiKey suffix : Bytes) (now : Int) :
    Except String SpendingLimit :=
  let args : CreateEscrowArgs :=
    { userWallet := terms.userWallet
      minerWallet := terms.minerWallet
      amount := terms.amount
      rateTokensPerTknc := terms.rateTokensPerTknc
      modelName := terms.modelName
      modelHash := terms.modelHash
      apiKey, suffix, now
      snapshotHash := [] }
  Lifecycle.newRecord { args with snapshotHash := (createescrowSnapshot args).computeHash }

/-! ## What is committed -/

open PricingSnapshot

theorem hexPairs_getHex (hash : Bytes) : hexPairs (getHex hash) = hash.reverse := by
  unfold getHex
  induction hash.reverse with
  | nil => rfl
  | cons b bs ih =>
    have hbyte : ofHex (toHex 2 b.toNat) = some b.toNat := by
      have hlt : b.toNat < 16 ^ 2 := b.toNat_lt
      rw [ofHex_toHex, Nat.mod_eq_of_lt hlt]
    have hpair : ∃ x y, toHex 2 b.toNat = [x, y] := ⟨_, _, rfl⟩
    obtain ⟨x, y, hxy⟩ := hpair
    rw [hxy] at hbyte
    rw [List.flatMap_cons, hxy, List.cons_append, List.cons_append, List.nil_append, hexPairs,
      hbyte, ih, Option.getD_some, UInt8.ofNat_toNat]

theorem getHex_injective : Function.Injective getHex := by
  intro hash hash' h
  rw [← List.reverse_inj, ← hexPairs_getHex, h, hexPairs_getHex]

theorem length_computeHash (s : PricingSnapshot) : s.computeHash.length = 64 := by
  simp [computeHash, getHex, hash256, length_sha256, length_toHex]

variable {terms : PricingTerms}

theorem commitpricing_eq_ok {now : Int} {commitment : PricingCommitment}
    (h : commitpricing terms now = .ok commitment) :
    0 < terms.amount ∧
      commitment.snapshotHash = (commitpricingSnapshot terms now).computeHash ∧
      commitment.opReturnData =
        0x6a :: 32 :: (hash256 (hash256 (commitpricingSnapshot terms now).toJSON)).reverse := by
  simp only [commitpricing] at h
  split_ifs at h with hrange hrate hamount hwallets hmodel hvalid
  cases h
  refine ⟨Int.lt_of_not_ge hamount, rfl, ?_⟩
  rw [length_computeHash, computeHash, hexPairs_getHex]
  rfl

theorem createescrowFor_eq_ok {apiKey suffix : Bytes} {now : Int} {e : SpendingLimit}
    (hamount : terms.amount ≠ 0) (h : createescrowFor terms apiKey suffix now = .ok e) :
    e.snapshotHash = (commitpricingSnapshot terms now).computeHash := by
  simp only [createescrowFor, Lifecycle.newRecord, createescrow] at h
  split_ifs at h with hrange hneg hrate
  cases h
  simp [createescrowSnapshot, commitpricingSnapshot, hamount]

theorem toJSON_commitpricingSnapshot_inj {t₁ t₂ : Int} :
    (commitpricingSnapshot terms t₁).toJSON = (commitpricingSnapshot terms t₂).toJSON ↔
      t₁ = t₂ := by
  constructor
  · intro h
    have htail := List.append_cancel_left h
    exact toString64_injective (List.append_cancel_right htail)
  · rintro rfl
    rfl

/-- The hash of a commitment is found in the escrow if both calls read the same time, and only then
unless the two texts collide. -/
theorem commitment_matches_escrow_iff {terms : PricingTerms} {t₁ t₂ : Int} {apiKey suffix : Bytes}
    {commitment : PricingCommitment} {e : SpendingLimit}
    (hcommit : commitpricing terms t₁ = .ok commitment)
    (hcreate : createescrowFor terms apiKey suffix t₂ = .ok e)
    (hcollision : hash256 (hash256 (commitpricingSnapshot terms t₁).toJSON) =
        hash256 (hash256 (commitpricingSnapshot terms t₂).toJSON) →
      (commitpricingSnapshot terms t₁).toJSON = (commitpricingSnapshot terms t₂).toJSON) :
    commitment.snapshotHash = e.snapshotHash ↔ t₁ = t₂ := by
  obtain ⟨hamount, hhash, _⟩ := commitpricing_eq_ok hcommit
  rw [hhash, createescrowFor_eq_ok (by omega) hcreate, ← toJSON_commitpricingSnapshot_inj]
  constructor
  · intro h
    exact hcollision (getHex_injective h)
  · intro h
    rw [PricingSnapshot.computeHash, h, PricingSnapshot.computeHash]

def agreedTerms : PricingTerms where
  rateTokensPerTknc := 1000000
  minerWallet := ascii "tkn1miner"
  userWallet := ascii "tkn1user"
  amount := 100 * coin
  modelName := ascii "qwen"
  modelHash := []

/-- Both calls within one second. -/
theorem agreedTerms_same_second :
    ∃ commitment e, commitpricing agreedTerms 1700000000 = .ok commitment ∧
      createescrowFor agreedTerms (ascii "tkn_0") (ascii "0a1b2c3d") 1700000000 = .ok e ∧
      commitment.snapshotHash = e.snapshotHash := by
  have hcommit : ∃ commitment, commitpricing agreedTerms 1700000000 = .ok commitment := ⟨_, rfl⟩
  have hcreate : ∃ e, createescrowFor agreedTerms (ascii "tkn_0") (ascii "0a1b2c3d") 1700000000 =
      .ok e := ⟨_, rfl⟩
  obtain ⟨commitment, hcommit⟩ := hcommit
  obtain ⟨e, hcreate⟩ := hcreate
  exact ⟨commitment, e, hcommit, hcreate,
    (commitment_matches_escrow_iff hcommit hcreate fun _ => rfl).2 rfl⟩

/-- The escrow is created one second after the commitment. -/
theorem agreedTerms_next_second :
    ∃ commitment e, commitpricing agreedTerms 1700000000 = .ok commitment ∧
      createescrowFor agreedTerms (ascii "tkn_0") (ascii "0a1b2c3d") 1700000001 = .ok e ∧
      commitment.snapshotHash ≠ e.snapshotHash :=
  ⟨_, _, rfl, rfl, by decide +kernel⟩

end TKNC.Escrow
