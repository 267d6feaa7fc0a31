import Mathlib.Data.List.Lex
import Mathlib.Order.Lattice
import TKNC.Escrow.SpendingLimit
import TKNC.Lib.OrderedMap

/-!
# Database — stored spending limits

`CSpendingLimitDB` keeps the records in an ordered key-value store.  An iteration visits them in the
byte order of the serialised keys, which start with the length of the key: shorter ids come first.
Token rates live under another prefix and are a separate table (`TokenRates`).
-/

namespace TKNC.Escrow

open Lib Lib.Numeral OrderedMap List

/-! ## Keys -/

structure DbKey where
  id : Bytes
  deriving DecidableEq, Repr

def compactSize (n : Nat) : List Nat :=
  if n < 253 then [n]
  else if n < 2 ^ 16 then 253 :: littleEndian 2 n
  else if n < 2 ^ 32 then 254 :: littleEndian 4 n
  else 255 :: littleEndian 8 n
where
  littleEndian : Nat → Nat → List Nat
    | 0, _ => []
    | w + 1, n => n % 256 :: littleEndian w (n / 256)

def dbPrefix : Bytes := ascii "escrow_"

def DbKey.serialized (k : DbKey) : List Nat :=
  compactSize (dbPrefix ++ k.id).length ++ (dbPrefix ++ k.id).map UInt8.toNat

theorem length_littleEndian (w n : Nat) : (compactSize.littleEndian w n).length = w := by
  induction w generalizing n with
  | zero => rfl
  | succ w ih => simp [compactSize.littleEndian, ih]

theorem length_compactSize_mono {m n : Nat} (h : m ≤ n) :
    (compactSize m).length ≤ (compactSize n).length := by
  unfold compactSize
  repeat' split
  all_goals simp only [length_cons, length_nil, length_littleEndian]
  all_goals omega

theorem DbKey.serialized_injective : Function.Injective DbKey.serialized := by
  rintro ⟨a⟩ ⟨b⟩ heq
  have hlen := congrArg length heq
  simp only [serialized, length_append, length_map] at hlen
  -- Longer ids have longer serialisations, so the two ids are equally long.
  have hab : a.length = b.length := by
    rcases Nat.lt_trichotomy a.length b.length with hlt | hsame | hlt
    · have := length_compactSize_mono (m := dbPrefix.length + a.length)
        (n := dbPrefix.length + b.length) (by omega)
      omega
    · exact hsame
    · have := length_compactSize_mono (m := dbPrefix.length + b.length)
        (n := dbPrefix.length + a.length) (by omega)
      omega
  simp only [serialized, length_append, hab] at heq
  -- equal lengths have equal prefixes; what is left is the id itself
  have hmap := append_cancel_left heq
  have hbytes := map_injective_iff.2 (fun x y h => UInt8.toNat_inj.1 h) hmap
  rw [append_cancel_left hbytes]

instance : LinearOrder DbKey :=
  LinearOrder.lift' DbKey.serialized DbKey.serialized_injective

abbrev Database : Type := OrderedMap DbKey SpendingLimit

def writeSpendingLimit (db : Database) (k : DbKey) (e : SpendingLimit) : Database :=
  db.insert k e

def readSpendingLimit (db : Database) (k : DbKey) : Option SpendingLimit :=
  db.get? k

def listAllSpendingLimits (db : Database) : List (DbKey × SpendingLimit) :=
  db.entries

/-! ## Selection by API key -/

def hasBothWallets (apiKey : Bytes) (kv : DbKey × SpendingLimit) : Bool :=
  kv.2.apiKey = apiKey && kv.2.isActive && kv.2.userWallet ≠ [] && kv.2.minerWallet ≠ []

def isActiveFor (apiKey : Bytes) (kv : DbKey × SpendingLimit) : Bool :=
  kv.2.apiKey = apiKey && kv.2.isActive

def isFor (apiKey : Bytes) (kv : DbKey × SpendingLimit) : Bool :=
  kv.2.apiKey = apiKey

def findEntryByAPIKey (db : Database) (apiKey : Bytes) : Option (DbKey × SpendingLimit) :=
  let all := listAllSpendingLimits db
  match all.find? (hasBothWallets apiKey) with
  | some kv => some kv
  | none =>
      match all.find? (isActiveFor apiKey) with
      | some kv => some kv
      | none => all.find? (isFor apiKey)

def findSpendingLimitByAPIKey (db : Database) (apiKey : Bytes) : Option SpendingLimit :=
  (findEntryByAPIKey db apiKey).map Prod.snd

variable {db : Database} {apiKey : Bytes}

theorem findEntryByAPIKey_some {kv : DbKey × SpendingLimit}
    (h : findEntryByAPIKey db apiKey = some kv) : kv ∈ db.entries ∧ kv.2.apiKey = apiKey := by
  simp only [findEntryByAPIKey, listAllSpendingLimits] at h
  split at h
  · rename_i kv' hfind
    cases h
    have hp := find?_some hfind
    simp only [hasBothWallets, Bool.and_eq_true, decide_eq_true_eq] at hp
    exact ⟨mem_of_find?_eq_some hfind, hp.1.1.1⟩
  · split at h
    · rename_i kv' hfind
      cases h
      have hp := find?_some hfind
      simp only [isActiveFor, Bool.and_eq_true, decide_eq_true_eq] at hp
      exact ⟨mem_of_find?_eq_some hfind, hp.1⟩
    · have hp := find?_some h
      simp only [isFor, decide_eq_true_eq] at hp
      exact ⟨mem_of_find?_eq_some h, hp⟩

theorem findSpendingLimitByAPIKey_eq_none_iff :
    findSpendingLimitByAPIKey db apiKey = none ↔
      ∀ k e, db.get? k = some e → e.apiKey ≠ apiKey := by
  rw [findSpendingLimitByAPIKey, Option.map_eq_none_iff]
  constructor
  · intro hnone k e hget hkey
    -- the last pass would have found the record
    have hthird : db.entries.find? (isFor apiKey) = none := by
      simp only [findEntryByAPIKey, listAllSpendingLimits] at hnone
      split at hnone
      · cases hnone
      · split at hnone
        · cases hnone
        · exact hnone
    have hfor := find?_eq_none.1 hthird _ (get?_eq_some_iff.1 hget)
    exact hfor (by simp [isFor, hkey])
  · intro hall
    by_contra hsome
    rcases Option.ne_none_iff_exists'.1 hsome with ⟨⟨k, e⟩, hfind⟩
    rcases findEntryByAPIKey_some hfind with ⟨hmem, hkey⟩
    exact hall k e (get?_eq_some_iff.2 hmem) hkey

/-- `k` holds the only record of the key. -/
structure OnlyRecord (db : Database) (apiKey : Bytes) (k : DbKey) (e : SpendingLimit) : Prop where
  stored : (k, e) ∈ db.entries
  key : e.apiKey = apiKey
  only : ∀ kv ∈ db.entries, kv.2.apiKey = apiKey → kv = (k, e)

variable {e : SpendingLimit} {k : DbKey}

theorem OnlyRecord.find (h : OnlyRecord db apiKey k e) :
    findEntryByAPIKey db apiKey = some (k, e) := by
  -- the last pass always succeeds, and whatever an earlier pass finds is the same record
  have hthird : db.entries.find? (isFor apiKey) = some (k, e) :=
    find?_eq_some_of_unique h.stored (by simp [isFor, h.key])
      (fun kv hmem hp => h.only kv hmem (by simpa [isFor] using hp))
  cases hfind : findEntryByAPIKey db apiKey with
  | none =>
    simp only [findEntryByAPIKey, listAllSpendingLimits, hthird] at hfind
    split at hfind
    · cases hfind
    · split at hfind <;> cases hfind
  | some kv =>
    rcases findEntryByAPIKey_some hfind with ⟨hmem, hkey⟩
    rw [h.only kv hmem hkey]

theorem OnlyRecord.select (h : OnlyRecord db apiKey k e) :
    findSpendingLimitByAPIKey db apiKey = some e := by
  rw [findSpendingLimitByAPIKey, h.find, Option.map_some]

theorem OnlyRecord.write {e e' : SpendingLimit} (h : OnlyRecord db apiKey k e)
    (hkey : e'.apiKey = apiKey) :
    OnlyRecord (writeSpendingLimit db k e') apiKey k e' := by
  refine ⟨mem_entries_insert.2 (Or.inl rfl), hkey, ?_⟩
  intro kv hmem hkv
  rcases mem_entries_insert.1 hmem with rfl | ⟨hne, hmem⟩
  · rfl
  · exact absurd (congrArg Prod.fst (h.only kv hmem hkv)) hne

/-- Every record lies under its own id, as all writers of the store keep it. -/
def KeyedById (db : Database) : Prop :=
  ∀ kv ∈ db.entries, kv.1.id = kv.2.escrowId

theorem KeyedById.write (h : KeyedById db) (hkey : k.id = e.escrowId) :
    KeyedById (writeSpendingLimit db k e) := by
  intro kv hmem
  rcases mem_entries_insert.1 hmem with rfl | ⟨_, hmem⟩
  · exact hkey
  · exact h kv hmem

theorem KeyedById.key_eq {k k' : DbKey} (h : KeyedById db) (hmem : (k', e) ∈ db.entries)
    (hid : e.escrowId = k.id) : k' = k := by
  cases k
  cases k'
  exact congrArg DbKey.mk ((h _ hmem).trans hid)

theorem KeyedById.find_id {id : Bytes} (h : KeyedById db) (hget : db.get? k = some e)
    (hid : id = k.id) :
    db.entries.find? (fun kv => kv.2.escrowId = id) = some (k, e) := by
  have hmem := get?_eq_some_iff.1 hget
  refine find?_eq_some_of_unique hmem ?_ ?_
  · simpa [hid] using (h _ hmem).symm
  · rintro ⟨k', e'⟩ hkv hp
    have hsame : e'.escrowId = k.id := by simpa [hid] using hp
    cases h.key_eq hkv hsame
    cases Option.some.inj (hget.symm.trans (get?_eq_some_iff.2 hkv))
    rfl

/-- Payment progress that a peer's copy of a stored record brings: larger counters, another
non-empty pending list, another state, later activity.  Terms of the record stay. -/
def mergeFromPeer (existing escrow : SpendingLimit) : SpendingLimit :=
  { existing with
    transferredTknc :=
      if escrow.transferredTknc > existing.transferredTknc then escrow.transferredTknc
      else existing.transferredTknc
    consumedTknc :=
      if escrow.consumedTknc > existing.consumedTknc then escrow.consumedTknc
      else existing.consumedTknc
    confirmedTknc :=
      if escrow.confirmedTknc > existing.confirmedTknc then escrow.confirmedTknc
      else existing.confirmedTknc
    pendingTxids :=
      if escrow.pendingTxids ≠ existing.pendingTxids ∧ escrow.pendingTxids ≠ [] then
        escrow.pendingTxids
      else existing.pendingTxids
    state := escrow.state
    lastActivity :=
      if escrow.lastActivity > existing.lastActivity then escrow.lastActivity
      else existing.lastActivity }

/-- The returned flag and the database; an unchanged record is not written again. -/
def writeSpendingLimitFromP2P (db : Database) (escrow : SpendingLimit) : Bool × Database :=
  if escrow.escrowId = [] ∨ escrow.apiKey = [] then (false, db)
  else
    match readSpendingLimit db ⟨escrow.escrowId⟩ with
    | some existing =>
        let merged := mergeFromPeer existing escrow
        (true, if merged = existing then db else writeSpendingLimit db ⟨escrow.escrowId⟩ merged)
    | none => (true, writeSpendingLimit db ⟨escrow.escrowId⟩ escrow)

end TKNC.Escrow
