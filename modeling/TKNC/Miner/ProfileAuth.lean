import Mathlib.Logic.Function.Basic
import TKNC.Lib.EventMachine
import TKNC.Lib.Fallible
import TKNC.Lib.Numeral
import TKNC.Lib.Registry
import TKNC.Lib.Sha256

/-!
# ProfileAuth — who may change the profile of a miner

A miner registers an identity, asks for a challenge and edits its description and rate with a
signature; the address is changed with the signature of a wallet over a nonce.  A second
registration replaces the first.  An edit that names no challenge is checked against a message of
its own, a named challenge may have been issued for another miner, and an address is changed by any
wallet that signs.

`AuthLog` keeps beside the server's tables the first identity of every miner and what has been
issued and presented.  The verification of signatures is a parameter, and so are the random bytes of
a challenge.  A JSON field of a wrong type throws where it is read.
-/

namespace TKNC.Miner

open Lib Lib.EventMachine Lib.Numeral Registry

/-! ## Requests -/

inductive HttpCommand where
  | get
  | post
  | options
  | other
  deriving DecidableEq

/-- Why a request has no effect: it only asks for the options, is refused, or has a field that
throws. -/
inductive Rejection where
  | options
  | refused (status : Nat) (error : Bytes)
  | threw
  deriving DecidableEq

abbrev Reply := Except Rejection Unit

inductive Field (α : Type) where
  | absent
  | malformed
  | present (value : α)

def Field.read {α : Type} (field : Field α) (default : α) (onMalformed : Rejection) :
    Except Rejection α :=
  match field with
  | .absent => .ok default
  | .malformed => .error onMalformed
  | .present value => .ok value

structure RegisterMinerIdentityRequest where
  length : Nat
  readable : Bool
  minerId : Field Bytes
  publicKey : Field Bytes
  walletAddress : Field Bytes

structure ChallengeRequest where
  command : HttpCommand
  queryMinerId : Bytes
  length : Nat
  readable : Bool
  bodyMinerId : Field Bytes
  nonceBytes : Bytes

structure PublicIPNonceRequest where
  command : HttpCommand
  minerId : Bytes

structure EditProfileRequest where
  command : HttpCommand
  length : Nat
  readable : Bool
  minerId : Field Bytes
  signature : Field Bytes
  publicKey : Field Bytes
  challengeId : Field Bytes
  message : Field Bytes
  description : Field Bytes
  tokensPerTknc : Field Int

structure SetPublicIPRequest where
  command : HttpCommand
  length : Nat
  readable : Bool
  publicIp : Field Bytes
  walletAddress : Field Bytes
  signature : Field Bytes
  nonce : Field Bytes
  minerId : Field Bytes

/-! ## What the requests carry -/

structure MinerIdentity where
  minerId : Bytes
  publicKey : Bytes
  walletAddress : Bytes
  registeredAt : Int
  deriving DecidableEq

structure ProfileEdit where
  minerId : Bytes
  signature : Bytes
  publicKey : Bytes
  challengeId : Bytes

structure PublicIPChange where
  publicIp : Bytes
  walletAddress : Bytes
  signature : Bytes
  nonce : Bytes
  minerId : Bytes

def RegisterMinerIdentityRequest.parse (req : RegisterMinerIdentityRequest) (now : Int) :
    Except Rejection MinerIdentity := do
  if req.length = 0 ∨ req.length > 1024 * 1024 then
    throw (.refused 400 (ascii "Invalid request body"))
  if req.readable = false then
    throw (.refused 400 (ascii "JSON format error"))
  let minerId ← req.minerId.read [] .threw
  let publicKey ← req.publicKey.read [] .threw
  let walletAddress ← req.walletAddress.read [] .threw
  if minerId = [] ∨ publicKey = [] then
    throw (.refused 400 (ascii "miner_id and public_key required"))
  pure { minerId, publicKey, walletAddress, registeredAt := now }

def ChallengeRequest.parse (req : ChallengeRequest) : Except Rejection Bytes := do
  if req.command = .options then
    throw .options
  let minerId ←
    if req.queryMinerId = [] ∧ 0 < req.length ∧ req.length < 1024 ∧ req.readable = true then
      req.bodyMinerId.read [] .threw
    else
      pure req.queryMinerId
  if minerId = [] then
    throw (.refused 400 (ascii "miner_id required"))
  pure minerId

def PublicIPNonceRequest.parse (req : PublicIPNonceRequest) : Except Rejection Bytes := do
  if req.command ≠ .get then
    throw (.refused 405 (ascii "GET required"))
  if req.minerId = [] then
    throw (.refused 400 (ascii "miner_id required"))
  pure req.minerId

def EditProfileRequest.parse (req : EditProfileRequest) : Except Rejection ProfileEdit := do
  if req.command = .options then
    throw .options
  if req.command ≠ .post then
    throw (.refused 405 (ascii "POST only"))
  if req.length = 0 ∨ req.length > 10240 then
    throw (.refused 400 (ascii "Invalid request body"))
  if req.readable = false then
    throw (.refused 400 (ascii "JSON format error"))
  let minerId ← req.minerId.read [] .threw
  let signature ← req.signature.read [] .threw
  let publicKey ← req.publicKey.read [] .threw
  let challengeId ← req.challengeId.read [] .threw
  if minerId = [] ∨ signature = [] ∨ publicKey = [] then
    throw (.refused 400 (ascii "miner_id, signature, and public_key required"))
  pure { minerId, signature, publicKey, challengeId }

def SetPublicIPRequest.parse (req : SetPublicIPRequest) : Except Rejection PublicIPChange := do
  if req.command ≠ .post then
    throw (.refused 405 (ascii "POST required"))
  if req.length = 0 ∨ req.length ≥ 1024 * 1024 then
    throw (.refused 400 (ascii "Invalid body"))
  if req.readable = false then
    throw (.refused 400 (ascii "Invalid JSON"))
  let publicIp ←
    match req.publicIp with
    | .absent => throw (.refused 400 (ascii "Missing public_ip field"))
    | .malformed => throw (.refused 500 (ascii "Internal error"))
    | .present publicIp => pure publicIp
  let walletAddress ← req.walletAddress.read [] (.refused 500 (ascii "Internal error"))
  let signature ← req.signature.read [] (.refused 500 (ascii "Internal error"))
  let nonce ← req.nonce.read [] (.refused 500 (ascii "Internal error"))
  let minerId ← req.minerId.read [] (.refused 500 (ascii "Internal error"))
  if minerId = [] ∨ walletAddress = [] ∨ signature = [] ∨ nonce = [] then
    throw (.refused 400
      (ascii "Missing required fields: miner_id, wallet_address, signature, nonce"))
  pure { publicIp, walletAddress, signature, nonce, minerId }

/-- `pubkeyVerify` takes the key and the signature as hexadecimal texts and the hash of the message,
and fails for texts that are not valid; `verifymessage` is the answer of the node to the parameters
of the call of that name. -/
structure Verifiers where
  pubkeyVerify : Bytes → Bytes → Bytes → Bool
  verifymessage : Bytes → Bool

namespace Verifiers

def validSignature (v : Verifiers) (publicKey signature text : Bytes) : Bool :=
  v.pubkeyVerify publicKey (Sha256.hash256 text) signature

/-- Quotes are escaped, and line feeds dropped. -/
def escapeMessage (message : Bytes) : Bytes :=
  (message.flatMap fun b => if b = 34 then [92, 34] else [b]).filter (· ≠ 10)

def verifyWalletSignature (v : Verifiers) (wallet signature message : Bytes) : Bool :=
  if wallet = [] ∨ signature = [] ∨ message = [] then false
  else
    v.verifymessage (ascii "[\"" ++ wallet ++ ascii "\",\"" ++ signature ++ ascii "\",\"" ++
      escapeMessage message ++ ascii "\"]")

end Verifiers

/-! ## Server -/

structure AuthChallenge where
  challengeId : Bytes
  minerId : Bytes
  challengeText : Bytes
  createdAt : Int
  expiresAt : Int
  used : Bool
  deriving DecidableEq

structure MinerProfile where
  description : Bytes
  tokensPerTknc : Int
  ipAddress : Bytes
  deriving DecidableEq

def MinerProfile.edit (miner : MinerProfile) (description : Bytes) (tokensPerTknc : Int) :
    MinerProfile :=
  { miner with
    description := if description = [] then miner.description else description
    tokensPerTknc := if tokensPerTknc ≥ 0 then tokensPerTknc else miner.tokensPerTknc }

structure APIServer where
  now : Int
  minerIdentities : Bytes → Option MinerIdentity
  authChallenges : Bytes → Option AuthChallenge
  publicIpNonces : Bytes → Option Bytes
  liveMiners : Bytes → Option MinerProfile
  manualPublicIp : Bytes

def hexStr (bytes : Bytes) : Bytes :=
  bytes.flatMap fun b => toHex 2 b.toNat

namespace APIServer

def handleRegisterMinerIdentityRequest (s : APIServer) (req : RegisterMinerIdentityRequest) :
    APIServer × Reply :=
  match req.parse s.now with
  | .error rejection => (s, .error rejection)
  | .ok identity =>
      -- whoever was registered before is replaced
      ({ s with
         minerIdentities :=
           Function.update s.minerIdentities identity.minerId (some identity) }, .ok ())

def newChallenge (s : APIServer) (minerId nonceBytes : Bytes) : AuthChallenge :=
  let nonce := hexStr nonceBytes
  { challengeId := ascii "ch_" ++ toString64 s.now ++ ascii "_" ++ nonce.take 8
    minerId := minerId
    challengeText := ascii "TKNC-AUTH-" ++ nonce ++ ascii "-" ++ toString64 s.now
    createdAt := s.now
    expiresAt := s.now + 600
    used := false }

def handleChallengeRequest (s : APIServer) (req : ChallengeRequest) : APIServer × Reply :=
  match req.parse with
  | .error rejection => (s, .error rejection)
  | .ok minerId =>
      let challenge := s.newChallenge minerId req.nonceBytes
      ({ s with
         authChallenges :=
           Function.update s.authChallenges challenge.challengeId (some challenge) }, .ok ())

def handlePublicIPNonceRequest (s : APIServer) (req : PublicIPNonceRequest) : APIServer × Reply :=
  match req.parse with
  | .error rejection => (s, .error rejection)
  | .ok minerId =>
      ({ s with
         publicIpNonces :=
           Function.update s.publicIpNonces minerId (some (toString64 s.now)) }, .ok ())

def challengeText (s : APIServer) (challengeId : Bytes) (message : Field Bytes) :
    Except Rejection Bytes :=
  if challengeId ≠ [] then
    match s.authChallenges challengeId with
    | none => .error (.refused 401 (ascii "Challenge not found, already used, or expired"))
    | some challenge =>
        -- the miner that the challenge was issued for is not compared
        if challenge.used = true ∨ s.now > challenge.expiresAt then
          .error (.refused 401 (ascii "Challenge not found, already used, or expired"))
        else
          .ok challenge.challengeText
  else
    message.read [] .threw

def presentEdit (s : APIServer) (req : EditProfileRequest) :
    Except Rejection (ProfileEdit × Bytes) := do
  let edit ← req.parse
  if (s.minerIdentities edit.minerId).all (fun identity => identity.publicKey ≠ edit.publicKey) then
    throw (.refused 403 (ascii "Identity not registered or public_key mismatch"))
  let text ← s.challengeText edit.challengeId req.message
  pure (edit, text)

def markUsed (s : APIServer) (challengeId : Bytes) : APIServer :=
  if challengeId ≠ [] then
    { s with
      authChallenges := Function.update s.authChallenges challengeId
        ((s.authChallenges challengeId).map fun challenge => { challenge with used := true }) }
  else
    s

def editedProfile (v : Verifiers) (s : APIServer) (req : EditProfileRequest) (edit : ProfileEdit)
    (text : Bytes) : Except Rejection MinerProfile := do
  if v.validSignature edit.publicKey edit.signature text = false then
    throw (.refused 401 (ascii "Invalid signature"))
  let description ← req.description.read [] .threw
  let tokensPerTknc ← req.tokensPerTknc.read (-1) .threw
  match s.liveMiners edit.minerId with
  | none => throw (.refused 404 (ascii "Miner not found"))
  | some miner => pure (miner.edit description tokensPerTknc)

def handleEditProfileRequest (v : Verifiers) (s : APIServer) (req : EditProfileRequest) :
    APIServer × Reply :=
  match s.presentEdit req with
  | .error rejection => (s, .error rejection)
  | .ok (edit, text) =>
      match s.editedProfile v req edit text with
      | .error rejection => (s.markUsed edit.challengeId, .error rejection)
      | .ok miner =>
          ({ s.markUsed edit.challengeId with
             liveMiners := Function.update s.liveMiners edit.minerId (some miner) }, .ok ())

def presentChange (s : APIServer) (req : SetPublicIPRequest) : Except Rejection PublicIPChange := do
  let change ← req.parse
  if s.publicIpNonces change.minerId ≠ some change.nonce then
    throw (.refused 400 (ascii "Invalid or expired nonce. Please request a new one."))
  pure change

def publicIPMessage (minerId nonce : Bytes) : Bytes :=
  ascii "SetPublicIP:" ++ minerId ++ ascii ":" ++ nonce

def dropNonce (s : APIServer) (minerId : Bytes) : APIServer :=
  { s with publicIpNonces := Function.update s.publicIpNonces minerId none }

def handleSetPublicIPRequest (v : Verifiers) (s : APIServer) (req : SetPublicIPRequest) :
    APIServer × Reply :=
  match s.presentChange req with
  | .error rejection => (s, .error rejection)
  | .ok change =>
      -- the wallet is the one that the request names
      if v.verifyWalletSignature change.walletAddress change.signature
          (publicIPMessage change.minerId change.nonce) = false then
        (s.dropNonce change.minerId, .error (.refused 403
          (ascii "Signature verification failed. You must sign with the miner owner wallet.")))
      else
        ({ s.dropNonce change.minerId with
           liveMiners := Function.update s.liveMiners change.minerId
             ((s.liveMiners change.minerId).map fun miner =>
               { miner with ipAddress := change.publicIp })
           manualPublicIp := change.publicIp }, .ok ())

/-! ## What the handlers accept, and what they change -/

variable {v : Verifiers} {s : APIServer}

theorem of_presentEdit {req : EditProfileRequest} {edit : ProfileEdit} {text : Bytes}
    (h : s.presentEdit req = .ok (edit, text)) :
    req.parse = .ok edit ∧
      (∃ identity, s.minerIdentities edit.minerId = some identity ∧
        identity.publicKey = edit.publicKey) ∧
      s.challengeText edit.challengeId req.message = .ok text := by
  simp only [presentEdit, Fallible.bind_eq_ok] at h
  rcases h with ⟨parsed, hparse, hrest⟩
  split at hrest
  · cases hrest
  · rename_i hidentity
    rcases Fallible.bind_eq_ok.1 hrest with ⟨text', htext, hpair⟩
    cases hpair
    refine ⟨hparse, ?_, htext⟩
    cases hknown : s.minerIdentities edit.minerId with
    | none => simp [hknown] at hidentity
    | some identity => exact ⟨identity, rfl, by simpa [hknown] using hidentity⟩

theorem of_challengeText {challengeId text : Bytes} {message : Field Bytes}
    (h : s.challengeText challengeId message = .ok text) (hid : challengeId ≠ []) :
    ∃ challenge, s.authChallenges challengeId = some challenge ∧ challenge.used = false ∧
      s.now ≤ challenge.expiresAt ∧ challenge.challengeText = text := by
  rw [challengeText, if_pos hid] at h
  cases hfound : s.authChallenges challengeId with
  | none => simp [hfound] at h
  | some challenge =>
    simp only [hfound] at h
    split at h
    · cases h
    · rename_i hgood
      rcases not_or.1 hgood with ⟨hused, hexpired⟩
      exact ⟨challenge, rfl, by simpa using hused, Int.not_lt.1 hexpired, Except.ok.inj h⟩

theorem of_handleEditProfileRequest {req : EditProfileRequest}
    (h : (s.handleEditProfileRequest v req).2 = .ok ()) :
    ∃ edit text, s.presentEdit req = .ok (edit, text) ∧
      v.validSignature edit.publicKey edit.signature text = true := by
  unfold handleEditProfileRequest at h
  split at h
  · cases h
  · rename_i edit text hpresent
    refine ⟨edit, text, hpresent, ?_⟩
    split at h
    · cases h
    · rename_i miner hedited
      cases hvalid : v.validSignature edit.publicKey edit.signature text with
      | true => rfl
      | false =>
        rw [editedProfile, if_pos hvalid] at hedited
        cases hedited

theorem of_presentChange {req : SetPublicIPRequest} {change : PublicIPChange}
    (h : s.presentChange req = .ok change) :
    req.parse = .ok change ∧ s.publicIpNonces change.minerId = some change.nonce := by
  simp only [presentChange, Fallible.bind_eq_ok] at h
  rcases h with ⟨parsed, hparse, hrest⟩
  split at hrest
  · cases hrest
  · rename_i hnonce
    cases hrest
    exact ⟨hparse, not_not.1 hnonce⟩

theorem of_handleSetPublicIPRequest {req : SetPublicIPRequest}
    (h : (s.handleSetPublicIPRequest v req).2 = .ok ()) :
    ∃ change, s.presentChange req = .ok change ∧
      v.verifyWalletSignature change.walletAddress change.signature
        (publicIPMessage change.minerId change.nonce) = true := by
  unfold handleSetPublicIPRequest at h
  split at h
  · cases h
  · rename_i change hpresent
    refine ⟨change, hpresent, ?_⟩
    split at h
    · cases h
    · rename_i hvalid
      simpa using hvalid

theorem handleEditProfileRequest_frame (req : EditProfileRequest) :
    ∃ liveMiners, (s.handleEditProfileRequest v req).1 =
      { (match s.presentEdit req with
          | .error _ => s
          | .ok (edit, _) => s.markUsed edit.challengeId) with liveMiners } := by
  unfold handleEditProfileRequest
  split
  · exact ⟨s.liveMiners, rfl⟩
  · split
    · exact ⟨_, rfl⟩
    · exact ⟨_, rfl⟩

theorem handleSetPublicIPRequest_frame (req : SetPublicIPRequest) :
    ∃ liveMiners manualPublicIp, (s.handleSetPublicIPRequest v req).1 =
      { (match s.presentChange req with
          | .error _ => s
          | .ok change => s.dropNonce change.minerId) with liveMiners, manualPublicIp } := by
  unfold handleSetPublicIPRequest
  split
  · exact ⟨s.liveMiners, s.manualPublicIp, rfl⟩
  · split
    · exact ⟨_, _, rfl⟩
    · exact ⟨_, _, rfl⟩

end APIServer

open APIServer

/-! ## Runs -/

inductive AuthEvent where
  | elapse (seconds : Nat)
  | registerIdentity (req : RegisterMinerIdentityRequest)
  | challenge (req : ChallengeRequest)
  | publicIPNonce (req : PublicIPNonceRequest)
  | editProfile (req : EditProfileRequest)
  | setPublicIP (req : SetPublicIPRequest)

/-- `firstOwner` is the first identity of a miner.  A text is presented when an edit is checked
against it, a nonce when a change of the address is. -/
structure AuthLog extends APIServer where
  firstOwner : Bytes → Option MinerIdentity
  issuedChallenges : List AuthChallenge
  presentedTexts : List Bytes
  issuedNonces : List (Bytes × Bytes)
  presentedNonces : List (Bytes × Bytes)

namespace AuthLog

def initial (now : Int) (identities : Bytes → Option MinerIdentity)
    (liveMiners : Bytes → Option MinerProfile) (manualPublicIp : Bytes) : AuthLog where
  now := now
  minerIdentities := identities
  authChallenges := fun _ => none
  publicIpNonces := fun _ => none
  liveMiners := liveMiners
  manualPublicIp := manualPublicIp
  firstOwner := identities
  issuedChallenges := []
  presentedTexts := []
  issuedNonces := []
  presentedNonces := []

def noteOwner (s : AuthLog) (identity : MinerIdentity) : Bytes → Option MinerIdentity :=
  if (s.firstOwner identity.minerId).isSome then s.firstOwner
  else Function.update s.firstOwner identity.minerId (some identity)

def step (v : Verifiers) (s : AuthLog) : AuthEvent → AuthLog
  | .elapse seconds => { s with now := s.now + seconds }
  | .registerIdentity req =>
      { s with
        toAPIServer := (s.handleRegisterMinerIdentityRequest req).1
        firstOwner :=
          match req.parse s.now with
          | .error _ => s.firstOwner
          | .ok identity => s.noteOwner identity }
  | .challenge req =>
      { s with
        toAPIServer := (s.handleChallengeRequest req).1
        issuedChallenges :=
          match req.parse with
          | .error _ => s.issuedChallenges
          | .ok minerId => s.newChallenge minerId req.nonceBytes :: s.issuedChallenges }
  | .publicIPNonce req =>
      { s with
        toAPIServer := (s.handlePublicIPNonceRequest req).1
        issuedNonces :=
          match req.parse with
          | .error _ => s.issuedNonces
          | .ok minerId => (minerId, toString64 s.now) :: s.issuedNonces }
  | .editProfile req =>
      { s with
        toAPIServer := (s.handleEditProfileRequest v req).1
        presentedTexts :=
          match s.presentEdit req with
          | .error _ => s.presentedTexts
          | .ok (_, text) => text :: s.presentedTexts }
  | .setPublicIP req =>
      { s with
        toAPIServer := (s.handleSetPublicIPRequest v req).1
        presentedNonces :=
          match s.presentChange req with
          | .error _ => s.presentedNonces
          | .ok change => (change.minerId, change.nonce) :: s.presentedNonces }

/-! ## The law -/

/-- The edit is signed with the key of the miner's first owner, over a challenge that was issued for
the miner, has not expired and was not presented before. -/
def EditByOwner (v : Verifiers) (s : AuthLog) (edit : ProfileEdit) (text : Bytes) : Prop :=
  ∃ owner, s.firstOwner edit.minerId = some owner ∧
    v.validSignature owner.publicKey edit.signature text = true ∧
    (∃ challenge ∈ s.issuedChallenges, challenge.minerId = edit.minerId ∧
      challenge.challengeText = text ∧ s.now ≤ challenge.expiresAt) ∧
    text ∉ s.presentedTexts

/-- The change is signed by the wallet of the miner's first owner, over a nonce that was issued for
the miner and was not presented before. -/
def ChangeByOwner (v : Verifiers) (s : AuthLog) (change : PublicIPChange) : Prop :=
  ∃ owner, s.firstOwner change.minerId = some owner ∧
    v.verifyWalletSignature owner.walletAddress change.signature
      (publicIPMessage change.minerId change.nonce) = true ∧
    (change.minerId, change.nonce) ∈ s.issuedNonces ∧
    (change.minerId, change.nonce) ∉ s.presentedNonces

/-- A request that succeeds in changing a profile is its owner's. -/
def OwnerOnly (v : Verifiers) (s : AuthLog) : AuthEvent → Prop
  | .editProfile req =>
      (s.handleEditProfileRequest v req).2 = .ok () →
        ∃ edit text, s.presentEdit req = .ok (edit, text) ∧ s.EditByOwner v edit text
  | .setPublicIP req =>
      (s.handleSetPublicIPRequest v req).2 = .ok () →
        ∃ change, s.presentChange req = .ok change ∧ s.ChangeByOwner v change
  | _ => True

/-- What the clients and the clock have to spare: a registration keeps the key of a registered
miner; the random bytes of a challenge are new; no nonce is asked for in the second of one that was
presented; an edit names a challenge, and one of its own miner; and an address is changed with the
wallet of the first owner. -/
def Careful (s : AuthLog) : AuthEvent → Prop
  | .elapse _ => True
  | .registerIdentity req => ∀ identity, req.parse s.now = .ok identity →
      ∀ owner, s.firstOwner identity.minerId = some owner → identity.publicKey = owner.publicKey
  | .challenge req => ∀ minerId, req.parse = .ok minerId →
      ∀ challenge ∈ s.issuedChallenges,
        challenge.challengeText ≠ (s.newChallenge minerId req.nonceBytes).challengeText
  | .publicIPNonce req => ∀ minerId, req.parse = .ok minerId →
      (minerId, toString64 s.now) ∉ s.presentedNonces
  | .editProfile req => ∀ edit, req.parse = .ok edit →
      edit.challengeId ≠ [] ∧ ∀ challenge, s.authChallenges edit.challengeId = some challenge →
        challenge.minerId = edit.minerId
  | .setPublicIP req => ∀ change, req.parse = .ok change →
      ∃ owner, s.firstOwner change.minerId = some owner ∧
        change.walletAddress = owner.walletAddress

/-! ## Careful runs -/

variable {v : Verifiers}

/-- Between careful requests: the identities have the key of the first owner, an unused challenge is
one that was issued and not presented, and so is a nonce. -/
structure Guarded (s : AuthLog) : Prop where
  identity : ∀ minerId identity, s.minerIdentities minerId = some identity →
    ∃ owner, s.firstOwner minerId = some owner ∧ owner.publicKey = identity.publicKey
  issued : ∀ challengeId challenge, s.authChallenges challengeId = some challenge →
    ∃ issued ∈ s.issuedChallenges, issued.minerId = challenge.minerId ∧
      issued.challengeText = challenge.challengeText ∧ issued.expiresAt = challenge.expiresAt
  unused : ∀ challengeId challenge, s.authChallenges challengeId = some challenge →
    challenge.used = false → challenge.challengeText ∉ s.presentedTexts
  distinct : ∀ challengeId challengeId' challenge challenge',
    s.authChallenges challengeId = some challenge →
    s.authChallenges challengeId' = some challenge' →
    challenge.challengeText = challenge'.challengeText → challengeId = challengeId'
  presented : ∀ text ∈ s.presentedTexts, ∃ issued ∈ s.issuedChallenges, issued.challengeText = text
  nonce : ∀ minerId nonce, s.publicIpNonces minerId = some nonce →
    (minerId, nonce) ∈ s.issuedNonces ∧ (minerId, nonce) ∉ s.presentedNonces

theorem guarded_initial (now : Int) (identities : Bytes → Option MinerIdentity)
    (liveMiners : Bytes → Option MinerProfile) (manualPublicIp : Bytes) :
    (initial now identities liveMiners manualPublicIp).Guarded where
  identity _ identity h := ⟨identity, h, rfl⟩
  issued := by rintro _ _ ⟨⟩
  unused := by rintro _ _ ⟨⟩
  distinct := by rintro _ _ _ _ ⟨⟩
  presented := by rintro _ ⟨⟩
  nonce := by rintro _ _ ⟨⟩

variable {s : AuthLog}

theorem Guarded.ownerOnly (h : s.Guarded) {event : AuthEvent} (hcareful : s.Careful event) :
    s.OwnerOnly v event := by
  cases event with
  | editProfile req =>
    intro hok
    rcases of_handleEditProfileRequest hok with ⟨edit, text, hpresent, hvalid⟩
    rcases of_presentEdit hpresent with ⟨hparse, ⟨identity, hidentity, hkey⟩, htext⟩
    rcases hcareful edit hparse with ⟨hid, hminer⟩
    rcases of_challengeText htext hid with ⟨challenge, hchallenge, hused, hexpires, rfl⟩
    rcases h.identity edit.minerId identity hidentity with ⟨owner, howner, hownerKey⟩
    rcases h.issued _ challenge hchallenge with
      ⟨issued, hissued, hissuedFor, hissuedText, hissuedUntil⟩
    refine ⟨edit, _, hpresent, owner, howner, ?_, ⟨issued, hissued, ?_, hissuedText, ?_⟩, ?_⟩
    · rwa [hownerKey, hkey]
    · exact hissuedFor.trans (hminer challenge hchallenge)
    · rwa [hissuedUntil]
    · exact h.unused _ challenge hchallenge hused
  | setPublicIP req =>
    intro hok
    rcases of_handleSetPublicIPRequest hok with ⟨change, hpresent, hvalid⟩
    rcases of_presentChange hpresent with ⟨hparse, hnonce⟩
    rcases hcareful change hparse with ⟨owner, howner, hwallet⟩
    rw [hwallet] at hvalid
    exact ⟨change, hpresent, owner, howner, hvalid, h.nonce _ _ hnonce⟩
  | _ => trivial

theorem noteOwner_of_some {identity owner : MinerIdentity} {minerId : Bytes}
    (h : s.firstOwner minerId = some owner) : s.noteOwner identity minerId = some owner := by
  unfold noteOwner
  split
  · exact h
  · rename_i hnone
    have hne : minerId ≠ identity.minerId := by
      rintro rfl
      simp [h] at hnone
    rw [Function.update_of_ne hne, h]

theorem Guarded.registerIdentity (h : s.Guarded) {req : RegisterMinerIdentityRequest}
    (hcareful : s.Careful (.registerIdentity req)) :
    (s.step v (.registerIdentity req)).Guarded := by
  cases hparse : req.parse s.now with
  | error rejection =>
    simp only [step, handleRegisterMinerIdentityRequest, hparse]
    exact h
  | ok identity =>
    simp only [step, handleRegisterMinerIdentityRequest, hparse]
    refine ⟨fun minerId found hfound => ?_, h.issued, h.unused, h.distinct, h.presented, h.nonce⟩
    rcases update_some_eq_some.1 hfound with ⟨rfl, rfl⟩ | ⟨_, hfound⟩
    · cases howner : s.firstOwner identity.minerId with
      | some owner =>
        exact ⟨owner, noteOwner_of_some howner, (hcareful identity hparse owner howner).symm⟩
      | none => exact ⟨identity, by simp [noteOwner, howner], rfl⟩
    · rcases h.identity minerId found hfound with ⟨owner, howner, hkey⟩
      exact ⟨owner, noteOwner_of_some howner, hkey⟩

theorem Guarded.challenge (h : s.Guarded) {req : ChallengeRequest}
    (hcareful : s.Careful (.challenge req)) : (s.step v (.challenge req)).Guarded := by
  cases hparse : req.parse with
  | error rejection =>
    simp only [step, handleChallengeRequest, hparse]
    exact h
  | ok minerId =>
    have hfresh := hcareful minerId hparse
    -- the text of a challenge in the table was issued before, so it is not the new one
    have hnew : ∀ challengeId challenge, s.authChallenges challengeId = some challenge →
        challenge.challengeText ≠ (s.newChallenge minerId req.nonceBytes).challengeText := by
      intro challengeId challenge hfound
      rcases h.issued challengeId challenge hfound with ⟨issued, hissued, _, htext, _⟩
      rw [← htext]
      exact hfresh issued hissued
    simp only [step, handleChallengeRequest, hparse]
    generalize s.newChallenge minerId req.nonceBytes = fresh at hfresh hnew ⊢
    refine ⟨h.identity, fun challengeId challenge hfound => ?_,
      fun challengeId challenge hfound hused => ?_,
      fun challengeId challengeId' challenge challenge' hfound hfound' htext => ?_,
      fun text hpresented => ?_, h.nonce⟩
    · rcases update_some_eq_some.1 hfound with ⟨_, rfl⟩ | ⟨_, hfound⟩
      · exact ⟨fresh, List.mem_cons_self, rfl, rfl, rfl⟩
      · rcases h.issued challengeId challenge hfound with ⟨issued, hissued, hsame⟩
        exact ⟨issued, List.mem_cons_of_mem _ hissued, hsame⟩
    · rcases update_some_eq_some.1 hfound with ⟨_, rfl⟩ | ⟨_, hfound⟩
      · intro hpresented
        rcases h.presented _ hpresented with ⟨issued, hissued, htext⟩
        exact hfresh issued hissued htext
      · exact h.unused challengeId challenge hfound hused
    · rcases update_some_eq_some.1 hfound with ⟨rfl, rfl⟩ | ⟨_, hfound⟩ <;>
        rcases update_some_eq_some.1 hfound' with ⟨rfl, rfl⟩ | ⟨_, hfound'⟩
      · rfl
      · exact absurd htext.symm (hnew challengeId' challenge' hfound')
      · exact absurd htext (hnew challengeId challenge hfound)
      · exact h.distinct challengeId challengeId' challenge challenge' hfound hfound' htext
    · rcases h.presented text hpresented with ⟨issued, hissued, htext⟩
      exact ⟨issued, List.mem_cons_of_mem _ hissued, htext⟩

theorem Guarded.publicIPNonce (h : s.Guarded) {req : PublicIPNonceRequest}
    (hcareful : s.Careful (.publicIPNonce req)) : (s.step v (.publicIPNonce req)).Guarded := by
  cases hparse : req.parse with
  | error rejection =>
    simp only [step, handlePublicIPNonceRequest, hparse]
    exact h
  | ok minerId =>
    simp only [step, handlePublicIPNonceRequest, hparse]
    refine ⟨h.identity, h.issued, h.unused, h.distinct, h.presented,
      fun minerId' nonce hnonce => ?_⟩
    rcases update_some_eq_some.1 hnonce with ⟨rfl, rfl⟩ | ⟨_, hnonce⟩
    · exact ⟨List.mem_cons_self, hcareful _ hparse⟩
    · exact ⟨List.mem_cons_of_mem _ (h.nonce minerId' nonce hnonce).1,
        (h.nonce minerId' nonce hnonce).2⟩

theorem Guarded.editProfile (h : s.Guarded) {req : EditProfileRequest}
    (hcareful : s.Careful (.editProfile req)) : (s.step v (.editProfile req)).Guarded := by
  rcases handleEditProfileRequest_frame (v := v) (s := s.toAPIServer) req with ⟨liveMiners, hframe⟩
  simp only [step, hframe]
  cases hpresent : s.presentEdit req with
  | error rejection =>
    exact ⟨h.identity, h.issued, h.unused, h.distinct, h.presented, h.nonce⟩
  | ok presented =>
    rcases presented with ⟨edit, text⟩
    rcases of_presentEdit hpresent with ⟨hparse, _, htext⟩
    have hid := (hcareful edit hparse).1
    rcases of_challengeText htext hid with ⟨challenge, hchallenge, _, _, rfl⟩
    simp only [markUsed, if_pos hid, hchallenge, Option.map_some]
    refine ⟨h.identity, fun challengeId found hfound => ?_,
      fun challengeId found hfound hused => ?_,
      fun challengeId challengeId' found found' hfound hfound' htext => ?_,
      fun text hpresented => ?_, h.nonce⟩
    · rcases update_some_eq_some.1 hfound with ⟨rfl, rfl⟩ | ⟨_, hfound⟩
      · exact h.issued _ challenge hchallenge
      · exact h.issued challengeId found hfound
    · rcases update_some_eq_some.1 hfound with ⟨rfl, rfl⟩ | ⟨hne, hfound⟩
      · cases hused
      · -- a text that is presented now stands under one id only
        rw [List.mem_cons, not_or]
        refine ⟨fun hsame => hne ?_, h.unused challengeId found hfound hused⟩
        exact h.distinct _ _ found challenge hfound hchallenge hsame
    · rcases update_some_eq_some.1 hfound with ⟨rfl, rfl⟩ | ⟨_, hfound⟩ <;>
        rcases update_some_eq_some.1 hfound' with ⟨rfl, rfl⟩ | ⟨_, hfound'⟩
      · rfl
      · exact h.distinct _ _ challenge found' hchallenge hfound' htext
      · exact h.distinct _ _ found challenge hfound hchallenge htext
      · exact h.distinct _ _ found found' hfound hfound' htext
    · rcases List.mem_cons.1 hpresented with rfl | hpresented
      · rcases h.issued _ challenge hchallenge with ⟨issued, hissued, _, hissuedText, _⟩
        exact ⟨issued, hissued, hissuedText⟩
      · exact h.presented text hpresented

theorem Guarded.setPublicIP (h : s.Guarded) (req : SetPublicIPRequest) :
    (s.step v (.setPublicIP req)).Guarded := by
  rcases handleSetPublicIPRequest_frame (v := v) (s := s.toAPIServer) req with
    ⟨liveMiners, manualPublicIp, hframe⟩
  simp only [step, hframe]
  cases s.presentChange req with
  | error rejection =>
    exact ⟨h.identity, h.issued, h.unused, h.distinct, h.presented, h.nonce⟩
  | ok change =>
    refine ⟨h.identity, h.issued, h.unused, h.distinct, h.presented,
      fun minerId nonce hnonce => ?_⟩
    rcases update_none_eq_some.1 hnonce with ⟨hne, hnonce⟩
    refine ⟨(h.nonce minerId nonce hnonce).1, ?_⟩
    rw [List.mem_cons, not_or]
    exact ⟨fun hpair => hne (congrArg Prod.fst hpair), (h.nonce minerId nonce hnonce).2⟩

theorem Guarded.step (h : s.Guarded) {event : AuthEvent} (hcareful : s.Careful event) :
    (s.step v event).Guarded := by
  cases event with
  | elapse seconds => exact ⟨h.identity, h.issued, h.unused, h.distinct, h.presented, h.nonce⟩
  | registerIdentity req => exact h.registerIdentity hcareful
  | challenge req => exact h.challenge hcareful
  | publicIPNonce req => exact h.publicIPNonce hcareful
  | editProfile req => exact h.editProfile hcareful
  | setPublicIP req => exact h.setPublicIP req

def ownerKey : Bytes := ascii "02" ++ List.replicate 64 97
def ownerWallet : Bytes := ascii "T1owner"
def attackerKey : Bytes := ascii "03" ++ List.replicate 64 102
def attackerWallet : Bytes := ascii "T1attacker"

def signatureOf (key message : Bytes) : Bytes :=
  hexStr (Sha256.hmac key message)

def addressText : Bytes := ascii "SetPublicIP:m1:100"

def keyedHashes : Verifiers where
  pubkeyVerify := fun key digest signature => signature = signatureOf key digest
  verifymessage := fun params =>
    [ownerWallet, attackerWallet].any fun wallet =>
      params = ascii "[\"" ++ wallet ++ ascii "\",\"" ++ signatureOf wallet addressText ++
        ascii "\",\"" ++ addressText ++ ascii "\"]"

def oneMiner : AuthLog :=
  initial 100 (fun _ => none)
    (Function.update (fun _ => none) (ascii "m1")
      (some { description := [], tokensPerTknc := 1, ipAddress := ascii "10.0.0.1" })) []

def registration (publicKey walletAddress : Bytes) : RegisterMinerIdentityRequest where
  length := 100
  readable := true
  minerId := .present (ascii "m1")
  publicKey := .present publicKey
  walletAddress := .present walletAddress

def challengeRequest : ChallengeRequest where
  command := .get
  queryMinerId := ascii "m1"
  length := 0
  readable := false
  bodyMinerId := .absent
  nonceBytes := List.replicate 16 7

def nonceRequest : PublicIPNonceRequest where
  command := .get
  minerId := ascii "m1"

def descriptionEdit (publicKey text : Bytes) (challengeId message : Field Bytes) :
    EditProfileRequest where
  command := .post
  length := 200
  readable := true
  minerId := .present (ascii "m1")
  signature := .present (signatureOf publicKey (Sha256.hash256 text))
  publicKey := .present publicKey
  challengeId := challengeId
  message := message
  description := .present (ascii "new")
  tokensPerTknc := .absent

def addressChange (walletAddress : Bytes) : SetPublicIPRequest where
  command := .post
  length := 200
  readable := true
  publicIp := .present (ascii "10.6.6.6")
  walletAddress := .present walletAddress
  signature := .present (signatureOf walletAddress addressText)
  nonce := .present (ascii "100")
  minerId := .present (ascii "m1")

def issuedText : Bytes :=
  ascii "TKNC-AUTH-07070707070707070707070707070707-100"

/-- The owner registers, and changes the description and the address as the protocol intends. -/
def ownerRun : List AuthEvent :=
  [.registerIdentity (registration ownerKey ownerWallet), .challenge challengeRequest,
    .editProfile
      (descriptionEdit ownerKey issuedText (.present (ascii "ch_100_07070707")) .absent),
    .publicIPNonce nonceRequest, .setPublicIP (addressChange ownerWallet)]

example : (run (AuthLog.step keyedHashes) oneMiner ownerRun).liveMiners (ascii "m1") =
    some { description := ascii "new", tokensPerTknc := 1, ipAddress := ascii "10.6.6.6" } := by
  decide +kernel

def takeoverRun : List AuthEvent :=
  [.registerIdentity (registration ownerKey ownerWallet),
    .registerIdentity (registration attackerKey attackerWallet),
    .editProfile (descriptionEdit attackerKey (ascii "hello") .absent (.present (ascii "hello")))]

def redirectRun : List AuthEvent :=
  [.registerIdentity (registration ownerKey ownerWallet), .publicIPNonce nonceRequest,
    .setPublicIP (addressChange attackerWallet)]

end AuthLog

end TKNC.Miner
