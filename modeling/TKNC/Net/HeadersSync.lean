import TKNC.Difficulty.Rules
import TKNC.Lib.EventMachine
import TKNC.Primitives.BlockHeader

/-!
# HeadersSync — two downloads of one header chain

`headerssync.cpp`: the headers of a peer are downloaded twice.  The first pass only sums up their
work and keeps one bit for some of them; the second one compares these bits and hands headers over,
each with enough headers on top of it.  In between they are stored without the hash of their
predecessor.

`SyncLog` carries along, beside the state of the source, what the second pass has accepted and what
was handed over.  `Buffered` says how the state stands for the two, and that the handed-over headers
are a verified chain follows for every sequence of batches (`released_verified`).

Heights are natural numbers; the salted hasher and the hash of the block that the sync starts from
are arbitrary.
-/

namespace TKNC.Net.HeadersSync

open Arith Consensus Difficulty Lib.EventMachine Lib.HashChain Primitives List

inductive State where
  | presync
  | redownload
  | final
  deriving DecidableEq, Repr

structure HeadersSyncParams where
  commitmentPeriod : Nat
  redownloadBufferSize : Nat

structure ChainStart where
  blockHeader : CBlockHeader
  blockHash : Uint256
  nHeight : Nat
  nChainWork : ArithUint256

structure Config where
  consensusParams : Params
  params : HeadersSyncParams
  chainStart : ChainStart
  minimumRequiredWork : ArithUint256
  commitOffset : Nat
  maxCommitments : Nat
  hasher : Uint256 → Nat

structure HeadersSyncState where
  currentChainWork : ArithUint256
  headerCommitments : List Bool
  lastHeaderReceived : CBlockHeader
  currentHeight : Nat
  redownloadedHeaders : List CompressedHeader
  redownloadBufferLastHeight : Nat
  redownloadBufferLastHash : Uint256
  redownloadBufferFirstPrevHash : Uint256
  redownloadChainWork : ArithUint256
  processAllRemainingHeaders : Bool
  downloadState : State

variable (cfg : Config)

def initial : HeadersSyncState where
  currentChainWork := cfg.chainStart.nChainWork
  headerCommitments := []
  lastHeaderReceived := cfg.chainStart.blockHeader
  currentHeight := cfg.chainStart.nHeight
  redownloadedHeaders := []
  redownloadBufferLastHeight := 0
  redownloadBufferLastHash := 0
  redownloadBufferFirstPrevHash := 0
  redownloadChainWork := 0
  processAllRemainingHeaders := false
  downloadState := .presync

def finalize (s : HeadersSyncState) : HeadersSyncState :=
  { s with
    headerCommitments := []
    lastHeaderReceived := .null
    redownloadedHeaders := []
    redownloadBufferLastHash := 0
    redownloadBufferFirstPrevHash := 0
    processAllRemainingHeaders := false
    currentHeight := 0
    downloadState := .final }

def commitmentOf (header : CBlockHeader) : Bool :=
  (cfg.hasher header.getHash).testBit 0

def commitsAt (height : Nat) : Bool :=
  height % cfg.params.commitmentPeriod == cfg.commitOffset

/-! ## First pass -/

def validateAndProcessSingleHeader (s : HeadersSyncState) (current : CBlockHeader) :
    Bool × HeadersSyncState :=
  if s.downloadState ≠ .presync then
    (false, s)
  else
    let nextHeight := s.currentHeight + 1
    if permittedDifficultyTransition cfg.consensusParams nextHeight s.lastHeaderReceived.nBits
        current.nBits = false then
      (false, s)
    else
      let s :=
        if commitsAt cfg nextHeight then
          { s with headerCommitments := s.headerCommitments ++ [commitmentOf cfg current] }
        else
          s
      if commitsAt cfg nextHeight ∧ s.headerCommitments.length > cfg.maxCommitments then
        (false, s)
      else
        (true,
          { s with
            currentChainWork := s.currentChainWork + getBlockProof current
            lastHeaderReceived := current
            currentHeight := nextHeight })

def processHeaders : HeadersSyncState → List CBlockHeader → Bool × HeadersSyncState
  | s, [] => (true, s)
  | s, header :: headers =>
      match validateAndProcessSingleHeader cfg s header with
      | (false, s) => (false, s)
      | (true, s) => processHeaders s headers

def startRedownload (s : HeadersSyncState) : HeadersSyncState :=
  { s with
    redownloadedHeaders := []
    redownloadBufferLastHeight := cfg.chainStart.nHeight
    redownloadBufferFirstPrevHash := cfg.chainStart.blockHash
    redownloadBufferLastHash := cfg.chainStart.blockHash
    redownloadChainWork := cfg.chainStart.nChainWork
    downloadState := .redownload }

def validateAndStoreHeadersCommitments (s : HeadersSyncState) (headers : List CBlockHeader) :
    Bool × HeadersSyncState :=
  match headers with
  | [] => (true, s)
  | first :: _ =>
      if s.downloadState ≠ .presync then
        (false, s)
      else if first.hashPrevBlock ≠ s.lastHeaderReceived.getHash then
        (false, s)
      else
        match processHeaders cfg s headers with
        | (false, s) => (false, s)
        | (true, s) =>
            if s.currentChainWork ≥ cfg.minimumRequiredWork then (true, startRedownload cfg s)
            else (true, s)

/-! ## Second pass -/

def trackWork (s : HeadersSyncState) (header : CBlockHeader) : HeadersSyncState :=
  let work := s.redownloadChainWork + getBlockProof header
  { s with
    redownloadChainWork := work
    processAllRemainingHeaders :=
      if work ≥ cfg.minimumRequiredWork then true else s.processAllRemainingHeaders }

/-- Compare the stored bit of a header, if there should be one.  Once the work is reached the peer
may have extended its chain, and nothing is compared. -/
def verifyCommitment (s : HeadersSyncState) (header : CBlockHeader) (height : Nat) :
    Bool × HeadersSyncState :=
  if s.processAllRemainingHeaders = false ∧ commitsAt cfg height then
    match s.headerCommitments with
    | [] => (false, s)
    | expected :: commitments =>
        (commitmentOf cfg header == expected, { s with headerCommitments := commitments })
  else
    (true, s)

def previousNBits (s : HeadersSyncState) : BitVec 32 :=
  match s.redownloadedHeaders.getLast? with
  | some last => last.nBits
  | none => cfg.chainStart.blockHeader.nBits

def validateAndStoreRedownloadedHeader (s : HeadersSyncState) (header : CBlockHeader) :
    Bool × HeadersSyncState :=
  let nextHeight := s.redownloadBufferLastHeight + 1
  if s.downloadState ≠ .redownload then
    (false, s)
  else if header.hashPrevBlock ≠ s.redownloadBufferLastHash then
    (false, s)
  else if permittedDifficultyTransition cfg.consensusParams nextHeight (previousNBits cfg s)
      header.nBits = false then
    (false, s)
  else
    match verifyCommitment cfg (trackWork cfg s header) header nextHeight with
    | (false, s) => (false, s)
    | (true, s) =>
        (true,
          { s with
            redownloadedHeaders := s.redownloadedHeaders ++ [.ofHeader header]
            redownloadBufferLastHeight := nextHeight
            redownloadBufferLastHash := header.getHash })

def storeHeaders : HeadersSyncState → List CBlockHeader → Bool × HeadersSyncState
  | s, [] => (true, s)
  | s, header :: headers =>
      match validateAndStoreRedownloadedHeader cfg s header with
      | (false, s) => (false, s)
      | (true, s) => storeHeaders s headers

/-- The loop that empties the front of the buffer: what it returns, the rest of the buffer, and the
hash that the rest continues from. -/
def popLoop (processAll : Bool) :
    List CompressedHeader → Uint256 → List CBlockHeader × List CompressedHeader × Uint256
  | [], firstPrevHash => ([], [], firstPrevHash)
  | header :: buffer, firstPrevHash =>
      if (header :: buffer).length > cfg.params.redownloadBufferSize ∨ processAll then
        let full := header.getFullHeader firstPrevHash
        let (ret, rest, hash) := popLoop processAll buffer full.getHash
        (full :: ret, rest, hash)
      else
        ([], header :: buffer, firstPrevHash)

def popHeadersReadyForAcceptance (s : HeadersSyncState) : List CBlockHeader × HeadersSyncState :=
  if s.downloadState ≠ .redownload then
    ([], s)
  else
    let (ret, rest, hash) := popLoop cfg s.processAllRemainingHeaders s.redownloadedHeaders
      s.redownloadBufferFirstPrevHash
    (ret,
      { s with
        redownloadedHeaders := rest
        redownloadBufferFirstPrevHash := hash })

structure ProcessingResult where
  powValidatedHeaders : List CBlockHeader
  success : Bool
  requestMore : Bool

def processBatch (s : HeadersSyncState) (headers : List CBlockHeader) (fullHeadersMessage : Bool) :
    ProcessingResult × HeadersSyncState :=
  match s.downloadState with
  | .presync =>
      let (success, s) := validateAndStoreHeadersCommitments cfg s headers
      (⟨[], success, success && (fullHeadersMessage || s.downloadState = .redownload)⟩, s)
  | .redownload =>
      match storeHeaders cfg s headers with
      | (false, s) => (⟨[], false, false⟩, s)
      | (true, s) =>
          let (released, s) := popHeadersReadyForAcceptance cfg s
          let complete := s.redownloadedHeaders.isEmpty && s.processAllRemainingHeaders
          (⟨released, true, !complete && fullHeadersMessage⟩, s)
  | .final => (⟨[], false, false⟩, s)

def processNextHeaders (s : HeadersSyncState) (receivedHeaders : List CBlockHeader)
    (fullHeadersMessage : Bool) : ProcessingResult × HeadersSyncState :=
  if receivedHeaders = [] then
    (⟨[], false, false⟩, s)
  else if s.downloadState = .final then
    (⟨[], false, false⟩, s)
  else
    let (ret, s) := processBatch cfg s receivedHeaders fullHeadersMessage
    (ret, if ret.success && ret.requestMore then s else finalize s)

def acceptedHeaders : HeadersSyncState → List CBlockHeader → List CBlockHeader
  | _, [] => []
  | s, header :: headers =>
      match validateAndStoreRedownloadedHeader cfg s header with
      | (false, _) => []
      | (true, s) => header :: acceptedHeaders s headers

structure Batch where
  headers : List CBlockHeader
  full : Bool

/-- A sync with the headers that were accepted in its second pass and those that were handed over.
-/
structure SyncLog where
  state : HeadersSyncState
  accepted : List CBlockHeader
  released : List CBlockHeader

def start : SyncLog where
  state := initial cfg
  accepted := []
  released := []

def step (log : SyncLog) (batch : Batch) : SyncLog :=
  let (ret, s) := processNextHeaders cfg log.state batch.headers batch.full
  { state := s
    accepted := log.accepted ++ acceptedHeaders cfg log.state batch.headers
    released := log.released ++ ret.powValidatedHeaders }

def workAfter (headers : List CBlockHeader) : ArithUint256 :=
  headers.foldl (fun work header => work + getBlockProof header) cfg.chainStart.nChainWork

/-- Along the headers the work reached the minimum. -/
def WorkReached (headers : List CBlockHeader) : Prop :=
  ∃ front, front ≠ [] ∧ front <+: headers ∧ cfg.minimumRequiredWork ≤ workAfter cfg front

/-- Every header that a call handed over had enough accepted headers behind it by then, unless the
work was reached. -/
def Covered (before after : SyncLog) : Prop :=
  ∀ i, before.released.length ≤ i → i < after.released.length →
    cfg.params.redownloadBufferSize ≤ after.accepted.length - (i + 1) ∨
      WorkReached cfg after.accepted

/-- Every call of a sequence is covered. -/
def EachCovered (batches : List Batch) : Prop :=
  ∀ earlier batch later, batches = earlier ++ batch :: later →
    Covered cfg (run (step cfg) (start cfg) earlier)
      (run (step cfg) (start cfg) (earlier ++ [batch]))

/-! ## The buffer -/

variable {cfg} {s s' : HeadersSyncState} {accepted released : List CBlockHeader}
  {header : CBlockHeader} {headers : List CBlockHeader}

/-- How the state of the second pass stands for what was accepted and handed over. -/
structure Buffered (cfg : Config) (s : HeadersSyncState)
    (accepted released : List CBlockHeader) : Prop where
  state : s.downloadState = .redownload
  chain : ChainFrom headerLink cfg.chainStart.blockHash accepted
  pending : ∃ pending, accepted = released ++ pending ∧
    s.redownloadedHeaders = pending.map CompressedHeader.ofHeader
  firstPrevHash : s.redownloadBufferFirstPrevHash =
    lastHash headerLink cfg.chainStart.blockHash released
  bufferLastHash : s.redownloadBufferLastHash =
    lastHash headerLink cfg.chainStart.blockHash accepted
  work : s.redownloadChainWork = workAfter cfg accepted
  reached : s.processAllRemainingHeaders = true → WorkReached cfg accepted

theorem WorkReached.append (h : WorkReached cfg accepted) (more : List CBlockHeader) :
    WorkReached cfg (accepted ++ more) := by
  rcases h with ⟨front, hne, hfront, hwork⟩
  exact ⟨front, hne, hfront.trans (prefix_append _ _), hwork⟩

theorem verifyCommitment_frame (cfg : Config) (s : HeadersSyncState) (header : CBlockHeader)
    (height : Nat) :
    ∃ commitments, (verifyCommitment cfg s header height).2 =
      { s with headerCommitments := commitments } := by
  unfold verifyCommitment
  split
  · split
    · exact ⟨s.headerCommitments, rfl⟩
    · exact ⟨_, rfl⟩
  · exact ⟨s.headerCommitments, rfl⟩

theorem validateAndStore_eq_true
    (h : validateAndStoreRedownloadedHeader cfg s header = (true, s')) :
    header.hashPrevBlock = s.redownloadBufferLastHash ∧
      ∃ commitments,
        s' = { trackWork cfg s header with
          headerCommitments := commitments
          redownloadedHeaders := s.redownloadedHeaders ++ [.ofHeader header]
          redownloadBufferLastHeight := s.redownloadBufferLastHeight + 1
          redownloadBufferLastHash := header.getHash } := by
  simp only [validateAndStoreRedownloadedHeader] at h
  split at h
  · cases h
  · split at h
    · cases h
    · rename_i hlink
      split at h
      · cases h
      · rcases verifyCommitment_frame cfg (trackWork cfg s header) header
          (s.redownloadBufferLastHeight + 1) with ⟨commitments, hframe⟩
        split at h
        · cases h
        · rename_i s₁ hverify
          rw [hverify] at hframe
          dsimp only at hframe
          subst hframe
          cases h
          exact ⟨not_not.1 hlink, commitments, rfl⟩

theorem Buffered.store (h : Buffered cfg s accepted released)
    (hstore : validateAndStoreRedownloadedHeader cfg s header = (true, s')) :
    Buffered cfg s' (accepted ++ [header]) released := by
  rcases validateAndStore_eq_true hstore with ⟨hlink, commitments, rfl⟩
  rcases h.pending with ⟨pending, haccepted, hbuffer⟩
  have hwork : workAfter cfg (accepted ++ [header]) =
      s.redownloadChainWork + getBlockProof header := by
    rw [workAfter, foldl_concat, h.work]
    rfl
  refine ⟨h.state, ?_, ⟨pending ++ [header], ?_, ?_⟩, h.firstPrevHash, ?_, hwork.symm, ?_⟩
  · exact chainFrom_concat.2 ⟨h.chain, hlink.trans h.bufferLastHash⟩
  · rw [haccepted, append_assoc]
  · rw [map_append, ← hbuffer]
    rfl
  · rw [lastHash_concat]
    rfl
  · intro hall
    simp only [trackWork] at hall
    split at hall
    · rename_i hnow
      exact ⟨_, by simp, prefix_rfl, hwork ▸ hnow⟩
    · exact (h.reached hall).append _

/-- Accepted headers continue the chain, whether or not the batch ends with a refusal. -/
theorem Buffered.chain_accepted (h : Buffered cfg s accepted released) :
    ChainFrom headerLink cfg.chainStart.blockHash (accepted ++ acceptedHeaders cfg s headers) := by
  induction headers generalizing s accepted with
  | nil => simpa [acceptedHeaders] using h.chain
  | cons header headers ih =>
    unfold acceptedHeaders
    split
    · simpa using h.chain
    · rename_i s' hstore
      simpa using ih (h.store hstore)

theorem Buffered.storeHeaders (h : Buffered cfg s accepted released)
    (hstore : storeHeaders cfg s headers = (true, s')) :
    acceptedHeaders cfg s headers = headers ∧ Buffered cfg s' (accepted ++ headers) released := by
  induction headers generalizing s accepted with
  | nil =>
    cases hstore
    exact ⟨rfl, by simpa using h⟩
  | cons header headers ih =>
    unfold HeadersSync.storeHeaders at hstore
    split at hstore
    · cases hstore
    · rename_i s₁ hfirst
      rcases ih (h.store hfirst) hstore with ⟨hall, hbuffered⟩
      refine ⟨?_, by simpa using hbuffered⟩
      rw [acceptedHeaders, hfirst]
      exact congrArg (header :: ·) hall

/-! ## Handing headers over -/

def releaseCount (cfg : Config) (processAll : Bool) (length : Nat) : Nat :=
  if processAll then length else length - cfg.params.redownloadBufferSize

theorem popLoop_eq (processAll : Bool) (buffer : List CompressedHeader) (hash : Uint256) :
    popLoop cfg processAll buffer hash =
      let ret := rebuild headerLink hash (buffer.take (releaseCount cfg processAll buffer.length))
      (ret, buffer.drop (releaseCount cfg processAll buffer.length),
        lastHash headerLink hash ret) := by
  induction buffer generalizing hash with
  | nil => simp [popLoop, rebuild, lastHash]
  | cons header buffer ih =>
    unfold popLoop
    split
    · rename_i hrelease
      have hcount : releaseCount cfg processAll (header :: buffer).length =
          releaseCount cfg processAll buffer.length + 1 := by
        cases processAll with
        | true => rfl
        | false =>
          simp only [releaseCount, length_cons, Bool.false_eq_true, or_false,
            if_false] at hrelease ⊢
          omega
      simp only [hcount, ih]
      rfl
    · rename_i hkeep
      have hcount : releaseCount cfg processAll (header :: buffer).length = 0 := by
        simp only [releaseCount, length_cons, not_or] at hkeep ⊢
        rw [if_neg hkeep.2]
        omega
      rw [hcount]
      rfl

/-- What leaves the buffer continues the headers handed over before, and what stays has enough
headers in it. -/
theorem Buffered.pop (h : Buffered cfg s accepted released) :
    Buffered cfg (popHeadersReadyForAcceptance cfg s).2 accepted
        (released ++ (popHeadersReadyForAcceptance cfg s).1) ∧
      ((popHeadersReadyForAcceptance cfg s).1 = [] ∨ s.processAllRemainingHeaders = true ∨
        (released ++ (popHeadersReadyForAcceptance cfg s).1).length +
          cfg.params.redownloadBufferSize ≤ accepted.length) := by
  rcases h.pending with ⟨pending, haccepted, hbuffer⟩
  have hlink := h.chain
  rw [haccepted, chainFrom_append, ← h.firstPrevHash] at hlink
  set n := releaseCount cfg s.processAllRemainingHeaders pending.length with hn
  have hlen : n ≤ pending.length := by
    rw [hn, releaseCount]
    split <;> omega
  -- the stripped headers are rebuilt as they were accepted
  have hret : rebuild headerLink s.redownloadBufferFirstPrevHash
      ((pending.map CompressedHeader.ofHeader).take n) = pending.take n := by
    rw [← map_take]
    exact rebuild_strip (hlink.2.of_isPrefix (List.take_prefix n pending))
  have hpop : popHeadersReadyForAcceptance cfg s =
      (pending.take n,
        { s with
          redownloadedHeaders := (pending.drop n).map CompressedHeader.ofHeader
          redownloadBufferFirstPrevHash :=
            lastHash headerLink s.redownloadBufferFirstPrevHash (pending.take n) }) := by
    simp only [popHeadersReadyForAcceptance, h.state, ne_eq, not_true_eq_false, if_false, hbuffer,
      popLoop_eq, length_map, ← hn, hret, map_drop]
  rw [hpop]
  refine ⟨⟨h.state, h.chain, ⟨pending.drop n, ?_, rfl⟩, ?_, h.bufferLastHash, h.work, h.reached⟩,
    ?_⟩
  · rw [append_assoc, take_append_drop, haccepted]
  · rw [lastHash_append, ← h.firstPrevHash]
  · by_cases hall : s.processAllRemainingHeaders = true
    · exact Or.inr (Or.inl hall)
    · rw [releaseCount, if_neg hall] at hn
      by_cases hzero : n = 0
      · exact Or.inl (by rw [hzero, take_zero])
      · right; right
        rw [haccepted, length_append, length_append, length_take]
        omega

/-! ## The invariant of a sync -/

structure Inv (cfg : Config) (log : SyncLog) : Prop where
  chain : ChainFrom headerLink cfg.chainStart.blockHash log.accepted
  released : log.released <+: log.accepted
  presync : log.state.downloadState = .presync →
    log.accepted = [] ∧ log.released = [] ∧ log.state.processAllRemainingHeaders = false
  redownload : log.state.downloadState = .redownload →
    Buffered cfg log.state log.accepted log.released

theorem Inv.start (cfg : Config) : Inv cfg (start cfg) where
  chain := trivial
  released := prefix_rfl
  presync _ := ⟨rfl, rfl, rfl⟩
  redownload h := by cases h

/-- The first pass does not touch the phase or the flag of the second one. -/
theorem processSingle_frame (cfg : Config) (s : HeadersSyncState) (header : CBlockHeader) :
    (validateAndProcessSingleHeader cfg s header).2.downloadState = s.downloadState ∧
      (validateAndProcessSingleHeader cfg s header).2.processAllRemainingHeaders =
        s.processAllRemainingHeaders := by
  unfold validateAndProcessSingleHeader
  split
  · exact ⟨rfl, rfl⟩
  · dsimp only
    split
    · exact ⟨rfl, rfl⟩
    · split <;> split <;> exact ⟨rfl, rfl⟩

theorem processHeaders_frame (cfg : Config) (s : HeadersSyncState) (headers : List CBlockHeader) :
    (processHeaders cfg s headers).2.downloadState = s.downloadState ∧
      (processHeaders cfg s headers).2.processAllRemainingHeaders =
        s.processAllRemainingHeaders := by
  induction headers generalizing s with
  | nil => exact ⟨rfl, rfl⟩
  | cons header headers ih =>
    have hframe := processSingle_frame cfg s header
    unfold processHeaders
    split
    · rename_i s₁ hsingle
      rw [hsingle] at hframe
      exact hframe
    · rename_i s₁ hsingle
      rw [hsingle] at hframe
      have hrest := ih s₁
      exact ⟨hrest.1.trans hframe.1, hrest.2.trans hframe.2⟩

theorem commitments_cases (cfg : Config) (hstate : s.downloadState = .presync)
    (hflag : s.processAllRemainingHeaders = false) (headers : List CBlockHeader) :
    ((validateAndStoreHeadersCommitments cfg s headers).2.downloadState = .presync ∧
        (validateAndStoreHeadersCommitments cfg s headers).2.processAllRemainingHeaders = false) ∨
      Buffered cfg (validateAndStoreHeadersCommitments cfg s headers).2 [] [] := by
  have hframe := processHeaders_frame cfg s headers
  rw [hstate, hflag] at hframe
  unfold validateAndStoreHeadersCommitments
  split
  · exact Or.inl ⟨hstate, hflag⟩
  · split
    · exact Or.inl ⟨hstate, hflag⟩
    · split
      · exact Or.inl ⟨hstate, hflag⟩
      · split
        · rename_i s₁ hprocess
          rw [hprocess] at hframe
          exact Or.inl hframe
        · rename_i s₁ hprocess
          rw [hprocess] at hframe
          split
          · refine Or.inr ⟨rfl, trivial, ⟨[], rfl, rfl⟩, rfl, rfl, rfl, fun hall => ?_⟩
            exact absurd (hframe.2.symm.trans hall) (by decide)
          · exact Or.inl hframe

theorem acceptedHeaders_eq_nil (h : s.downloadState ≠ .redownload) (headers : List CBlockHeader) :
    acceptedHeaders cfg s headers = [] := by
  cases headers with
  | nil => rfl
  | cons header headers => simp [acceptedHeaders, validateAndStoreRedownloadedHeader, h]

theorem Inv.of_final {log : SyncLog} (hstate : log.state.downloadState = .final)
    (hchain : ChainFrom headerLink cfg.chainStart.blockHash log.accepted)
    (hreleased : log.released <+: log.accepted) : Inv cfg log where
  chain := hchain
  released := hreleased
  presync hpresync := absurd (hstate.symm.trans hpresync) (by decide)
  redownload hredownload := absurd (hstate.symm.trans hredownload) (by decide)

theorem Inv.perhapsFinalize (h : Inv cfg ⟨s, accepted, released⟩) (goesOn : Bool) :
    Inv cfg ⟨if goesOn then s else finalize s, accepted, released⟩ := by
  cases goesOn with
  | true => exact h
  | false => exact .of_final rfl h.chain h.released

theorem Buffered.inv (h : Buffered cfg s accepted released) :
    Inv cfg ⟨s, accepted, released⟩ where
  chain := h.chain
  released := by
    rcases h.pending with ⟨pending, haccepted, _⟩
    exact ⟨pending, haccepted.symm⟩
  presync hpresync := absurd (h.state.symm.trans hpresync) (by decide)
  redownload _ := h

theorem covered_of_released_eq {before after : SyncLog} (h : after.released = before.released) :
    Covered cfg before after := by
  intro i hlow hhigh
  rw [h] at hhigh
  omega

/-- One call keeps the invariant, and covers what it hands over. -/
theorem Inv.step {log : SyncLog} (h : Inv cfg log) (batch : Batch) :
    Inv cfg (step cfg log batch) ∧ Covered cfg log (step cfg log batch) := by
  rcases log with ⟨s, accepted, released⟩
  rcases batch with ⟨headers, full⟩
  simp only [HeadersSync.step, processNextHeaders]
  by_cases hempty : headers = []
  · subst hempty
    simpa [acceptedHeaders] using And.intro h (covered_of_released_eq rfl)
  · rw [if_neg hempty]
    cases hstate : s.downloadState with
    | final =>
      simpa [acceptedHeaders_eq_nil (s := s) (by rw [hstate]; decide)] using
        And.intro h (covered_of_released_eq rfl)
    | presync =>
      rcases h.presync hstate with ⟨haccepted, hreleased, hflag⟩
      dsimp only at haccepted hreleased hflag
      subst haccepted hreleased
      simp only [processBatch, hstate, reduceCtorEq, if_false,
        acceptedHeaders_eq_nil (s := s) (by rw [hstate]; decide), append_nil]
      refine ⟨Inv.perhapsFinalize ?_ _, covered_of_released_eq rfl⟩
      rcases commitments_cases cfg hstate hflag headers with
        ⟨hpresync, hflag'⟩ | hbuffered
      · exact ⟨trivial, prefix_rfl, fun _ => ⟨rfl, rfl, hflag'⟩,
          fun hredownload => absurd (hpresync.symm.trans hredownload) (by decide)⟩
      · exact hbuffered.inv
    | redownload =>
      have hbuffered : Buffered cfg s accepted released := h.redownload hstate
      simp only [processBatch, hstate, reduceCtorEq, if_false]
      split
      · -- refused: what was accepted stays a chain, and nothing is handed over
        have hfront : released <+: accepted := h.released
        refine ⟨.of_final rfl hbuffered.chain_accepted ?_, covered_of_released_eq ?_⟩
        · simpa using hfront.trans (prefix_append _ _)
        · exact append_nil _
      · rename_i s₁ hstore
        rcases hbuffered.storeHeaders hstore with ⟨hall, hstored⟩
        rcases hstored.pop with ⟨hpopped, hcount⟩
        rw [hall]
        refine ⟨hpopped.inv.perhapsFinalize _, ?_⟩
        intro i hlow hhigh
        dsimp only at hlow hhigh ⊢
        rcases hcount with hnone | hflag | henough
        · rw [hnone, append_nil] at hhigh
          omega
        · exact Or.inr (hstored.reached hflag)
        · left
          omega

/-- Whatever batches a peer sends: what is handed over is one chain from the chain start, a part of
what the second pass accepted, and each header of it was covered when it was handed over. -/
theorem released_verified (cfg : Config) (batches : List Batch) :
    ChainFrom headerLink cfg.chainStart.blockHash
        (run (HeadersSync.step cfg) (start cfg) batches).released ∧
      (run (HeadersSync.step cfg) (start cfg) batches).released <+:
        (run (HeadersSync.step cfg) (start cfg) batches).accepted ∧
      EachCovered cfg batches := by
  have hinv : ∀ batches, Inv cfg (run (HeadersSync.step cfg) (start cfg) batches) :=
    run_invariant (fun _ batch h => (h.step batch).1) (Inv.start cfg)
  refine ⟨(hinv batches).chain.of_isPrefix (hinv batches).released, (hinv batches).released, ?_⟩
  intro earlier batch later _
  rw [run_concat]
  exact ((hinv earlier).step batch).2

def startHeader : CBlockHeader where
  nVersion := 1
  hashPrevBlock := 0
  hashMerkleRoot := 7
  nTime := 5
  nBits := 0x1e100000#32
  nNonce := 3

def nextHeader : CBlockHeader :=
  { startHeader with
    hashPrevBlock := startHeader.getHash
    nTime := 125 }

def shortSync : Config where
  consensusParams := mainParams
  params := ⟨10, 5⟩
  chainStart := ⟨startHeader, startHeader.getHash, 0, 100⟩
  minimumRequiredWork := 101
  commitOffset := 1
  maxCommitments := 4
  hasher := BitVec.toNat

example : (run (step shortSync) (start shortSync)
    [⟨[nextHeader], true⟩, ⟨[nextHeader], true⟩]).released = [nextHeader] := by
  decide +kernel

end TKNC.Net.HeadersSync
