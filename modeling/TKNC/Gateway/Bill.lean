import TKNC.Gateway.Requests
import TKNC.Lib.Session
import TKNC.Lib.Transducer

/-!
# Bill — how far a miner can push the bill of a request

`StreamFinishAndCleanup` takes the completion count of the miner only where it agrees with the count
of the node, but it adds the prompt count of the miner as it is.  The result says which counts and
which answers keep the bill below what the node has seen of the request.
-/

namespace TKNC.Gateway

open Lib Lib.MachineInt Lib.Numeral Transducer

/-! ## Bills -/

def Charge.tokens : Charge → Int
  | .checkAndDeductEscrow _ tokens => tokens
  | .trackMinerServedTokens _ tokens => tokens

def received : List Action → Bytes
  | [] => []
  | .forward data :: log => data ++ received log
  | .chunk text :: log => text ++ received log
  | _ :: log => received log

/-- Ten times the tokens that the node can account for: a tolerance on its own count, the prompt and
the content that the client got. -/
def allowance (nodeCount : Int) (prompt : Bytes) (contentBytes : Nat) : Int :=
  13 * nodeCount + 10 * (prompt.length + contentBytes + 1)

abbrev StreamContext.promptCount (ctx : StreamContext) : Int :=
  reportedCount (minerBody ctx) (ascii "prompt_tokens")

abbrev StreamContext.completionCount (ctx : StreamContext) : Int :=
  reportedCount (minerBody ctx) (ascii "completion_tokens")

/-- What the miner reports is covered by `room` tokens: the prompt count where the node has counted
tokens, both counts where it has not, and a quarter of the answer where nothing is counted. -/
def StreamContext.Covered (ctx : StreamContext) (room : Nat) : Prop :=
  (0 < ctx.nodeOutputTokenCount ∧ ctx.nodeOutputTokenCount < 2147483648 ∧
      0 ≤ ctx.promptCount ∧ ctx.promptCount ≤ room) ∨
    (ctx.nodeOutputTokenCount = 0 ∧ 0 ≤ ctx.promptCount ∧ 0 ≤ ctx.completionCount ∧
      0 < ctx.promptCount + ctx.completionCount ∧
      ctx.promptCount + ctx.completionCount ≤ room) ∨
    (ctx.nodeOutputTokenCount = 0 ∧ ctx.promptCount = 0 ∧ ctx.completionCount = 0 ∧
      (settledContent ctx).length / 4 ≤ room)

theorem wrap32_le {x : Int} (h : 0 ≤ x) : wrap 32 x ≤ x := by
  rw [wrap32_eq]
  omega

variable {ctx : StreamContext}

theorem streamTokensUsed_le {completion limit : Int}
    (hverified : verifiedCompletionTokens ctx.nodeOutputTokenCount ctx.completionCount = completion)
    (hone : 10 ≤ limit) (hsum : 10 * wrap 32 (ctx.promptCount + completion) ≤ limit)
    (hmeasured : wrap 32 (ctx.promptCount + completion) = 0 →
      10 * ((settledContent ctx).length / 4 : Nat) ≤ limit ∧
        10 * (ctx.prompt.length / 4 : Nat) ≤ limit) :
    10 * streamTokensUsed ctx ≤ limit := by
  have hmax (t : Int) (h : 10 * t ≤ limit) : 10 * (if t < 1 then 1 else t) ≤ limit := by
    split <;> omega
  have hanswer := wrap32_le (Int.natCast_nonneg ((settledContent ctx).length / 4))
  have hprompt := wrap32_le (Int.natCast_nonneg (ctx.prompt.length / 4))
  dsimp only [streamTokensUsed]
  rw [hverified]
  apply hmax
  split
  · rename_i hzero
    have hboth := hmeasured hzero
    split_ifs <;> omega
  · exact hsum

/-! ## The tolerance -/

theorem two_mul_roundDouble_le (x : Nat) :
    2 * roundDouble x ≤ 2 * x + 2 ^ (x.log2 - 52) := by
  rw [roundDouble]
  generalize 2 ^ (x.log2 - 52) = unit
  have hsplit := Nat.div_add_mod x unit
  rw [Nat.mul_comm] at hsplit
  split
  · rename_i hup
    have hhalf : unit ≤ 2 * (x % unit) := by
      rcases hup with hup | hup <;> omega
    rw [Nat.add_mul, Nat.one_mul]
    omega
  · omega

theorem ten_mul_upperTolerance_le {n : Int} (hnonneg : 0 ≤ n) (hfits : n < 2147483648) :
    10 * upperTolerance n ≤ 13 * n := by
  obtain ⟨k, rfl⟩ := Int.eq_ofNat_of_zero_le hnonneg
  have hk : k < 2147483648 := by omega
  rw [upperTolerance, truncatedProduct, Int.toNat_natCast]
  have hround := two_mul_roundDouble_le (k * 5854679515581645)
  have hunit : 2 ^ ((k * 5854679515581645).log2 - 52) ≤ 2 ^ 31 := by
    refine Nat.pow_le_pow_right (by decide) ?_
    by_cases hzero : k = 0
    · subst hzero
      decide
    · have hlog : (k * 5854679515581645).log2 < 84 :=
        (Nat.log2_lt (Nat.mul_ne_zero hzero (by decide))).2 (by omega)
      omega
  omega

theorem ten_mul_verifiedCompletionTokens_le {nodeCount : Int} (hpos : 0 < nodeCount)
    (hfits : nodeCount < 2147483648) (completionTokens : Int) :
    10 * verifiedCompletionTokens nodeCount completionTokens ≤ 13 * nodeCount := by
  have htolerance := ten_mul_upperTolerance_le hpos.le hfits
  rw [verifiedCompletionTokens, if_pos hpos]
  split_ifs <;> omega

theorem reportedCount_lt (body key : Bytes) : reportedCount body key < 2147483648 := by
  unfold reportedCount
  split
  · rw [atoi, wrap32_eq]
    omega
  · decide

theorem verifiedCompletionTokens_pos {nodeCount : Int} (hpos : 0 < nodeCount)
    (completionTokens : Int) : 0 < verifiedCompletionTokens nodeCount completionTokens := by
  rw [verifiedCompletionTokens, if_pos hpos]
  split_ifs <;> omega

/-- Where the node has counted tokens, the sum of the counts is positive and nothing is measured. -/
theorem streamTokensUsed_le_of_counted {room : Nat} (hcounted : 0 < ctx.nodeOutputTokenCount)
    (hfits : ctx.nodeOutputTokenCount < 2147483648) (hnonneg : 0 ≤ ctx.promptCount)
    (hprompt : ctx.promptCount ≤ room) :
    10 * streamTokensUsed ctx ≤ 13 * ctx.nodeOutputTokenCount + 10 * room := by
  have hreported : ctx.promptCount < 2147483648 := reportedCount_lt ..
  have hcompletion : ctx.completionCount < 2147483648 := reportedCount_lt ..
  have htolerance := ten_mul_verifiedCompletionTokens_le hcounted hfits ctx.completionCount
  have hpos := verifiedCompletionTokens_pos hcounted ctx.completionCount
  have hbound : verifiedCompletionTokens ctx.nodeOutputTokenCount ctx.completionCount <
      2147483648 := by
    rw [verifiedCompletionTokens, if_pos hcounted]
    split_ifs <;> omega
  generalize hverified :
    verifiedCompletionTokens ctx.nodeOutputTokenCount ctx.completionCount = completion at *
  have hsum := wrap32_le (x := ctx.promptCount + completion) (by omega)
  refine streamTokensUsed_le hverified (by omega) (by omega) fun hzero => ?_
  rw [wrap32_eq] at hzero
  omega

/-- Where the node has counted tokens, only the prompt count of the miner can break the limit. -/
theorem streamTokensUsed_le_allowance {ctx : StreamContext} {contentBytes : Nat}
    (hcounted : 0 < ctx.nodeOutputTokenCount) (hfits : ctx.nodeOutputTokenCount < 2147483648)
    (hnonneg : 0 ≤ reportedCount (minerBody ctx) (ascii "prompt_tokens"))
    (hprompt : reportedCount (minerBody ctx) (ascii "prompt_tokens") ≤
      ctx.prompt.length + contentBytes + 1) :
    10 * streamTokensUsed ctx ≤ allowance ctx.nodeOutputTokenCount ctx.prompt contentBytes :=
  @streamTokensUsed_le_of_counted ctx (ctx.prompt.length + contentBytes + 1) hcounted hfits hnonneg
    hprompt

/-- Without a count of the node the two counts of the miner are billed, or what can be measured. -/
theorem streamTokensUsed_le_of_covered {contentBytes : Nat}
    (h : ctx.Covered (ctx.prompt.length + contentBytes + 1)) :
    10 * streamTokensUsed ctx ≤ allowance ctx.nodeOutputTokenCount ctx.prompt contentBytes := by
  have hreported : ctx.promptCount < 2147483648 := reportedCount_lt ..
  have hcompletion : ctx.completionCount < 2147483648 := reportedCount_lt ..
  have huncounted (hzero : ctx.nodeOutputTokenCount = 0) :
      verifiedCompletionTokens ctx.nodeOutputTokenCount ctx.completionCount =
        ctx.completionCount := by
    rw [verifiedCompletionTokens, if_neg (by omega)]
  rcases h with ⟨hcounted, hfits, hnonneg, hprompt⟩ | ⟨hzero, hnonneg, hnonneg', hpos, hsum⟩ |
    ⟨hzero, hnone, hnone', hanswer⟩
  · exact streamTokensUsed_le_of_counted hcounted hfits hnonneg hprompt
  · have hwrap := wrap32_le hpos.le
    rw [allowance]
    refine streamTokensUsed_le (huncounted hzero) (by omega) (by omega) fun hcancel => ?_
    rw [wrap32_eq] at hcancel
    omega
  · have hwrap : wrap 32 (ctx.promptCount + ctx.completionCount) = 0 := by
      rw [hnone, hnone']
      rfl
    rw [allowance]
    exact streamTokensUsed_le (huncounted hzero) (by omega) (by omega) fun _ => by omega

theorem promptCount_lt_streamTokensUsed (hcounted : 0 < ctx.nodeOutputTokenCount)
    (hnonneg : 0 ≤ ctx.promptCount)
    (hfits : ctx.promptCount + 2 * ctx.nodeOutputTokenCount < 2147483648) :
    ctx.promptCount < streamTokensUsed ctx := by
  have htolerance :=
    ten_mul_verifiedCompletionTokens_le hcounted (by omega) ctx.completionCount
  have hpos := verifiedCompletionTokens_pos hcounted ctx.completionCount
  have hsum : Fits 32 (ctx.promptCount +
      verifiedCompletionTokens ctx.nodeOutputTokenCount ctx.completionCount) := by
    rw [fits32_iff]
    omega
  dsimp only [streamTokensUsed]
  rw [wrap32_of_fits hsum, if_neg (by omega)]
  split <;> omega

/-! ## Streams -/

def readSegments (request : GatewayRequest) (cost : Int) (segments : List Bytes) : StreamContext :=
  (Transducer.run streamMinerRead (request.context cost) segments).1

def settledSession (request : GatewayRequest) (cost : Int) (segments : List Bytes) :
    Session Context Action :=
  EventMachine.run (Session.step react) ⟨some (.gateway (request.context cost)), []⟩
    (segments.map .data ++ [.ended])

theorem run_data_gateway (ctx : StreamContext) (log : List Action) (segments : List Bytes) :
    EventMachine.run (Session.step react) ⟨some (.gateway ctx), log⟩ (segments.map .data) =
      ⟨some (.gateway (run streamMinerRead ctx segments).1),
        log ++ (run streamMinerRead ctx segments).2⟩ := by
  induction segments generalizing ctx log with
  | nil => exact congrArg _ (List.append_nil log).symm
  | cons segment segments ih =>
    refine (ih (streamMinerRead ctx segment).1 (log ++ (streamMinerRead ctx segment).2)).trans ?_
    rw [run, List.append_assoc]

theorem readSegments_extends (ctx : StreamContext) (segments : List Bytes) :
    ctx.Extends (run streamMinerRead ctx segments).2
      (run streamMinerRead ctx segments).1 := by
  induction segments generalizing ctx with
  | nil => exact ⟨rfl, rfl, rfl, rfl, quiet_nil⟩
  | cons segment segments ih => exact (streamMinerRead_extends ctx segment).trans (ih _)

theorem charges_settledSession (request : GatewayRequest) (cost : Int) (segments : List Bytes) :
    charges (settledSession request cost segments).log =
      charges (streamCharge (readSegments request cost segments)) := by
  have hread := (readSegments_extends (request.context cost) segments).quiet.2
  rw [settledSession, EventMachine.run_concat, run_data_gateway, Session.log_step, charges_append,
    List.nil_append, hread, List.nil_append]
  change charges (streamFinishAndCleanup (readSegments request cost segments) false) = _
  rw [streamFinishAndCleanup, if_neg Bool.false_ne_true, charges_append, charges_append,
    charges_releaseReserved, (quiet_streamReply _).2, List.append_nil, List.append_nil]

theorem charges_of_billed {request : GatewayRequest} {cost : Int} {segments : List Bytes}
    (hkey : request.apiKey ≠ [])
    (hplain : hasErrorMarker (settledContent (readSegments request cost segments)) = false) :
    ∃ c, charges (settledSession request cost segments).log = [c] ∧
      c.tokens = streamTokensUsed (readSegments request cost segments) := by
  have hsame : (readSegments request cost segments).apiKey = request.apiKey :=
    (readSegments_extends (request.context cost) segments).apiKey
  rw [charges_settledSession, streamCharge_eq (hsame ▸ hkey), hplain, if_neg Bool.false_ne_true]
  refine ⟨_, rfl, ?_⟩
  split <;> rfl

/-- However the content bytes of what the client got are counted: the bill of a stream stays within
the allowance if nothing is billed or the room beside the count of the node covers what the miner
reports.  A prompt count above the whole allowance breaks it. -/
theorem bill_le_allowance (contentBytes : Bytes → Nat) (request : GatewayRequest) (cost : Int)
    (segments : List Bytes) :
    (request.apiKey = [] ∨
        hasErrorMarker (settledContent (readSegments request cost segments)) = true ∨
        (readSegments request cost segments).Covered (request.prompt.length +
          contentBytes (received (settledSession request cost segments).log) + 1) →
      ∀ c ∈ charges (settledSession request cost segments).log,
        10 * c.tokens ≤ allowance (readSegments request cost segments).nodeOutputTokenCount
          request.prompt (contentBytes (received (settledSession request cost segments).log))) ∧
    (request.apiKey ≠ [] →
      hasErrorMarker (settledContent (readSegments request cost segments)) = false →
      0 < (readSegments request cost segments).nodeOutputTokenCount →
      (readSegments request cost segments).promptCount +
        2 * (readSegments request cost segments).nodeOutputTokenCount < 2147483648 →
      allowance (readSegments request cost segments).nodeOutputTokenCount request.prompt
          (contentBytes (received (settledSession request cost segments).log)) <
        10 * (readSegments request cost segments).promptCount →
      ∃ c ∈ charges (settledSession request cost segments).log,
        allowance (readSegments request cost segments).nodeOutputTokenCount request.prompt
          (contentBytes (received (settledSession request cost segments).log)) <
        10 * c.tokens) := by
  have hextends := readSegments_extends (request.context cost) segments
  constructor
  · intro h
    by_cases hbilled : request.apiKey ≠ [] ∧
        hasErrorMarker (settledContent (readSegments request cost segments)) = false
    · obtain ⟨c, hcharges, htokens⟩ := charges_of_billed hbilled.1 hbilled.2
      have hcovered := (h.resolve_left hbilled.1).resolve_left (by rw [hbilled.2]; decide)
      have hprompt : (readSegments request cost segments).prompt = request.prompt :=
        hextends.prompt
      rw [← hprompt] at hcovered ⊢
      rw [hcharges, List.forall_mem_singleton, htokens]
      exact streamTokensUsed_le_of_covered hcovered
    · -- no key, or a marker: there is no charge
      have hnone : streamCharge (readSegments request cost segments) = [] := by
        have hkey : (readSegments request cost segments).apiKey = request.apiKey :=
          hextends.apiKey
        exact if_neg fun hcharged => hbilled ⟨hkey ▸ hcharged.1, hcharged.2.2.2⟩
      rw [charges_settledSession, hnone]
      exact List.forall_mem_nil _
  · intro hkey hplain hcounted hfits hlarge
    obtain ⟨c, hcharges, htokens⟩ := charges_of_billed hkey hplain
    have hnonneg : 0 ≤ (readSegments request cost segments).promptCount := by
      rw [allowance] at hlarge
      omega
    have hbilled := promptCount_lt_streamTokensUsed hcounted hnonneg hfits
    refine ⟨c, hcharges ▸ List.mem_singleton_self c, ?_⟩
    rw [htokens]
    omega

def billedRequest : GatewayRequest :=
  ⟨ascii "chatcmpl-1", ascii "m", 1700000000, ascii "POST /", ascii "key", ascii "hi", 0, false,
    none⟩

def inflatedStream : List Bytes :=
  [ascii "HTTP/1.1 200 OK\r\n\r\ndata: \x7b\"delta\":\x7b\"content\":\"ok\"\x7d\x7d\n\n",
    ascii "data: \x7b\"usage\":\x7b\"prompt_tokens\":1000000\x7d\x7d\n\n"]

def countedStream : List Bytes :=
  inflatedStream.take 1 ++
    [ascii "data: \x7b\"usage\":\x7b\"prompt_tokens\":2,\"completion_tokens\":1\x7d\x7d\n\n"]

theorem streamTokensUsed_countedStream :
    (readSegments billedRequest 0 countedStream).promptCount = 2 ∧
      10 * streamTokensUsed (readSegments billedRequest 0 countedStream) ≤
        allowance (readSegments billedRequest 0 countedStream).nodeOutputTokenCount
          (readSegments billedRequest 0 countedStream).prompt 2 :=
  ⟨by decide +kernel, streamTokensUsed_le_allowance (by decide +kernel) (by decide +kernel)
    (by decide +kernel) (by decide +kernel)⟩

theorem bill_countedStream :
    charges (settledSession billedRequest 0 countedStream).log =
        [.checkAndDeductEscrow (ascii "key") 3] ∧
      ∀ c ∈ charges (settledSession billedRequest 0 countedStream).log,
        10 * c.tokens ≤ allowance (readSegments billedRequest 0 countedStream).nodeOutputTokenCount
          billedRequest.prompt 2 :=
  ⟨by decide +kernel, (bill_le_allowance (fun _ => 2) billedRequest 0 countedStream).1
    (Or.inr (Or.inr (Or.inl (by decide +kernel))))⟩

/-- Even if every byte that the client got counts as content. -/
theorem bill_inflatedStream :
    charges (settledSession billedRequest 0 inflatedStream).log =
        [.checkAndDeductEscrow (ascii "key") 1000001] ∧
      allowance (readSegments billedRequest 0 inflatedStream).nodeOutputTokenCount
        billedRequest.prompt (received (settledSession billedRequest 0 inflatedStream).log).length <
        10 * 1000001 := by
  decide +kernel

end TKNC.Gateway
