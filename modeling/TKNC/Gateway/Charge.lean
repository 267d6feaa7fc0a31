import TKNC.Gateway.Requests
import TKNC.Lib.Session

/-!
# Charge — whether delivered tokens are paid for

A request of a key whose client got text of the miner should be charged once at its end.  The
gateway does not charge when the client closes first, and both machines take a marker in the text
for a failed inference; the result says that these are the only ways around the charge.
-/

namespace TKNC.Gateway.Charging

open Escrow.KeyGate (someKey)
open Lib Lib.EventMachine Lib.MachineInt Lib.Numeral Lib.Session List

/-- The client got a delta with text. -/
def Delivered (log : List Action) : Prop :=
  0 < deltaCount (forwarded log)

/-- The reply was started with success.  The gateway does so on its own, the proxy with the status of
the remote side. -/
def Succeeded (log : List Action) : Prop :=
  ∃ status ∈ starts log, 200 ≤ status ∧ status < 300

def chargeOf (a : Arrival) (tokens : Int) : Charge :=
  if a.skipBilling then .trackMinerServedTokens a.apiKey tokens
  else .checkAndDeductEscrow a.apiKey tokens

def ChargedOnce (a : Arrival) (log : List Action) : Prop :=
  ∃ tokens, 1 ≤ tokens ∧ charges log = [chargeOf a tokens]

/-- What was delivered is charged for when the request is over. -/
def Paid (a : Arrival) (s : Session Context Action) : Prop :=
  s.ctx = none → Succeeded s.log → Delivered s.log → ChargedOnce a s.log

/-- The end of a request leads to its charge. -/
def Chargeable (ctx : Context) (event : Event) (log : List Action) : Prop :=
  match ctx with
  | .gateway ctx => event ≠ .clientClose ∧ hasErrorMarker (settledContent ctx) = false
  | _ => hasErrorMarker (forwarded log) = false ∧ wrap 32 (deltaCount (forwarded log)) ≠ 0

/-- A step that ends a request which delivered text ends it in a chargeable way. -/
def EndsChargeable (s : Session Context Action) (event : Event) : Prop :=
  ∀ ctx, s.ctx = some ctx → (step react s event).ctx = none →
    Succeeded (step react s event).log → Delivered (step react s event).log →
      Chargeable ctx event (step react s event).log

def arrive (a : Arrival) (cost : Int) : Session Context Action :=
  ⟨some (.arrived a cost), []⟩

/-! ## Contexts against the log -/

/-- The context belongs to the request, and the proxy has kept what it handed on. -/
def Agrees (a : Arrival) (ctx : Context) (log : List Action) : Prop :=
  match ctx with
  | .arrived a' _ => a' = a ∧ forwarded log = [] ∧ starts log = []
  | .gateway ctx => ctx.apiKey = a.apiKey ∧ ctx.skipBilling = a.skipBilling
  | .proxy ctx =>
      ctx.apiKey = a.apiKey ∧ a.skipBilling = false ∧
        forwarded log = ctx.responseBodyAccumulated ∧ starts log = ctx.started

/-- A live request has not been charged for. -/
def Live (a : Arrival) (ctx : Context) (log : List Action) : Prop :=
  Agrees a ctx log ∧ charges log = []

variable {a : Arrival}

variable {log : List Action}

theorem agrees_setUp {cost : Int} {outcome : Setup} {c : Context} (hforwarded : forwarded log = [])
    (hstarts : starts log = []) (h : (setUp cost a outcome).1 = some c) :
    Agrees a c (log ++ (setUp cost a outcome).2) := by
  cases a with
  | gateway r =>
    rw [setUp] at h
    split at h
    · cases h
    · cases outcome with
      | connecting =>
        cases h
        exact ⟨rfl, rfl⟩
      | noBufferevent => cases h
      | noConnection => cases h
  | proxy r =>
    cases outcome with
    | connecting =>
      cases h
      refine ⟨rfl, rfl, ?_, ?_⟩
      · rw [forwarded_append, hforwarded]
        rfl
      · rw [starts_append, hstarts]
        rfl
    | noBufferevent => cases h
    | noConnection => cases h

variable {ctx : StreamContext} {event : Event}

theorem agrees_stream {c : Context} (h : Agrees a (.gateway ctx) log)
    (hlive : (react (.gateway ctx) event).1 = some c) :
    Agrees a c (log ++ (react (.gateway ctx) event).2) := by
  rcases h with ⟨hkey, hskip⟩
  cases event with
  | data segment =>
    cases hlive
    have hread := streamMinerRead_extends ctx segment
    exact ⟨hread.apiKey.trans hkey, hread.skipBilling.trans hskip⟩
  | ended => cases hlive
  | clientClose => cases hlive
  | setup outcome =>
    cases hlive
    exact ⟨hkey, hskip⟩
  | connected =>
    cases hlive
    exact ⟨hkey, hskip⟩
  | keepalive =>
    cases hlive
    exact ⟨hkey, hskip⟩

theorem agrees_extends {ctx ctx' : ProxyCtx} {log out : List Action}
    (h : Agrees a (.proxy ctx) log) (hread : ctx.Extends out ctx') :
    Agrees a (.proxy ctx') (log ++ out) := by
  rcases h with ⟨hkey, hskip, hforwarded, hstarts⟩
  refine ⟨hread.apiKey.trans hkey, hskip, ?_, ?_⟩
  · rw [forwarded_append, hforwarded, hread.body]
  · rw [starts_append, hstarts, hread.started]

theorem agrees_proxy {ctx : ProxyCtx} {c : Context} (h : Agrees a (.proxy ctx) log)
    (hlive : (react (.proxy ctx) event).1 = some c) :
    Agrees a c (log ++ (react (.proxy ctx) event).2) := by
  have hstay (out : List Action) (hforwarded : forwarded out = []) (hstarts : starts out = []) :
      Agrees a (.proxy ctx) (log ++ out) := by
    rcases h with ⟨hkey, hskip, hbody, hstarted⟩
    refine ⟨hkey, hskip, ?_, ?_⟩
    · rw [forwarded_append, hforwarded, append_nil, hbody]
    · rw [starts_append, hstarts, append_nil, hstarted]
  cases event with
  | data segment =>
    have hread := proxyRead_extends ctx segment
    simp only [react, proxyReact] at hlive ⊢
    split at hlive
    · cases hlive
    · rename_i hfinished
      rw [if_neg hfinished]
      cases hlive
      exact agrees_extends h hread
  | ended =>
    simp only [react, proxyReact] at hlive
    split at hlive <;> cases hlive
  | clientClose => cases hlive
  | setup outcome =>
    cases hlive
    exact hstay [] rfl rfl
  | connected =>
    cases hlive
    exact hstay [_] rfl rfl
  | keepalive =>
    cases hlive
    exact hstay [] rfl rfl

theorem agrees_react {ctx c : Context} (h : Agrees a ctx log)
    (hlive : (react ctx event).1 = some c) :
    Agrees a c (log ++ (react ctx event).2) := by
  cases ctx with
  | gateway ctx => exact agrees_stream h hlive
  | proxy ctx => exact agrees_proxy h hlive
  | arrived a' cost =>
    rcases h with ⟨rfl, hforwarded, hstarts⟩
    rcases react_arrived_cases a' cost event with ⟨outcome, rfl⟩ | hwait
    · exact agrees_setUp hforwarded hstarts hlive
    · rw [hwait] at hlive ⊢
      cases hlive
      rw [append_nil]
      exact ⟨rfl, hforwarded, hstarts⟩

theorem live_react {ctx : Context} (event : Event) (h : Live a ctx log) :
    Holds (Live a) (fun _ => True) ⟨(react ctx event).1, log ++ (react ctx event).2⟩ := by
  cases hctx : (react ctx event).1 with
  | none => trivial
  | some c =>
    refine ⟨agrees_react h.1 hctx, ?_⟩
    rw [charges_append, h.2, ((reaction ctx event).live c hctx).2.2.2]
    rfl

/-! ## The end of a request -/

theorem forwarded_setUp {cost : Int} {outcome : Setup} (h : (setUp cost a outcome).1 = none) :
    forwarded (setUp cost a outcome).2 = [] := by
  have hrelease (apiKey : Bytes) (cost : Int) :
      forwarded (releaseReserved apiKey cost) = [] := by
    unfold releaseReserved
    split <;> rfl
  cases a with
  | gateway r =>
    rw [setUp] at h ⊢
    split at h
    · rw [forwarded_append, hrelease]
      rfl
    · cases outcome with
      | connecting => cases h
      | noBufferevent => exact hrelease r.apiKey cost
      | noConnection => exact hrelease r.apiKey cost
  | proxy r =>
    cases outcome with
    | connecting => cases h
    | noBufferevent => rfl
    | noConnection => rfl

theorem chargedOnce_stream_iff (hkey : a.apiKey ≠ []) (h : Live a (.gateway ctx) log) :
    ChargedOnce a (log ++ streamFinishAndCleanup ctx false) ↔
      hasErrorMarker (settledContent ctx) = false := by
  rcases h with ⟨⟨hctx, hskip⟩, hlog⟩
  have hcharges : charges (log ++ streamFinishAndCleanup ctx false) = charges (streamCharge ctx) := by
    simp only [streamFinishAndCleanup, Bool.false_eq_true, if_false, charges_append, hlog,
      charges_releaseReserved, (quiet_streamReply ctx).2, nil_append, append_nil]
  rw [ChargedOnce, hcharges, streamCharge_eq (hctx ▸ hkey), hctx, hskip]
  cases hmarker : hasErrorMarker (settledContent ctx) with
  | true => simp [charges]
  | false =>
    refine iff_of_true ⟨streamTokensUsed ctx, one_le_streamTokensUsed ctx, ?_⟩ rfl
    simp [charges, chargeOf]

theorem not_chargedOnce_close (h : Live a (.gateway ctx) log) :
    ¬ ChargedOnce a (log ++ streamFinishAndCleanup ctx true) := by
  rintro ⟨tokens, _, hcharges⟩
  rw [charges_append, h.2, streamFinishAndCleanup, if_pos rfl, charges_releaseReserved] at hcharges
  cases hcharges

/-- The proxy charges once for a successful response with text, unless there is a marker. -/
theorem chargedOnce_proxy_iff {ctx : ProxyCtx} {clientDisconnected : Bool} (hkey : a.apiKey ≠ [])
    (h : Live a (.proxy ctx) log)
    (hsucceeded : Succeeded (log ++ proxyFinishCleanup ctx clientDisconnected))
    (hdelivered : Delivered (log ++ proxyFinishCleanup ctx clientDisconnected)) :
    ChargedOnce a (log ++ proxyFinishCleanup ctx clientDisconnected) ↔
      hasErrorMarker (forwarded (log ++ proxyFinishCleanup ctx clientDisconnected)) = false ∧
        wrap 32 (deltaCount (forwarded (log ++ proxyFinishCleanup ctx clientDisconnected))) ≠ 0 := by
  rcases h with ⟨⟨hctx, hskip, hforwarded, hstarts⟩, hlog⟩
  have hfinish := forwarded_proxyFinish ctx clientDisconnected
  have hbody : forwarded (log ++ proxyFinishCleanup ctx clientDisconnected) =
      ctx.responseBodyAccumulated := by
    rw [forwarded_append, hfinish.1, append_nil, hforwarded]
  -- delivered text is in the body, so the guards of the charge are passed
  have hne : ctx.responseBodyAccumulated ≠ [] := by
    intro hempty
    rw [Delivered, hbody, hempty] at hdelivered
    exact absurd hdelivered (by decide)
  have hstatus : 200 ≤ ctx.respStatus ∧ ctx.respStatus < 300 := by
    rcases hsucceeded with ⟨status, hmem, hrange⟩
    rw [starts_append, hfinish.2, append_nil, hstarts, ProxyCtx.started] at hmem
    split at hmem
    · rw [← mem_singleton.1 hmem]
      exact hrange
    · cases hmem
  have hcharges : charges (log ++ proxyFinishCleanup ctx clientDisconnected) =
      charges (proxyCharge ctx) := by
    rw [charges_append, hlog, charges_proxyFinish, nil_append]
  have hcharge := charges_proxyCharge (hctx ▸ hkey) hne hstatus
  rw [hbody, ChargedOnce, hcharges]
  by_cases hchargeable : ctx.Chargeable
  · refine iff_of_true ⟨proxyTokensUsed ctx, one_le_proxyTokensUsed ctx, ?_⟩ hchargeable
    rw [hcharge.1 hchargeable, chargeOf, hskip, hctx]
    rfl
  · refine iff_of_false ?_ hchargeable
    rintro ⟨tokens, _, hone⟩
    cases (hcharge.2 hchargeable).symm.trans hone

theorem chargedOnce_proxyReact_iff {ctx : ProxyCtx} (event : Event) (hkey : a.apiKey ≠ [])
    (h : Live a (.proxy ctx) log) (hgone : (react (.proxy ctx) event).1 = none)
    (hsucceeded : Succeeded (log ++ (react (.proxy ctx) event).2))
    (hdelivered : Delivered (log ++ (react (.proxy ctx) event).2)) :
    ChargedOnce a (log ++ (react (.proxy ctx) event).2) ↔
      Chargeable (.proxy ctx) event (log ++ (react (.proxy ctx) event).2) := by
  cases event with
  | data segment =>
    -- the last chunk is in the segment; what was read before it counts as well
    have hread := proxyRead_extends ctx segment
    simp only [react, proxyReact] at hgone hsucceeded hdelivered ⊢
    split at hgone
    · rename_i hfinished
      rw [if_pos hfinished, ← append_assoc] at hsucceeded hdelivered ⊢
      have hlive : Live a (.proxy (proxyRead ctx segment).ctx)
          (log ++ (proxyRead ctx segment).out) := by
        refine ⟨agrees_extends h.1 hread, ?_⟩
        rw [charges_append, h.2, hread.quiet.2]
        rfl
      exact chargedOnce_proxy_iff hkey hlive hsucceeded hdelivered
    · cases hgone
  | ended =>
    simp only [react, proxyReact] at hsucceeded hdelivered ⊢
    split
    · rename_i hstarted
      rw [if_pos hstarted] at hsucceeded hdelivered
      exact chargedOnce_proxy_iff hkey h hsucceeded hdelivered
    · -- without a response no reply was started
      rename_i hstarted
      rw [if_neg hstarted] at hsucceeded
      rcases hsucceeded with ⟨status, hmem, _⟩
      rw [starts_append, h.1.2.2.2, ProxyCtx.started, if_neg hstarted] at hmem
      cases hmem
  | clientClose => exact chargedOnce_proxy_iff hkey h hsucceeded hdelivered
  | _ => cases hgone

theorem chargedOnce_iff_chargeable {ctx : Context} (event : Event) (hkey : a.apiKey ≠ [])
    (h : Live a ctx log) (hgone : (react ctx event).1 = none)
    (hsucceeded : Succeeded (log ++ (react ctx event).2))
    (hdelivered : Delivered (log ++ (react ctx event).2)) :
    ChargedOnce a (log ++ (react ctx event).2) ↔
      Chargeable ctx event (log ++ (react ctx event).2) := by
  cases ctx with
  | arrived a' cost =>
    rcases react_arrived_cases a' cost event with ⟨outcome, rfl⟩ | hwait
    · -- nothing was delivered
      rcases h with ⟨⟨rfl, hforwarded, _⟩, _⟩
      rw [Delivered, forwarded_append, hforwarded, react, forwarded_setUp hgone] at hdelivered
      exact absurd hdelivered (by decide)
    · cases (congrArg Prod.fst hwait).symm.trans hgone
  | gateway ctx =>
    cases event with
    | ended =>
      have hfinish := chargedOnce_stream_iff hkey h
      refine hfinish.trans (iff_and_self.2 fun _ => ?_)
      rintro ⟨⟩
    | clientClose => exact iff_of_false (not_chargedOnce_close h) fun hcharge => hcharge.1 rfl
    | _ => cases hgone
  | proxy ctx => exact chargedOnce_proxyReact_iff event hkey h hgone hsucceeded hdelivered

/-- A step keeps the property exactly if it does not end the request in another way. -/
theorem paid_step_iff (hkey : a.apiKey ≠ []) {s : Session Context Action}
    (h : Holds (Live a) (fun _ => True) s) (hpaid : Paid a s) (event : Event) :
    Paid a (step react s event) ↔ EndsChargeable s event := by
  rcases s with ⟨_ | ctx, log⟩
  · refine iff_of_true hpaid ?_
    rintro _ ⟨⟩
  · have hiff := chargedOnce_iff_chargeable event hkey h
    constructor
    · rintro hpaid _ ⟨⟩ hgone hsucceeded hdelivered
      exact (hiff hgone hsucceeded hdelivered).1 (hpaid hgone hsucceeded hdelivered)
    · intro hends hgone hsucceeded hdelivered
      exact (hiff hgone hsucceeded hdelivered).2 (hends ctx rfl hgone hsucceeded hdelivered)

/-- Delivered text is charged for in exactly the runs that end in a chargeable way. -/
theorem always_paid_iff (a : Arrival) (hkey : a.apiKey ≠ []) (cost : Int) (events : List Event) :
    Always (step react) (Paid a) (arrive a cost) events ↔
      GoodRun (step react) EndsChargeable (arrive a cost) events := by
  have hinv (s : Session Context Action) (event : Event) (hs : Holds (Live a) (fun _ => True) s) :
      Holds (Live a) (fun _ => True) (step react s event) :=
    hs.step (fun _ _ event hlive => live_react event hlive) event
  have hkeep (s : Session Context Action) (event : Event) (hs : Holds (Live a) (fun _ => True) s)
      (hpaid : Paid a s) : Paid a (step react s event) ↔ EndsChargeable s event :=
    paid_step_iff hkey hs hpaid event
  have hstart : Holds (Live a) (fun _ => True) (arrive a cost) := ⟨⟨rfl, rfl, rfl⟩, rfl⟩
  exact always_iff_goodRun hinv hkeep hstart nofun

/-! ## Text without a charge -/

def gatewayArrival : Arrival :=
  .gateway ⟨ascii "id", ascii "model", 0, [], someKey, ascii "hello", 0, false, none⟩

def proxyArrival : Arrival :=
  .proxy ⟨[], someKey, ascii "hello"⟩

def oneDelta (text : String) : Bytes :=
  ascii "HTTP/1.1 200 OK\r\n\r\n" ++ ascii "data: \x7b\"content\":\"" ++ ascii text ++
    ascii "\"\x7d\n\n"

def afterDelta (a : Arrival) (text : String) (last : Event) : Session Context Action :=
  run (step react) (arrive a Consensus.coin)
    [.setup .connecting, .connected, .data (oneDelta text), last]

theorem always_paid_iff_hello :
    gatewayArrival.apiKey ≠ [] ∧
      (Always (step react) (Paid gatewayArrival) (arrive gatewayArrival Consensus.coin)
          [.setup .connecting, .data (oneDelta "hi"), .ended] ↔
        GoodRun (step react) EndsChargeable (arrive gatewayArrival Consensus.coin)
          [.setup .connecting, .data (oneDelta "hi"), .ended]) := by
  have hkey : gatewayArrival.apiKey ≠ [] := by decide +kernel
  exact ⟨hkey, always_paid_iff gatewayArrival hkey Consensus.coin _⟩

/-- Text was delivered, and the request is over without a charge. -/
def Unpaid (s : Session Context Action) : Prop :=
  s.ctx.isNone = true ∧ starts s.log = [200] ∧ 0 < deltaCount (forwarded s.log) ∧
    charges s.log = []

instance (s : Session Context Action) : Decidable (Unpaid s) := by
  unfold Unpaid
  infer_instance

theorem Unpaid.not_paid {s : Session Context Action} (h : Unpaid s) : ¬ Paid a s := by
  rcases h with ⟨hgone, hstart, hdelivered, hcharges⟩
  intro hpaid
  have hsucceeded : Succeeded s.log := by
    refine ⟨200, ?_, by decide⟩
    rw [hstart]
    exact mem_singleton_self _
  rcases hpaid (Option.isNone_iff_eq_none.1 hgone) hsucceeded hdelivered with ⟨tokens, _, hone⟩
  cases hcharges.symm.trans hone

/-- The client closes after a delta, or the delta quotes a marker. -/
theorem not_paid_delivered :
    Delivered (afterDelta gatewayArrival "hi" .clientClose).log ∧
      ¬ Paid gatewayArrival (afterDelta gatewayArrival "hi" .clientClose) ∧
      Delivered (afterDelta proxyArrival "see [Error: 5]" .ended).log ∧
      ¬ Paid proxyArrival (afterDelta proxyArrival "see [Error: 5]" .ended) := by
  have hclosed : Unpaid (afterDelta gatewayArrival "hi" .clientClose) := by decide +kernel
  have hquoted : Unpaid (afterDelta proxyArrival "see [Error: 5]" .ended) := by decide +kernel
  exact ⟨hclosed.2.2.1, hclosed.not_paid, hquoted.2.2.1, hquoted.not_paid⟩

end TKNC.Gateway.Charging
