import TKNC.Escrow.Reservation
import TKNC.Gateway.Proxy

/-!
# Requests — gateway and proxy requests from the reservation on

A handler reserves an estimated cost for an admitted request and then sets up its connection; from
there on the callbacks of its context serve it.  The lemmas say what one reaction of either machine
adds to the log.
-/

namespace TKNC.Gateway

open Consensus
open Escrow (Database)
open Escrow.Reservation Lib.Numeral

/-! ## Arrivals -/

/-- An admitted request of the gateway; `refusal` is the message of `CheckMinerReceivedPayment`, if
it refuses. -/
structure GatewayRequest where
  chatId : Bytes
  model : Bytes
  created : Int
  minerHttpRequest : Bytes
  apiKey : Bytes
  prompt : Bytes
  maxTokens : Int
  skipBilling : Bool
  refusal : Option Bytes

/-- An admitted request of the proxy; without a key it is forwarded free of charge. -/
structure ProxyRequest where
  forwardRequest : Bytes
  apiKey : Bytes
  prompt : Bytes

inductive Arrival where
  | gateway (r : GatewayRequest)
  | proxy (r : ProxyRequest)

def Arrival.apiKey : Arrival → Bytes
  | .gateway r => r.apiKey
  | .proxy r => r.apiKey

def Arrival.skipBilling : Arrival → Bool
  | .gateway r => r.skipBilling
  | .proxy _ => false

def Arrival.reservation (gw : Escrow.KeyGate.Gateway) (db : Database) : Arrival → Int
  | .gateway r =>
      if r.skipBilling = false ∧ r.apiKey ≠ [] then
        reservedCost gw db r.apiKey (estimatedTokens r.maxTokens r.prompt)
      else 0
  | .proxy r =>
      if r.apiKey ≠ [] then reservedCost gw db r.apiKey (estimatedTokens 0 r.prompt) else 0

theorem Arrival.reservation_cases (gw : Escrow.KeyGate.Gateway) (db : Database) (a : Arrival) :
    a.reservation gw db = 0 ∨ (a.apiKey ≠ [] ∧ coin ≤ a.reservation gw db) := by
  cases a with
  | gateway r =>
    rw [reservation]
    split
    · rename_i hreserves
      exact Or.inr ⟨hreserves.2, coin_le_reservedCost ..⟩
    · exact Or.inl rfl
  | proxy r =>
    rw [reservation]
    split
    · rename_i hkey
      exact Or.inr ⟨hkey, coin_le_reservedCost ..⟩
    · exact Or.inl rfl

def GatewayRequest.context (r : GatewayRequest) (cost : Int) : StreamContext where
  chatId := r.chatId
  model := r.model
  created := r.created
  minerHttpRequest := r.minerHttpRequest
  apiKey := r.apiKey
  prompt := r.prompt
  skipBilling := r.skipBilling
  reservedCost := cost
  minerResponseAccumulated := []
  chunkState := .headers []
  sseForwarded := false
  nodeOutputTokenCount := 0
  outputContentAccumulated := []

def ProxyRequest.context (r : ProxyRequest) (cost : Int) : ProxyCtx where
  forwardRequest := r.forwardRequest
  apiKey := r.apiKey
  prompt := r.prompt
  reservedCost := cost
  respState := .headers []
  respStatus := 200
  responseBodyAccumulated := []

/-- A request between its reservation and the setup of its connection, or one that callbacks
serve. -/
inductive Context where
  | arrived (a : Arrival) (cost : Int)
  | gateway (ctx : StreamContext)
  | proxy (ctx : ProxyCtx)

def Context.apiKey : Context → Bytes
  | .arrived a _ => a.apiKey
  | .gateway ctx => ctx.apiKey
  | .proxy ctx => ctx.apiKey

def Context.reserved : Context → Int
  | .arrived _ cost => cost
  | .gateway ctx => ctx.reservedCost
  | .proxy ctx => ctx.reservedCost

def refusalText (message : Bytes) : Bytes :=
  ascii "\x7b\"error\":\x7b\"message\":\"Inference refused: " ++ message ++
    ascii "\",\"type\":\"insufficient_balance\"\x7d\x7d"

def setUp (cost : Int) : Arrival → Setup → Option Context × List Action
  | .gateway r, outcome =>
      match (if r.apiKey = [] then none else r.refusal) with
      | some message =>
          (none, releaseReserved r.apiKey cost ++ [.reply 402 (refusalText message)])
      | none =>
          let reaction := httpPostToMinerProgressive (r.context cost) outcome
          (reaction.1.map .gateway, reaction.2)
  | .proxy r, outcome =>
      let reaction := proxyConnect (r.context cost) outcome
      (reaction.1.map .proxy, reaction.2)

def react : Context → Event → Option Context × List Action
  | .arrived a cost, .setup outcome => setUp cost a outcome
  | .arrived a cost, _ => (some (.arrived a cost), [])
  | .gateway ctx, event => ((streamReact ctx event).1.map .gateway, (streamReact ctx event).2)
  | .proxy ctx, event => ((proxyReact ctx event).1.map .proxy, (proxyReact ctx event).2)

theorem react_arrived_cases (a : Arrival) (cost : Int) (event : Event) :
    (∃ outcome, event = .setup outcome) ∨
      react (.arrived a cost) event = (some (.arrived a cost), []) := by
  cases event with
  | setup outcome => exact Or.inl ⟨outcome, rfl⟩
  | _ => exact Or.inr rfl

/-! ## Reactions -/

def leaks : Context → Event → Bool
  | .arrived (.proxy _) cost, .setup outcome => outcome ≠ .connecting && 0 < cost
  | .proxy ctx, .ended => !ctx.responseStarted && 0 < ctx.reservedCost
  | _, _ => false

def Context.dues (ctx : Context) : List (Bytes × Int) :=
  releases (releaseReserved ctx.apiKey ctx.reserved)

/-- What a reaction does to key, reservation and log. -/
structure Reaction (ctx : Context) (event : Event) (ctx' : Option Context) (out : List Action) :
    Prop where
  live : ∀ c ∈ ctx', c.apiKey = ctx.apiKey ∧ c.reserved = ctx.reserved ∧ Quiet out
  gone : ctx' = none → releases out = if leaks ctx event then [] else ctx.dues

variable {event : Event}

theorem Reaction.of_live {ctx c : Context} {out : List Action} (hkey : c.apiKey = ctx.apiKey)
    (hreserved : c.reserved = ctx.reserved) (hquiet : Quiet out) :
    Reaction ctx event (some c) out where
  live := by
    rintro _ ⟨⟩
    exact ⟨hkey, hreserved, hquiet⟩
  gone := nofun

theorem Reaction.of_gone {ctx : Context} {out : List Action}
    (h : releases out = if leaks ctx event then [] else ctx.dues) :
    Reaction ctx event none out where
  live := nofun
  gone := fun _ => h

theorem dues_of_not_pos (ctx : Context) (h : ¬ 0 < ctx.reserved) : ctx.dues = [] := by
  rw [Context.dues, releases_releaseReserved, if_neg fun hdue => h hdue.1]

theorem setUp_reaction (a : Arrival) (cost : Int) (outcome : Setup) :
    Reaction (.arrived a cost) (.setup outcome) (setUp cost a outcome).1
      (setUp cost a outcome).2 := by
  cases a with
  | gateway r =>
    rw [setUp]
    split
    · refine .of_gone ?_
      rw [releases_append]
      exact List.append_nil _
    · cases outcome with
      | connecting => exact .of_live rfl rfl ⟨rfl, rfl⟩
      | noBufferevent => exact .of_gone rfl
      | noConnection => exact .of_gone rfl
  | proxy r =>
    have hlost (h : outcome ≠ .connecting) :
        [] = if leaks (.arrived (.proxy r) cost) (.setup outcome) then []
          else (Context.arrived (.proxy r) cost).dues := by
      by_cases hcost : 0 < cost
      · rw [if_pos (by simp [leaks, h, hcost])]
      · rw [dues_of_not_pos (.arrived (.proxy r) cost) hcost, ite_self]
    cases outcome with
    | connecting => exact .of_live rfl rfl ⟨rfl, rfl⟩
    | noBufferevent => exact .of_gone (hlost nofun)
    | noConnection => exact .of_gone (hlost nofun)

theorem stream_reaction (ctx : StreamContext) (event : Event) :
    Reaction (.gateway ctx) event (react (.gateway ctx) event).1 (react (.gateway ctx) event).2 := by
  cases event with
  | setup outcome => exact .of_live rfl rfl ⟨rfl, rfl⟩
  | connected => exact .of_live rfl rfl ⟨rfl, rfl⟩
  | data segment =>
    have hread := streamMinerRead_extends ctx segment
    exact .of_live hread.apiKey hread.reservedCost hread.quiet
  | ended => exact .of_gone (releases_streamFinish ctx false)
  | clientClose => exact .of_gone (releases_streamFinish ctx true)
  | keepalive =>
    refine .of_live rfl rfl ?_
    change Quiet (if ctx.sseForwarded then [] else _)
    split <;> exact ⟨rfl, rfl⟩

theorem proxy_reaction (ctx : ProxyCtx) (event : Event) :
    Reaction (.proxy ctx) event (react (.proxy ctx) event).1 (react (.proxy ctx) event).2 := by
  cases event with
  | setup outcome => exact .of_live rfl rfl ⟨rfl, rfl⟩
  | connected => exact .of_live rfl rfl ⟨rfl, rfl⟩
  | data segment =>
    have hread := proxyRead_extends ctx segment
    simp only [react, proxyReact]
    split
    · refine .of_gone ?_
      rw [releases_append, hread.quiet.1, releases_proxyFinish, hread.apiKey, hread.reservedCost]
      rfl
    · exact .of_live hread.apiKey hread.reservedCost hread.quiet
  | ended =>
    simp only [react, proxyReact]
    split
    · rename_i hstarted
      refine .of_gone ?_
      rw [releases_proxyFinish, leaks, hstarted]
      rfl
    · rename_i hstarted
      refine .of_gone ?_
      -- the context is deleted with whatever it had reserved
      by_cases hcost : 0 < ctx.reservedCost
      · rw [if_pos (by simp [leaks, hstarted, hcost])]
        rfl
      · rw [dues_of_not_pos (.proxy ctx) hcost, ite_self]
        rfl
  | clientClose => exact .of_gone (releases_proxyFinish ctx true)
  | keepalive => exact .of_live rfl rfl ⟨rfl, rfl⟩

theorem reaction (ctx : Context) (event : Event) :
    Reaction ctx event (react ctx event).1 (react ctx event).2 := by
  cases ctx with
  | arrived a cost =>
    rcases react_arrived_cases a cost event with ⟨outcome, rfl⟩ | hwait
    · exact setUp_reaction a cost outcome
    · rw [hwait]
      exact .of_live rfl rfl ⟨rfl, rfl⟩
  | gateway ctx => exact stream_reaction ctx event
  | proxy ctx => exact proxy_reaction ctx event

theorem leaks_ends {ctx : Context} (h : leaks ctx event = true) :
    (react ctx event).1 = none ∧ 0 < ctx.reserved := by
  unfold leaks at h
  split at h
  · rename_i r cost outcome
    rw [Bool.and_eq_true, decide_eq_true_eq, decide_eq_true_eq] at h
    refine ⟨?_, h.2⟩
    cases outcome with
    | connecting => exact absurd rfl h.1
    | noBufferevent => rfl
    | noConnection => rfl
  · rename_i ctx
    rw [Bool.and_eq_true, Bool.not_eq_true', decide_eq_true_eq] at h
    refine ⟨?_, h.2⟩
    simp [react, proxyReact, h.1]
  · cases h

end TKNC.Gateway
