import Mathlib.Algebra.Order.BigOperators.Group.List
import TKNC.Gateway.Requests
import TKNC.Lib.Session

/-!
# Release — reserved costs of all requests of a node

The requests of both machines share the table of reserved costs.  The result says in which runs
every reservation is released exactly once, and with it that a key without requests in flight has
nothing reserved: those without a path of the proxy that deletes a context by hand.
-/

namespace TKNC.Gateway.Release

open Consensus
open Escrow (Database)
open Escrow.KeyGate (fundedGateway someKey)
open Escrow.Reservation (PendingCosts reserveEscrowCost releaseEscrowCost getPendingCost)
open Lib Lib.EventMachine Lib.MachineInt Lib.Numeral Lib.Session List

structure Request where
  apiKey : Bytes
  reserved : Int
  session : Session Context Action

structure System where
  pending : PendingCosts
  requests : List Request

inductive SystemEvent where
  | arrive (gw : Escrow.KeyGate.Gateway) (db : Database) (a : Arrival)
  | react (i : Nat) (event : Event)

def applyReleases (pending : PendingCosts) (released : List (Bytes × Int)) : PendingCosts :=
  released.foldl (fun pending r => releaseEscrowCost pending r.1 r.2) pending

def arrivedRequest (a : Arrival) (cost : Int) : Request :=
  ⟨a.apiKey, cost, ⟨some (.arrived a cost), []⟩⟩

def Request.step (r : Request) (event : Event) : Request :=
  { r with session := Lib.Session.step react r.session event }

def step (s : System) : SystemEvent → System
  | .arrive gw db a =>
      { pending := reserveEscrowCost s.pending a.apiKey (a.reservation gw db)
        requests := s.requests ++ [arrivedRequest a (a.reservation gw db)] }
  | .react i event =>
      match s.requests[i]? with
      | none => s
      | some r =>
          { pending := applyReleases s.pending (releases (emitted react r.session event))
            requests := s.requests.set i (r.step event) }

def start : System :=
  { pending := fun _ => 0
    requests := [] }

def Request.inFlight (r : Request) : Bool :=
  r.session.ctx.isSome

def Request.reservation (r : Request) : List (Bytes × Int) :=
  if 0 < r.reserved then [(r.apiKey, r.reserved)] else []

/-- Nothing is released before the end, and the reservation once at the end. -/
def Request.ReleasedOnce (r : Request) : Prop :=
  releases r.session.log = if r.inFlight then [] else r.reservation

/-- A key without requests in flight has nothing reserved. -/
def NothingPending (s : System) : Prop :=
  ∀ apiKey, (∀ r ∈ s.requests, r.apiKey = apiKey → r.inFlight = false) →
    getPendingCost s.pending apiKey = 0

def ReleasesOnce (s : System) : Prop :=
  (∀ r ∈ s.requests, r.ReleasedOnce) ∧ NothingPending s

/-- The step does not delete a context with a reservation by hand. -/
def NoLeak (s : System) : SystemEvent → Prop
  | .arrive .. => True
  | .react i event =>
      ∀ r ctx, s.requests[i]? = some r → r.session.ctx = some ctx → leaks ctx event = false

/-! ## One request -/

/-- The context of a request agrees with what was reserved, and the log has at most its release. -/
structure Request.Sound (r : Request) : Prop where
  reserved : r.reserved = 0 ∨ (r.apiKey ≠ [] ∧ 0 < r.reserved)
  session : Holds
    (fun ctx log => ctx.apiKey = r.apiKey ∧ ctx.reserved = r.reserved ∧ releases log = [])
    (fun log => releases log = [] ∨ releases log = r.reservation) r.session

variable {r : Request}

theorem Request.Sound.dues_eq (h : r.Sound) {ctx : Context} (hkey : ctx.apiKey = r.apiKey)
    (hreserved : ctx.reserved = r.reserved) :
    ctx.dues = r.reservation := by
  rw [Context.dues, releases_releaseReserved, hkey, hreserved, reservation]
  rcases h.reserved with hzero | ⟨hne, hpos⟩
  · rw [if_neg fun hdue => (ne_of_gt hdue.1) hzero, if_neg fun hpos => (ne_of_gt hpos) hzero]
  · rw [if_pos ⟨hpos, hne⟩, if_pos hpos]

theorem Request.Sound.step (h : r.Sound) (event : Event) : (r.step event).Sound where
  reserved := h.reserved
  session := by
    refine Holds.step ?_ h.session event
    rintro ctx log event ⟨hkey, hreserved, hlog⟩
    have hreaction := reaction ctx event
    cases hctx : (react ctx event).1 with
    | some c =>
      rcases hreaction.live c hctx with ⟨hkey', hreserved', hquiet⟩
      refine ⟨hkey'.trans hkey, hreserved'.trans hreserved, ?_⟩
      rw [releases_append, hlog, hquiet.1]
      rfl
    | none =>
      change releases _ = [] ∨ releases _ = _
      rw [releases_append, hlog, hreaction.gone hctx, nil_append, h.dues_eq hkey hreserved]
      split
      · exact Or.inl rfl
      · exact Or.inr rfl

theorem sound_arrivedRequest (gw : Escrow.KeyGate.Gateway) (db : Database) (a : Arrival) :
    (arrivedRequest a (a.reservation gw db)).Sound where
  reserved := by
    rcases a.reservation_cases gw db with hzero | ⟨hkey, hcoin⟩
    · exact Or.inl hzero
    · exact Or.inr ⟨hkey, lt_of_lt_of_le (by decide) hcoin⟩
  session := ⟨rfl, rfl, rfl⟩

theorem releasedOnce_step_iff (h : r.Sound) (hr : r.ReleasedOnce) (event : Event) :
    (r.step event).ReleasedOnce ↔ ∀ ctx, r.session.ctx = some ctx → leaks ctx event = false := by
  have hsession := h.session
  rcases r with ⟨apiKey, reserved, ⟨ctx?, log⟩⟩
  cases ctx? with
  | none =>
    refine iff_of_true hr ?_
    rintro _ ⟨⟩
  | some ctx =>
    rcases hsession with ⟨hkey, hreserved, hlog⟩
    have hreaction := reaction ctx event
    have hdues := h.dues_eq hkey hreserved
    simp only [Option.some.injEq, forall_eq']
    cases hctx : (react ctx event).1 with
    | some c =>
      refine iff_of_true ?_ ?_
      · simp only [Request.ReleasedOnce, Request.inFlight, Request.step, Lib.Session.step, hctx,
          releases_append, Option.isSome_some, if_true]
        rw [hlog, (hreaction.live c hctx).2.2.1]
        rfl
      · by_contra hleaks
        cases hctx.symm.trans (leaks_ends (Bool.not_eq_false _ ▸ hleaks)).1
    | none =>
      simp only [Request.ReleasedOnce, Request.inFlight, Request.step, Lib.Session.step, hctx,
        releases_append, Option.isSome_none, Bool.false_eq_true, if_false]
      rw [hlog, hreaction.gone hctx, nil_append, hdues]
      cases hleaks : leaks ctx event with
      | false => exact iff_of_true rfl rfl
      | true =>
        refine iff_of_false ?_ nofun
        have hpos : 0 < reserved := (leaks_ends hleaks).2.trans_eq hreserved
        simp [Request.reservation, hpos]

/-! ## The table -/

def Request.due (apiKey : Bytes) (r : Request) : Int :=
  if r.apiKey = apiKey ∧ releases r.session.log = [] then r.reserved else 0

def owed (apiKey : Bytes) (requests : List Request) : Int :=
  (requests.map (Request.due apiKey)).sum

/-- An entry of the table against the reservations that are not released.  A sum beyond the register
makes the entry too small, never too large. -/
structure Covers (entry owed : Int) : Prop where
  fits : -9223372036854775808 ≤ entry
  le : entry ≤ owed
  nonneg : owed = 0 → 0 ≤ entry

theorem Covers.reserve {entry owed cost : Int} (h : Covers entry owed) (howed : 0 ≤ owed)
    (hcost : 0 < cost) : Covers (i64 (entry + cost)) (owed + cost) := by
  have hfits := h.fits
  have hle := h.le
  have hwrap : i64 (entry + cost) ≤ entry + cost := by
    rw [i64_eq]
    omega
  refine ⟨(fits64_iff.1 (fits_i64 _)).1, ?_, ?_⟩
  · omega
  · omega

theorem Covers.release {entry owed cost : Int} (h : Covers entry owed) (hle : cost ≤ owed) :
    Covers (if entry ≥ cost then entry - cost else 0) (owed - cost) := by
  have hfits := h.fits
  have hentry := h.le
  constructor <;> split <;> omega

open Request

theorem due_nonneg (h : r.Sound) (apiKey : Bytes) : 0 ≤ r.due apiKey := by
  unfold due
  split
  · rcases h.reserved with hzero | ⟨_, hpos⟩
    · exact hzero.ge
    · exact hpos.le
  · exact le_refl 0

theorem owed_nonneg {requests : List Request} (h : ∀ r ∈ requests, r.Sound) (apiKey : Bytes) :
    0 ≤ owed apiKey requests := by
  apply sum_nonneg
  intro due hdue
  rcases mem_map.1 hdue with ⟨r, hr, rfl⟩
  exact due_nonneg (h r hr) apiKey

structure Inv (s : System) : Prop where
  sound : ∀ r ∈ s.requests, r.Sound
  covers : ∀ apiKey, Covers (s.pending apiKey) (owed apiKey s.requests)

theorem inv_start : Inv start where
  sound := forall_mem_nil _
  covers := fun _ => ⟨(by decide : (-9223372036854775808 : Int) ≤ 0), le_refl 0, fun _ => le_refl 0⟩

theorem exists_set_split {α : Type*} {l : List α} {i : Nat} {a : α} (h : l[i]? = some a) :
    ∃ l₁ l₂, l = l₁ ++ a :: l₂ ∧ ∀ b, l.set i b = l₁ ++ b :: l₂ := by
  rcases List.getElem?_eq_some_iff.1 h with ⟨hi, rfl⟩
  have hset (b : α) : l.set i b = l.take i ++ b :: l.drop (i + 1) := by
    rw [List.set_eq_take_append_cons_drop, if_pos hi]
  refine ⟨l.take i, l.drop (i + 1), ?_, hset⟩
  rw [← hset, List.set_getElem_self]

variable {s : System}

theorem Inv.arrive (h : Inv s) (gw : Escrow.KeyGate.Gateway) (db : Database) (a : Arrival) :
    Inv (step s (.arrive gw db a)) := by
  have hsound := sound_arrivedRequest gw db a
  constructor
  · intro r hr
    rcases mem_append.1 hr with hr | hr
    · exact h.sound r hr
    · rw [mem_singleton.1 hr]
      exact hsound
  · intro apiKey
    have hcovers := h.covers apiKey
    have howed := owed_nonneg h.sound apiKey
    have hsum : owed apiKey (step s (.arrive gw db a)).requests =
        owed apiKey s.requests + if a.apiKey = apiKey then a.reservation gw db else 0 := by
      simp [step, owed, due, arrivedRequest, releases]
    rw [hsum]
    simp only [step, reserveEscrowCost]
    rcases hsound.reserved with hzero | ⟨hkey, hpos⟩
    · -- nothing is reserved
      change a.reservation gw db = 0 at hzero
      simpa [hzero] using hcovers
    · change 0 < a.reservation gw db at hpos
      change a.apiKey ≠ [] at hkey
      rw [if_neg (not_or.2 ⟨hkey, not_le.2 hpos⟩)]
      by_cases hsame : apiKey = a.apiKey
      · subst hsame
        rw [if_pos rfl, if_pos rfl]
        exact hcovers.reserve howed hpos
      · rw [if_neg hsame, if_neg (Ne.symm hsame), add_zero]
        exact hcovers

theorem Request.Sound.emitted_cases (h : r.Sound) (event : Event) :
    releases (emitted Gateway.react r.session event) = [] ∨
      (releases r.session.log = [] ∧ 0 < r.reserved ∧
        releases (emitted Gateway.react r.session event) = [(r.apiKey, r.reserved)]) := by
  have hsession := h.session
  rcases r with ⟨apiKey, reserved, ⟨ctx?, log⟩⟩
  cases ctx? with
  | none => exact Or.inl rfl
  | some ctx =>
    rcases hsession with ⟨hkey, hreserved, hlog⟩
    have hreaction := reaction ctx event
    cases hctx : (Gateway.react ctx event).1 with
    | some c => exact Or.inl (hreaction.live c hctx).2.2.1
    | none =>
      have hgone := hreaction.gone hctx
      rw [h.dues_eq hkey hreserved, reservation] at hgone
      split at hgone
      · exact Or.inl hgone
      split at hgone
      · rename_i hpos
        exact Or.inr ⟨hlog, hpos, hgone⟩
      · exact Or.inl hgone

theorem due_step (apiKey : Bytes) (r : Request) (event : Event) :
    (r.step event).due apiKey =
      if releases (emitted Gateway.react r.session event) = [] then r.due apiKey else 0 := by
  have hlog : releases (r.step event).session.log =
      releases r.session.log ++ releases (emitted Gateway.react r.session event) := by
    rw [← releases_append, ← log_step]
    rfl
  simp only [due, hlog, append_eq_nil_iff]
  by_cases hquiet : releases (emitted Gateway.react r.session event) = []
  · simp only [hquiet, and_true, if_true]
    rfl
  · rw [if_neg hquiet, if_neg fun hdue => hquiet hdue.2.2]

theorem owed_split (apiKey : Bytes) (before after : List Request) (r : Request) :
    owed apiKey (before ++ r :: after) = owed apiKey (before ++ after) + r.due apiKey := by
  simp only [owed, map_append, map_cons, sum_append, sum_cons]
  ring

theorem Request.Sound.apiKey_ne (h : r.Sound) (hpos : 0 < r.reserved) :
    r.apiKey ≠ [] := by
  rcases h.reserved with hzero | ⟨hkey, _⟩
  · exact absurd hzero hpos.ne'
  · exact hkey

theorem Request.Sound.covers_step (h : r.Sound) (event : Event) {pending : PendingCosts}
    {apiKey : Bytes} {others : Int} (hothers : 0 ≤ others)
    (hcovers : Covers (pending apiKey) (others + r.due apiKey)) :
    Covers (applyReleases pending (releases (emitted Gateway.react r.session event)) apiKey)
      (others + (r.step event).due apiKey) := by
  rw [due_step]
  rcases h.emitted_cases event with hquiet | ⟨hlog, hpos, hreleased⟩
  · rw [hquiet, if_pos rfl]
    exact hcovers
  · -- the reservation goes out of the entry of its own key, the other entries stay
    have hkey := h.apiKey_ne hpos
    rw [hreleased, if_neg (cons_ne_nil _ _), add_zero]
    simp only [applyReleases, foldl_cons, foldl_nil, releaseEscrowCost,
      if_neg (not_or.2 ⟨hkey, not_le.2 hpos⟩)]
    by_cases hsame : apiKey = r.apiKey
    · have hdue : r.due apiKey = r.reserved := if_pos ⟨hsame.symm, hlog⟩
      rw [hdue] at hcovers
      have hrest := hcovers.release (le_add_of_nonneg_left hothers)
      rw [add_sub_cancel_right] at hrest
      rw [if_pos hsame, ← hsame]
      exact hrest
    · have hdue : r.due apiKey = 0 := if_neg fun hdue => hsame hdue.1.symm
      rw [hdue, add_zero] at hcovers
      rw [if_neg hsame]
      exact hcovers

theorem Inv.react (h : Inv s) (i : Nat) (event : Event) :
    Inv (step s (.react i event)) := by
  cases hfind : s.requests[i]? with
  | none => simpa only [step, hfind] using h
  | some r =>
    rcases exists_set_split hfind with ⟨before, after, hsplit, hset⟩
    have hsound := h.sound
    rw [hsplit, forall_mem_append, forall_mem_cons] at hsound
    rcases hsound with ⟨hbefore, hr, hafter⟩
    simp only [step, hfind, hset]
    constructor
    · rw [forall_mem_append, forall_mem_cons]
      exact ⟨hbefore, hr.step event, hafter⟩
    · intro apiKey
      have hcovers := h.covers apiKey
      have hothers := owed_nonneg (forall_mem_append.2 ⟨hbefore, hafter⟩) apiKey
      rw [hsplit, owed_split] at hcovers
      rw [owed_split]
      exact hr.covers_step event hothers hcovers

/-- Every step of the node keeps the invariant, leaks included. -/
theorem Inv.step (h : Inv s) (event : SystemEvent) : Inv (step s event) := by
  cases event with
  | arrive gw db a => exact h.arrive gw db a
  | react i event => exact h.react i event

/-! ## Runs -/

theorem owed_eq_zero (h : Inv s) (hreleased : ∀ r ∈ s.requests, r.ReleasedOnce) {apiKey : Bytes}
    (hgone : ∀ r ∈ s.requests, r.apiKey = apiKey → r.inFlight = false) :
    owed apiKey s.requests = 0 := by
  apply sum_eq_zero
  intro due hdue
  rcases mem_map.1 hdue with ⟨r, hr, rfl⟩
  unfold due
  split
  · rename_i hdue
    -- an empty log means that nothing was reserved
    have hlog := hreleased r hr
    rw [Request.ReleasedOnce, hgone r hr hdue.1, hdue.2] at hlog
    rcases (h.sound r hr).reserved with hzero | ⟨_, hpos⟩
    · exact hzero
    · simp [reservation, hpos] at hlog
  · rfl

/-- With the invariant, the property of the requests gives the one of the table. -/
theorem releasesOnce_iff (h : Inv s) :
    ReleasesOnce s ↔ ∀ r ∈ s.requests, r.ReleasedOnce := by
  refine ⟨And.left, fun hreleased => ⟨hreleased, ?_⟩⟩
  intro apiKey hgone
  have hcovers := h.covers apiKey
  have howed := owed_eq_zero h hreleased hgone
  rw [howed] at hcovers
  exact le_antisymm hcovers.le (hcovers.nonneg rfl)

theorem releasesOnce_step_iff (h : Inv s) (hs : ReleasesOnce s) (event : SystemEvent) :
    ReleasesOnce (step s event) ↔ NoLeak s event := by
  rw [releasesOnce_iff (h.step event)]
  cases event with
  | arrive gw db a =>
    refine iff_of_true ?_ trivial
    intro r hr
    rcases mem_append.1 hr with hr | hr
    · exact hs.1 r hr
    · rw [mem_singleton.1 hr]
      rfl
  | react i event =>
    cases hfind : s.requests[i]? with
    | none =>
      simp only [step, NoLeak, hfind]
      refine iff_of_true hs.1 ?_
      rintro _ _ ⟨⟩
    | some r =>
      -- the other requests are as before, so the property is a matter of this one
      rcases exists_set_split hfind with ⟨before, after, hsplit, hset⟩
      have hreleased := hs.1
      have hsound := h.sound
      rw [hsplit, forall_mem_append, forall_mem_cons] at hreleased hsound
      have hone := releasedOnce_step_iff hsound.2.1 hreleased.2.1 event
      simp only [step, NoLeak, hfind, hset, forall_mem_append, forall_mem_cons, hone,
        Option.some.injEq]
      constructor
      · rintro ⟨_, hleak, _⟩ _ ctx rfl hctx
        exact hleak ctx hctx
      · intro hleak
        exact ⟨hreleased.1, fun ctx => hleak r ctx rfl, hreleased.2.2⟩

theorem always_releasesOnce_iff (events : List SystemEvent) :
    Always step ReleasesOnce start events ↔ GoodRun step NoLeak start events := by
  have hstart : ReleasesOnce start := (releasesOnce_iff inv_start).2 (List.forall_mem_nil _)
  have hinv (s : System) (event : SystemEvent) (h : Inv s) : Inv (step s event) := h.step event
  have hkeep (s : System) (event : SystemEvent) (h : Inv s) (hs : ReleasesOnce s) :
      ReleasesOnce (step s event) ↔ NoLeak s event :=
    releasesOnce_step_iff h hs event
  exact always_iff_goodRun hinv hkeep inv_start hstart

def unansweredRun : List SystemEvent :=
  [.arrive fundedGateway OrderedMap.empty
      (.proxy ⟨ascii "POST / HTTP/1.1\r\n\r\n", someKey, ascii "hello"⟩),
    .react 0 (.setup .connecting), .react 0 .connected, .react 0 .ended]

theorem not_releasesOnce_unanswered :
    (∀ r ∈ (run step start unansweredRun).requests, r.inFlight = false) ∧
      getPendingCost (run step start unansweredRun).pending someKey = coin ∧
      ¬ ReleasesOnce (run step start unansweredRun) := by
  have hgone : ∀ r ∈ (run step start unansweredRun).requests, r.inFlight = false := by
    decide +kernel
  have hpending : getPendingCost (run step start unansweredRun).pending someKey = coin := by
    decide +kernel
  refine ⟨hgone, hpending, fun hreleased => ?_⟩
  have hzero := hreleased.2 someKey fun r hr _ => hgone r hr
  exact absurd (hpending.symm.trans hzero) (by decide)

end TKNC.Gateway.Release
