import Mathlib.Logic.Function.Basic
import TKNC.Lib.FixedWindow
import TKNC.Lib.Numeral
import TKNC.Lib.Transducer

/-!
# RateLimit — how many requests of a peer are let through

`CheckP2PRateLimit` counts the requests of every peer in windows of 60 seconds.  Every so many calls
it erases the entries whose window began more than 120 seconds ago.  A peer without an entry starts
from a window at time zero, which has ended whenever an entry was old enough to be erased, so no
decision depends on the cleanup.
-/

namespace TKNC.Net

open Lib Lib.FixedWindow Lib.Numeral Option

abbrev P2PRateLimitEntry := Window

def rateLimitWindowSec : Int := 60

/-- A peer without an entry gets one by its first request. -/
abbrev IpCounts := Bytes → Option P2PRateLimitEntry

structure RateLimiter where
  totalRequests : Int
  ipCounts : IpCounts
  cleanupCounter : Int

structure RateCall where
  peerId : Bytes
  now : Int
  deriving DecidableEq

def cleanup (now : Int) (ipCounts : IpCounts) : IpCounts := fun peer =>
  (ipCounts peer).filter fun entry => ¬now - entry.start > rateLimitWindowSec * 2

/-- What follows the cleanup: the entry of the peer is counted up and compared with the limit. -/
def countRequest (maxRequests : Int) (ipCounts : IpCounts) (call : RateCall) : IpCounts × Bool :=
  let entry := ((ipCounts call.peerId).getD ⟨0, 0⟩).hit rateLimitWindowSec call.now
  (Function.update ipCounts call.peerId (some entry), !decide (entry.count > maxRequests))

theorem countRequest_self (maxRequests : Int) (ipCounts : IpCounts) (call : RateCall) :
    (countRequest maxRequests ipCounts call).1 call.peerId =
      some (((ipCounts call.peerId).getD ⟨0, 0⟩).hit rateLimitWindowSec call.now) :=
  Function.update_self ..

variable {call : RateCall}

theorem countRequest_other (maxRequests : Int) (ipCounts : IpCounts) {peer : Bytes}
    (h : peer ≠ call.peerId) :
    (countRequest maxRequests ipCounts call).1 peer = ipCounts peer :=
  Function.update_of_ne h ..

def checkP2PRateLimit (maxRequests cleanupThreshold : Int) (s : RateLimiter) (call : RateCall) :
    RateLimiter × Bool :=
  let cleans := decide (s.cleanupCounter + 1 ≥ cleanupThreshold)
  let r := countRequest maxRequests
    (if cleans then cleanup call.now s.ipCounts else s.ipCounts) call
  (⟨s.totalRequests + 1, r.1, if cleans then 0 else s.cleanupCounter + 1⟩, r.2)

/-! ## Sequences of calls -/

abbrev RateLog := List (RateCall × Bool)

def rateLogFrom (maxRequests cleanupThreshold : Int) (s : RateLimiter) (calls : List RateCall) :
    RateLog :=
  (Transducer.run (fun s call =>
    ((checkP2PRateLimit maxRequests cleanupThreshold s call).1,
      [(call, (checkP2PRateLimit maxRequests cleanupThreshold s call).2)])) s calls).2

def rateLog (maxRequests cleanupThreshold : Int) (calls : List RateCall) : RateLog :=
  rateLogFrom maxRequests cleanupThreshold ⟨0, fun _ => none, 0⟩ calls

def countLog (maxRequests : Int) (ipCounts : IpCounts) (calls : List RateCall) : RateLog :=
  (Transducer.run (fun ipCounts call =>
    ((countRequest maxRequests ipCounts call).1,
      [(call, (countRequest maxRequests ipCounts call).2)]))
    ipCounts calls).2

def rateLogWithoutCleanup (maxRequests : Int) (calls : List RateCall) : RateLog :=
  countLog maxRequests (fun _ => none) calls

def acceptances (log : RateLog) (peerId : Bytes) (first last : Int) : Nat :=
  log.countP fun r =>
    r.2 && decide (r.1.peerId = peerId) && (decide (first ≤ r.1.now) && decide (r.1.now ≤ last))

theorem rateLogFrom_cons (maxRequests cleanupThreshold : Int) (s : RateLimiter) (call : RateCall)
    (calls : List RateCall) :
    rateLogFrom maxRequests cleanupThreshold s (call :: calls) =
      (call, (checkP2PRateLimit maxRequests cleanupThreshold s call).2) ::
        rateLogFrom maxRequests cleanupThreshold
          (checkP2PRateLimit maxRequests cleanupThreshold s call).1 calls := rfl

theorem countLog_cons (maxRequests : Int) (ipCounts : IpCounts) (call : RateCall)
    (calls : List RateCall) :
    countLog maxRequests ipCounts (call :: calls) =
      (call, (countRequest maxRequests ipCounts call).2) ::
        countLog maxRequests (countRequest maxRequests ipCounts call).1 calls := rfl

theorem acceptances_cons (r : RateCall × Bool) (log : RateLog) (peerId : Bytes)
    (first last : Int) :
    acceptances (r :: log) peerId first last =
      (if r.2 ∧ r.1.peerId = peerId ∧ first ≤ r.1.now ∧ r.1.now ≤ last then 1 else 0) +
        acceptances log peerId first last := by
  rw [acceptances, List.countP_cons, Nat.add_comm, acceptances]
  simp [and_assoc]

def timesOf (peerId : Bytes) (calls : List RateCall) : List Int :=
  (calls.filter fun call => decide (call.peerId = peerId)).map (·.now)

theorem timesOf_cons_self (call : RateCall) (calls : List RateCall) :
    timesOf call.peerId (call :: calls) = call.now :: timesOf call.peerId calls := by
  rw [timesOf, List.filter_cons_of_pos (by exact decide_eq_true rfl)]
  rfl

theorem timesOf_cons_other {peerId : Bytes} (h : peerId ≠ call.peerId) (calls : List RateCall) :
    timesOf peerId (call :: calls) = timesOf peerId calls := by
  rw [timesOf, List.filter_cons_of_neg (by simpa using Ne.symm h)]
  rfl

/-! ## The cleanup -/

/-- The table with cleanups beside the one without: what was erased belongs to a window that has
ended, and so has the window at time zero. -/
structure Cleaned (now : Int) (ipCounts full : IpCounts) : Prop where
  start_nonneg : ∀ peer entry, ipCounts peer = some entry → 0 ≤ entry.start
  erased : ∀ peer, ipCounts peer = full peer ∨
    (ipCounts peer = none ∧ rateLimitWindowSec < now ∧
      ∃ entry, full peer = some entry ∧ rateLimitWindowSec < now - entry.start)

namespace Cleaned

variable {now : Int} {ipCounts full : IpCounts}

theorem later {now' : Int} (h : Cleaned now ipCounts full) (hnow : now ≤ now') :
    Cleaned now' ipCounts full where
  start_nonneg := h.start_nonneg
  erased peer := by
    rcases h.erased peer with hsame | ⟨hnone, hpast, entry, hentry, hended⟩
    · exact Or.inl hsame
    · exact Or.inr ⟨hnone, by omega, entry, hentry, by omega⟩

theorem cleanup (h : Cleaned now ipCounts full) :
    Cleaned now (Net.cleanup now ipCounts) full where
  start_nonneg peer entry hentry :=
    h.start_nonneg peer entry (eq_some_of_filter_eq_some hentry)
  erased peer := by
    rcases h.erased peer with hsame | ⟨hnone, hpast⟩
    · cases hentry : ipCounts peer with
      | none => exact Or.inl (by rw [Net.cleanup, hentry, ← hsame, hentry]; rfl)
      | some entry =>
        by_cases hold : now - entry.start > rateLimitWindowSec * 2
        · have hstart := h.start_nonneg peer entry hentry
          refine Or.inr ⟨?_, ?_, entry, hsame ▸ hentry, ?_⟩
          · rw [Net.cleanup, hentry, filter_some, if_neg (by
              rw [decide_eq_true_iff]
              exact not_not_intro hold)]
          · rw [rateLimitWindowSec] at hold ⊢
            omega
          · rw [rateLimitWindowSec] at hold ⊢
            omega
        · refine Or.inl ?_
          rw [Net.cleanup, hentry, filter_some, if_pos (decide_eq_true hold), ← hsame,
            hentry]
    · exact Or.inr ⟨by rw [Net.cleanup, hnone]; rfl, hpast⟩

theorem hit_eq (h : Cleaned now ipCounts full) (peer : Bytes) :
    ((ipCounts peer).getD ⟨0, 0⟩).hit rateLimitWindowSec now =
      ((full peer).getD ⟨0, 0⟩).hit rateLimitWindowSec now := by
  rcases h.erased peer with hsame | ⟨hnone, hpast, entry, hentry, hended⟩
  · rw [hsame]
  · rw [hnone, hentry, getD_none, getD_some, Window.hit_of_lt (by dsimp only; omega),
      Window.hit_of_lt (by omega)]

theorem start_hit_nonneg {entry : P2PRateLimitEntry} (h : 0 ≤ entry.start) (now : Int) :
    0 ≤ (entry.hit rateLimitWindowSec now).start := by
  by_cases hnow : now ≤ entry.start + rateLimitWindowSec
  · rw [Window.hit_of_le hnow]
    exact h
  · rw [Window.hit_of_lt (by omega)]
    rw [rateLimitWindowSec] at hnow
    dsimp only
    omega

theorem countRequest (maxRequests : Int) {call : RateCall} (h : Cleaned call.now ipCounts full) :
    (Net.countRequest maxRequests ipCounts call).2 = (Net.countRequest maxRequests full call).2 ∧
      Cleaned call.now (Net.countRequest maxRequests ipCounts call).1
        (Net.countRequest maxRequests full call).1 := by
  have hhit := h.hit_eq call.peerId
  refine ⟨?_, ?_, ?_⟩
  · rw [Net.countRequest, Net.countRequest, hhit]
  · intro peer entry hentry
    by_cases hpeer : peer = call.peerId
    · rw [hpeer, countRequest_self, some.injEq] at hentry
      rw [← hentry]
      refine start_hit_nonneg ?_ _
      cases hold : ipCounts call.peerId with
      | none => exact Int.le_refl 0
      | some old => exact h.start_nonneg _ old hold
    · rw [countRequest_other _ _ hpeer] at hentry
      exact h.start_nonneg peer entry hentry
  · intro peer
    by_cases hpeer : peer = call.peerId
    · rw [hpeer, countRequest_self, countRequest_self, hhit]
      exact Or.inl rfl
    · rw [countRequest_other _ _ hpeer, countRequest_other _ _ hpeer]
      exact h.erased peer

end Cleaned

theorem Cleaned.check {s : RateLimiter} {full : IpCounts} (maxRequests cleanupThreshold : Int)
    (h : Cleaned call.now s.ipCounts full) :
    (checkP2PRateLimit maxRequests cleanupThreshold s call).2 =
        (Net.countRequest maxRequests full call).2 ∧
      Cleaned call.now (checkP2PRateLimit maxRequests cleanupThreshold s call).1.ipCounts
        (Net.countRequest maxRequests full call).1 := by
  rw [checkP2PRateLimit]
  apply Cleaned.countRequest
  split
  · exact h.cleanup
  · exact h

theorem rateLog_from_eq (maxRequests cleanupThreshold : Int) {calls : List RateCall} :
    ∀ {now : Int} {s : RateLimiter} {full : IpCounts}, Cleaned now s.ipCounts full →
      (∀ call ∈ calls, now ≤ call.now) → calls.Pairwise (·.now ≤ ·.now) →
        rateLogFrom maxRequests cleanupThreshold s calls = countLog maxRequests full calls := by
  -- The tables stay related from call to call, since the times do not fall.
  induction calls with
  | nil =>
    intro now s full h hnow hsorted
    rfl
  | cons call calls ih =>
    intro now s full h hnow hsorted
    obtain ⟨hfirst, hrest⟩ := List.pairwise_cons.1 hsorted
    obtain ⟨hsame, hnext⟩ :=
      (h.later (hnow call List.mem_cons_self)).check maxRequests cleanupThreshold
    rw [rateLogFrom_cons, countLog_cons, hsame, ih hnext hfirst hrest]

/-! ## The bound -/

theorem acceptances_countLog (maxRequests : Int) (peerId : Bytes) (first last : Int)
    (calls : List RateCall) : ∀ ipCounts : IpCounts,
      acceptances (countLog maxRequests ipCounts calls) peerId first last =
        within first last (accepted rateLimitWindowSec maxRequests
          ((ipCounts peerId).getD ⟨0, 0⟩) (timesOf peerId calls)) := by
  induction calls with
  | nil =>
    intro ipCounts
    rfl
  | cons call calls ih =>
    intro ipCounts
    rw [countLog_cons, acceptances_cons, ih]
    by_cases hpeer : peerId = call.peerId
    · subst hpeer
      rw [countRequest_self, getD_some, timesOf_cons_self, accepted, within_append]
      rw [countRequest]
      by_cases hcount : (((ipCounts call.peerId).getD ⟨0, 0⟩).hit rateLimitWindowSec
          call.now).count > maxRequests
      · simp [hcount, within]
      · simp [hcount, within]
    · rw [countRequest_other _ _ hpeer, timesOf_cons_other hpeer]
      simp [Ne.symm hpeer]

theorem timesOf_sorted {calls : List RateCall} (h : calls.Pairwise (·.now ≤ ·.now))
    (peerId : Bytes) : (timesOf peerId calls).Pairwise (· ≤ ·) :=
  List.pairwise_map.2 (h.filter _)

/-- At most twice the limit of a peer's requests pass in 60 seconds, and every decision is the one
that is made without the cleanup. -/
theorem rateLimit_bounded_and_cleanup_neutral (maxRequests cleanupThreshold : Int)
    (hlimit : 1 ≤ maxRequests) (calls : List RateCall)
    (hsorted : calls.Pairwise (·.now ≤ ·.now)) :
    (∀ (peerId : Bytes) (first : Int),
      (acceptances (rateLog maxRequests cleanupThreshold calls) peerId first
        (first + rateLimitWindowSec) : Int) ≤ 2 * maxRequests) ∧
    rateLog maxRequests cleanupThreshold calls = rateLogWithoutCleanup maxRequests calls := by
  have hneutral :
      rateLog maxRequests cleanupThreshold calls = rateLogWithoutCleanup maxRequests calls := by
    cases calls with
    | nil => rfl
    | cons call calls =>
      -- both tables are empty before the first call
      have hstart : Cleaned call.now (fun _ => none) fun _ => none :=
        ⟨fun _ _ h => (Option.some_ne_none _ h.symm).elim, fun _ => Or.inl rfl⟩
      refine rateLog_from_eq maxRequests cleanupThreshold hstart ?_ hsorted
      intro later hlater
      rcases List.mem_cons.1 hlater with rfl | hlater
      · exact Int.le_refl _
      · exact (List.pairwise_cons.1 hsorted).1 later hlater
  refine ⟨?_, hneutral⟩
  intro peerId first
  rw [hneutral, rateLogWithoutCleanup, acceptances_countLog]
  exact within_accepted_le (timesOf_sorted hsorted peerId) (by decide) hlimit first (Int.le_refl 0)

/-- Two windows meet between two requests of one second: four pass where the limit is two. -/
theorem rateLimit_where_two_windows_meet :
    acceptances (rateLog 2 1 ([60, 60, 61, 61, 61].map (⟨ascii "a", ·⟩))) (ascii "a") 1
        (1 + rateLimitWindowSec) = 4 ∧
      (acceptances (rateLog 2 1 ([60, 60, 61, 61, 61].map (⟨ascii "a", ·⟩))) (ascii "a") 1
        (1 + rateLimitWindowSec) : Int) ≤ 2 * 2 :=
  ⟨by decide, (rateLimit_bounded_and_cleanup_neutral 2 1 (by decide) _ (by decide)).1 _ _⟩

end TKNC.Net
