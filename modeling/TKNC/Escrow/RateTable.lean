import TKNC.Escrow.Billing
import TKNC.Lib.EventMachine

/-!
# RateTable — token rates in memory and in the store

Every rate is written to the map in memory and to the store.  `GetTokensPerTknc` fills the map from
the store only if the map is empty.  After a restart, a rate that is stored before the first query
therefore hides the other rates of the store until the next restart.
-/

namespace TKNC.Escrow.RateTable

open Lib.EventMachine Lib.Numeral List

def assign (rates : List (Bytes × Int)) (wallet : Bytes) (rate : Int) : List (Bytes × Int) :=
  (wallet, rate) :: rates.filter (fun entry => decide (entry.1 ≠ wallet))

def writeRate (rates : TokenRates) (wallet : Bytes) (rate : Int) : TokenRates where
  cache := assign rates.cache wallet rate
  stored := assign rates.stored wallet rate

def storeTokenRate (rates : TokenRates) (minerWallet : Bytes) (tokensPerTknc : Int) : TokenRates :=
  if tokensPerTknc ≤ 0 then rates else writeRate rates minerWallet tokensPerTknc

def setminerprice (rates : TokenRates) (minerWallet : Bytes) (tokensPerTknc : Int) :
    Except String TokenRates :=
  if tokensPerTknc ≤ 0 then .error "tokens_per_tknc must be positive"
  else .ok (writeRate rates minerWallet tokensPerTknc)

def queried (rates : TokenRates) : TokenRates :=
  { rates with cache := rates.loaded }

def restarted (rates : TokenRates) : TokenRates :=
  { rates with cache := [] }

/-! ## Runs -/

inductive Event where
  | storeTokenRate (minerWallet : Bytes) (tokensPerTknc : Int)
  | setminerprice (minerWallet : Bytes) (tokensPerTknc : Int)
  | getTokensPerTknc (minerWallet : Bytes)
  | restart

structure RateLog extends TokenRates where
  last : Bytes → Int

def RateLog.initial : RateLog where
  cache := []
  stored := []
  last := fun _ => 0

def Event.written : Event → Option (Bytes × Int)
  | .storeTokenRate wallet rate | .setminerprice wallet rate =>
      if rate ≤ 0 then none else some (wallet, rate)
  | .getTokensPerTknc _ | .restart => none

def tables (rates : TokenRates) : Event → TokenRates
  | .storeTokenRate wallet rate => storeTokenRate rates wallet rate
  | .setminerprice wallet rate =>
      match setminerprice rates wallet rate with
      | .ok rates' => rates'
      | .error _ => rates
  | .getTokensPerTknc _ => queried rates
  | .restart => restarted rates

def RateLog.step (s : RateLog) (event : Event) : RateLog where
  toTokenRates := tables s.toTokenRates event
  last :=
    match event.written with
    | some (wallet, rate) => Function.update s.last wallet rate
    | none => s.last

/-- Every query of a wallet would return its last positive rate. -/
def RateLog.Remembers (s : RateLog) : Prop :=
  ∀ wallet, wallet ≠ [] → getTokensPerTknc s.toTokenRates wallet = s.last wallet

/-- A rate that is written to an empty map finds no rate of another wallet in the store. -/
def RateLog.Warm (s : RateLog) (event : Event) : Prop :=
  ∀ wallet rate, event.written = some (wallet, rate) → s.cache = [] →
    ∀ entry ∈ s.stored, entry.1 = wallet ∨ entry.1 = []

/-! ## What an event does -/

theorem tables_cases (rates : TokenRates) (event : Event) :
    (∃ wallet rate, event.written = some (wallet, rate) ∧ 0 < rate ∧
        tables rates event = writeRate rates wallet rate) ∨
      (event.written = none ∧
        (tables rates event = rates ∨ tables rates event = queried rates ∨
          tables rates event = restarted rates)) := by
  cases event with
  | storeTokenRate wallet rate =>
    by_cases hrate : rate ≤ 0
    · exact Or.inr ⟨if_pos hrate, Or.inl (if_pos hrate)⟩
    · exact Or.inl ⟨wallet, rate, if_neg hrate, Int.not_le.1 hrate, if_neg hrate⟩
  | setminerprice wallet rate =>
    by_cases hrate : rate ≤ 0
    · refine Or.inr ⟨if_pos hrate, Or.inl ?_⟩
      simp only [tables, setminerprice, if_pos hrate]
    · refine Or.inl ⟨wallet, rate, if_neg hrate, Int.not_le.1 hrate, ?_⟩
      simp only [tables, setminerprice, if_neg hrate]
  | getTokensPerTknc wallet => exact Or.inr ⟨rfl, Or.inr (Or.inl rfl)⟩
  | restart => exact Or.inr ⟨rfl, Or.inr (Or.inr rfl)⟩

theorem lookup_assign (rates : List (Bytes × Int)) (wallet : Bytes) (rate : Int) (w : Bytes) :
    (assign rates wallet rate).lookup w = if w = wallet then some rate else rates.lookup w := by
  by_cases hw : w = wallet
  · rw [assign, hw, lookup_cons_self, if_pos rfl]
  · have hfilter : (rates.filter (fun entry => decide (entry.1 ≠ wallet))).lookup w =
        rates.lookup w := by
      induction rates with
      | nil => rfl
      | cons entry rates ih =>
        by_cases hentry : entry.1 = wallet
        · have hne : (w == entry.1) = false := beq_false_of_ne (hentry ▸ hw)
          rw [filter_cons_of_neg (by simpa using hentry), ih, lookup_cons, hne]
        · rw [filter_cons_of_pos (by simpa using hentry), lookup_cons,
            lookup_cons, ih]
    rw [assign, lookup_cons, beq_false_of_ne hw, if_neg hw]
    exact hfilter

variable {wallet : Bytes}

theorem forall_mem_assign {rates : List (Bytes × Int)} {rate : Int} (hrate : 0 < rate)
    (h : ∀ entry ∈ rates, 0 < entry.2) :
    ∀ entry ∈ assign rates wallet rate, 0 < entry.2 :=
  forall_mem_cons.2 ⟨hrate, fun entry hmem => h entry (mem_of_mem_filter hmem)⟩

/-- The store has the last rates, and no others. -/
structure RateLog.Stored (s : RateLog) : Prop where
  last : ∀ wallet, (s.stored.lookup wallet).getD 0 = s.last wallet
  positive : ∀ entry ∈ s.stored, 0 < entry.2

theorem RateLog.Stored.initial : RateLog.initial.Stored where
  last _ := rfl
  positive _ hmem := by cases hmem

theorem RateLog.Stored.step (s : RateLog) (event : Event) (h : s.Stored) :
    (s.step event).Stored := by
  rcases tables_cases s.toTokenRates event with ⟨wallet, rate, hwritten, hrate, htables⟩ |
    ⟨hwritten, htables⟩
  · refine ⟨?_, ?_⟩
    · intro w
      simp only [RateLog.step, htables, hwritten, writeRate, lookup_assign]
      by_cases hw : w = wallet
      · rw [if_pos hw, hw, Function.update_self, Option.getD_some]
      · rw [if_neg hw, Function.update_of_ne hw, h.last]
    · simp only [RateLog.step, htables, writeRate]
      exact forall_mem_assign hrate h.positive
  · have hstored : (tables s.toTokenRates event).stored = s.stored := by
      rcases htables with heq | heq | heq <;> rw [heq] <;> rfl
    refine ⟨?_, ?_⟩
    · intro w
      simp only [RateLog.step, hstored, hwritten]
      exact h.last w
    · simp only [RateLog.step, hstored]
      exact h.positive

theorem RateLog.Stored.loaded {s : RateLog} (h : s.Stored) (hempty : s.cache = []) :
    s.loaded = s.stored := by
  rw [TokenRates.loaded, if_pos hempty]
  exact filter_eq_self.2 fun entry hmem => by simpa using h.positive entry hmem

/-! ## Queries -/

variable {s : RateLog}

theorem getTokensPerTknc_of_ne_nil (rates : TokenRates) (h : wallet ≠ []) :
    getTokensPerTknc rates wallet = (rates.loaded.lookup wallet).getD 0 :=
  if_pos h

theorem loaded_queried (rates : TokenRates) : (queried rates).loaded = rates.loaded := by
  by_cases hempty : rates.cache = []
  · have hload : rates.loaded = rates.stored.filter (fun r => decide (r.2 > 0)) := if_pos hempty
    by_cases hnone : rates.loaded = []
    · rw [TokenRates.loaded, queried, if_pos hnone, ← hload]
    · rw [TokenRates.loaded, queried, if_neg hnone]
  · have hload : rates.loaded = rates.cache := if_neg hempty
    rw [TokenRates.loaded, queried, hload, if_neg hempty]

theorem remembers_of_not_written {event : Event} (hstored : s.Stored) (h : s.Remembers)
    (hwritten : event.written = none)
    (htables : tables s.toTokenRates event = s.toTokenRates ∨
      tables s.toTokenRates event = queried s.toTokenRates ∨
      tables s.toTokenRates event = restarted s.toTokenRates) : (s.step event).Remembers := by
  intro w hw
  have hlast : (s.step event).last w = s.last w := by
    simp only [RateLog.step, hwritten]
  rw [hlast]
  simp only [RateLog.step]
  rcases htables with heq | heq | heq
  · rw [heq]
    exact h w hw
  · rw [heq, getTokensPerTknc_of_ne_nil _ hw, loaded_queried, ← getTokensPerTknc_of_ne_nil _ hw]
    exact h w hw
  · -- the store is loaded whole
    have hload : (restarted s.toTokenRates).loaded = s.stored :=
      RateLog.Stored.loaded (s := ⟨restarted s.toTokenRates, s.last⟩)
        ⟨hstored.last, hstored.positive⟩ rfl
    rw [heq, getTokensPerTknc_of_ne_nil _ hw, hload]
    exact hstored.last w

theorem loaded_writeRate (rates : TokenRates) (wallet : Bytes) (rate : Int) :
    (writeRate rates wallet rate).loaded = assign rates.cache wallet rate :=
  if_neg (cons_ne_nil _ _)

theorem remembers_written_iff {event : Event} {rate : Int}
    (hwritten : event.written = some (wallet, rate))
    (htables : tables s.toTokenRates event = writeRate s.toTokenRates wallet rate) :
    (s.step event).Remembers ↔
      ∀ w, w ≠ [] → w ≠ wallet → (s.cache.lookup w).getD 0 = s.last w := by
  have hanswer {w : Bytes} (hw : w ≠ []) :
      getTokensPerTknc (s.step event).toTokenRates w = (s.step event).last w ↔
        (w ≠ wallet → (s.cache.lookup w).getD 0 = s.last w) := by
    simp only [RateLog.step, htables, hwritten]
    rw [getTokensPerTknc_of_ne_nil _ hw, loaded_writeRate, lookup_assign]
    by_cases hsame : w = wallet
    · rw [if_pos hsame, hsame, Function.update_self]
      exact iff_of_true rfl fun hne => absurd rfl hne
    · rw [if_neg hsame, Function.update_of_ne hsame]
      exact ⟨fun h _ => h, fun h => h hsame⟩
  constructor
  · intro h w hw
    exact (hanswer hw).1 (h w hw)
  · intro h w hw
    exact (hanswer hw).2 (h w hw)

theorem RateLog.Stored.last_eq_zero_iff (h : s.Stored) (wallet : Bytes) :
    s.last wallet = 0 ↔ ∀ entry ∈ s.stored, entry.1 ≠ wallet := by
  rw [← h.last]
  constructor
  · intro hzero entry hmem hkey
    cases hlookup : s.stored.lookup wallet with
    | none =>
      have hnone := lookup_eq_none_iff.1 hlookup entry hmem
      simp [hkey] at hnone
    | some rate =>
      obtain ⟨l₁, l₂, heq, _⟩ := lookup_eq_some_iff.1 hlookup
      have hmem' : (wallet, rate) ∈ s.stored := by
        rw [heq]
        exact mem_append_right _ mem_cons_self
      have hpos := h.positive _ hmem'
      rw [hlookup, Option.getD_some] at hzero
      exact absurd hzero (Int.ne_of_gt hpos)
  · intro hnone
    have hlookup : s.stored.lookup wallet = none :=
      lookup_eq_none_iff.2 fun entry hmem => bne_iff_ne.2 (Ne.symm (hnone entry hmem))
    rw [hlookup]
    rfl

theorem remembers_step_iff (event : Event) (hstored : s.Stored) (h : s.Remembers) :
    (s.step event).Remembers ↔ s.Warm event := by
  rcases tables_cases s.toTokenRates event with ⟨wallet, rate, hwritten, _, htables⟩ |
    ⟨hwritten, htables⟩
  · rw [remembers_written_iff hwritten htables]
    by_cases hempty : s.cache = []
    · -- the map was empty, so nothing else is answered from now on
      have hwarm : s.Warm event ↔ ∀ entry ∈ s.stored, entry.1 = wallet ∨ entry.1 = [] := by
        constructor
        · intro hw
          exact hw wallet rate hwritten hempty
        · intro hw wallet' rate' hwritten' _
          cases hwritten.symm.trans hwritten'
          exact hw
      rw [hwarm, hempty]
      constructor
      · intro hzero entry hmem
        by_contra hother
        rw [not_or] at hother
        have hlast := (hzero entry.1 hother.2 hother.1).symm
        exact (hstored.last_eq_zero_iff entry.1).1 hlast entry hmem rfl
      · intro honly w hw hne
        refine ((hstored.last_eq_zero_iff w).2 ?_).symm
        intro entry hmem hkey
        rcases honly entry hmem with hsame | hnil
        · exact hne (hkey.symm.trans hsame)
        · exact hw (hkey.symm.trans hnil)
    · have hload : s.loaded = s.cache := if_neg hempty
      refine iff_of_true ?_ fun _ _ _ hnil => absurd hnil hempty
      intro w hw _
      rw [← h w hw, getTokensPerTknc_of_ne_nil _ hw, hload]
  · refine iff_of_true (remembers_of_not_written hstored h hwritten htables) ?_
    intro wallet rate hsome
    cases hwritten.symm.trans hsome

/-- Rates are remembered throughout a run exactly if no rate is written to an empty map while the
store has another one. -/
theorem remembers_iff_warm (events : List Event) :
    Always RateLog.step RateLog.Remembers RateLog.initial events ↔
      GoodRun RateLog.step RateLog.Warm RateLog.initial events := by
  have hinitial : RateLog.initial.Remembers := by
    intro w hw
    exact getTokensPerTknc_of_ne_nil _ hw
  exact always_iff_goodRun RateLog.Stored.step
    (fun _ event hstored hremembers => remembers_step_iff event hstored hremembers)
    RateLog.Stored.initial hinitial

def forgetfulRun : List Event :=
  [.storeTokenRate (ascii "tkn1a") 5, .restart, .storeTokenRate (ascii "tkn1b") 7]

/-- The first wallet has no rate any more. -/
theorem forgetfulRun_forgets :
    (run RateLog.step RateLog.initial forgetfulRun).last (ascii "tkn1a") = 5 ∧
      getTokensPerTknc (run RateLog.step RateLog.initial forgetfulRun).toTokenRates
        (ascii "tkn1a") = 0 ∧
      ¬ Always RateLog.step RateLog.Remembers RateLog.initial forgetfulRun := by
  have hlast : (run RateLog.step RateLog.initial forgetfulRun).last (ascii "tkn1a") = 5 := by
    decide
  have hget : getTokensPerTknc (run RateLog.step RateLog.initial forgetfulRun).toTokenRates
      (ascii "tkn1a") = 0 := by
    decide
  refine ⟨hlast, hget, ?_⟩
  intro h
  have hsame := h.last (ascii "tkn1a") (by decide)
  rw [hlast, hget] at hsame
  exact absurd hsame (by decide)

end TKNC.Escrow.RateTable
