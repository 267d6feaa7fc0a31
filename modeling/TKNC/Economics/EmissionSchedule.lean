import TKNC.Economics.Emission
import TKNC.Lib.Decay

/-!
# EmissionSchedule — what the emission code computes

The abstract schedule is `remainingAfter n`, the total supply after `n` rounds of decay by the
emission divisor.  The checkpointed code of `Emission` is proved to compute it, without overflow
and without ever reaching its "reward rounds to zero" branches.

The subsidy at height `h` is computed from the supply left *after* height `h`, so the subsidies and
the emitted supply are two different telescopes of this schedule: the subsidies start one round late.
-/

namespace TKNC.Economics

open Consensus Lib.MachineInt Lib.Decay List Nat
open Option hiding map map_map

def supplySat : Nat := 100000000000000000

/-- The supply left after `n` rounds of decay. -/
@[irreducible]
def remainingAfter (n : Nat) : Nat :=
  (decay 300000)^[n] supplySat

theorem remainingAfter_zero : remainingAfter 0 = supplySat := by
  rw [remainingAfter]
  rfl

theorem iterate_remainingAfter (k m : Nat) :
    (decay 300000)^[k] (remainingAfter m) = remainingAfter (m + k) := by
  rw [remainingAfter, remainingAfter, ← Function.iterate_add_apply, add_comm]

theorem remainingAfter_antitone : Antitone remainingAfter := by
  intro m n hmn
  rw [remainingAfter, remainingAfter]
  exact iterate_decay_antitone 300000 supplySat hmn

theorem remainingAfter_le (n : Nat) : remainingAfter n ≤ supplySat := by
  rw [← remainingAfter_zero]
  exact remainingAfter_antitone (zero_le n)

variable {n : Nat}

/-- Sixteen halvings cover the emission period, so the supply stays far above the divisor. -/
theorem divisor_le_remainingAfter (hn : n ≤ 2400000) : 300000 ≤ remainingAfter n := by
  -- 16 * 150000 = 2400000 rounds, each block of 150000 = 300000 / 2 of them one halving
  have hhalved : supplySat ≤ 2 ^ 16 * remainingAfter (16 * 150000) := by
    rw [remainingAfter]
    exact le_two_pow_mul_iterate_decay supplySat 16 (by norm_num)
  have hmono : remainingAfter (16 * 150000) ≤ remainingAfter n :=
    remainingAfter_antitone (by omega)
  unfold supplySat at hhalved
  omega

theorem fits_of_le_supplySat (h : n ≤ supplySat) : Fits 64 (n : Int) := by
  unfold supplySat at h
  rw [fits64_iff]
  omega

/-! ## The decay loop and the lookup table -/

/-- While the reward does not round to zero, the loop of the source is iterated decay. -/
theorem decayLoop_eq {D : Nat} (hD : 2 ≤ D) :
    ∀ (n r : Nat), r ≤ supplySat → (∀ k < n, D ≤ (decay D)^[k] r) →
      decayLoop D n r = some (((decay D)^[n] r : Nat) : Int) := by
  intro n
  induction n with
  | zero =>
    intro r _ _
    rfl
  | succ n ih =>
    intro r hr hbig
    -- the stock is at least the divisor, so neither early exit of the loop is taken
    have hDr : D ≤ r := hbig 0 (succ_pos n)
    have hreward : 0 < r / D := div_pos hDr (by omega)
    have hleft : r / D < r := div_lt_self (by omega) hD
    have hdiv : checkedDiv 64 (r : Int) (D : Int) = some ((r / D : Nat) : Int) :=
      checkedDiv_natCast (by omega) (fits_of_le_supplySat hr)
    have hcast : (r : Int) - ((r / D : Nat) : Int) = ((decay D r : Nat) : Int) := by
      unfold decay
      omega
    have hdecay : decay D r ≤ supplySat := le_trans (decay_le D r) hr
    have hsub : checkedSub 64 (r : Int) ((r / D : Nat) : Int) = some ((decay D r : Nat) : Int) := by
      rw [← hcast]
      exact checkedSub_of_fits (hcast ▸ fits_of_le_supplySat hdecay)
    have hne : ((r / D : Nat) : Int) ≠ 0 := by
      omega
    have hpos : ¬ ((decay D r : Nat) : Int) ≤ 0 := by
      unfold decay
      omega
    -- round `k` after the first is round `k + 1` from the start
    have hrest := ih (decay D r) hdecay (fun k hk => hbig (k + 1) (by omega))
    simp only [decayLoop, hdiv, hsub, bind_eq_bind, bind_some, if_neg hne,
      if_neg hpos]
    rw [hrest, Function.iterate_succ_apply]

theorem decayLoop_remainingAfter {m n : Nat} (hmn : m + n ≤ 2400000) :
    decayLoop 300000 n (remainingAfter m) = some ((remainingAfter (m + n) : Nat) : Int) := by
  have h := decayLoop_eq (D := 300000) (by norm_num) n (remainingAfter m) (remainingAfter_le m)
    (fun k hk => by
      rw [iterate_remainingAfter k m]
      exact divisor_le_remainingAfter (by omega))
  rw [iterate_remainingAfter n m] at h
  exact h

def checkpointFrom (m i : Nat) : Int :=
  (remainingAfter (m + i * 1000) : Nat)

theorem cons_checkpointFrom (m k : Nat) :
    ((remainingAfter m : Nat) : Int) :: (range k).map (checkpointFrom (m + 1000)) =
      (range (k + 1)).map (checkpointFrom m) := by
  have hhead : ((remainingAfter m : Nat) : Int) = checkpointFrom m 0 := by
    simp [checkpointFrom]
  have htail : checkpointFrom (m + 1000) = checkpointFrom m ∘ succ := by
    funext i
    have hindex : m + 1000 + i * 1000 = m + i.succ * 1000 := by
      rw [succ_mul]
      omega
    rw [Function.comp_apply, checkpointFrom, checkpointFrom, hindex]
  rw [hhead, htail, range_succ_eq_map, map_cons, map_map]

theorem laterCheckpoints_eq (k m : Nat) (hk : m + k * 1000 ≤ 2400000) :
    laterCheckpoints 300000 k (remainingAfter m) =
      some ((range k).map (checkpointFrom (m + 1000))) := by
  induction k generalizing m with
  | zero =>
    rfl
  | succ k ih =>
    have hloop : decayLoop 300000 emissionLookupInterval (remainingAfter m) =
        some ((remainingAfter (m + 1000) : Nat) : Int) :=
      decayLoop_remainingAfter (n := 1000) (by omega)
    -- the table is never cut short by a zero entry
    have hbig := divisor_le_remainingAfter (n := m + 1000) (by omega)
    have hne : ((remainingAfter (m + 1000) : Nat) : Int) ≠ 0 := by
      omega
    have hrest := ih (m + 1000) (by omega)
    simp only [laterCheckpoints, hloop, hrest, bind_eq_bind, bind_some, if_neg hne]
    rw [cons_checkpointFrom]

theorem supply_product : checkedMul 64 tkncTotalSupply coin = some ((supplySat : Nat) : Int) := rfl

/-- The whole table: checkpoint `i` is the supply left after `1000 * i` blocks. -/
theorem emissionLookupTable_eq :
    emissionLookupTable = some ((range 2367).map (checkpointFrom 0)) := by
  have hnum : checkedAdd 32 (tkncTotalEmissionBlocks.tdiv emissionLookupInterval) 2 = some 2367 :=
    rfl
  have hcount : ((2367 : Int) - 1).toNat = 2366 := rfl
  have hlater := laterCheckpoints_eq 2366 0 (by norm_num)
  have hcons := cons_checkpointFrom 0 2366
  rw [remainingAfter_zero] at hlater hcons
  rw [emissionLookupTable, supply_product, bind_eq_bind, bind_some, hnum,
    bind_eq_bind, bind_some, tkncEmissionDivisor, hcount, hlater]
  rw [bind_some, hcons]

variable {h : Nat}

theorem computeRemainingO1_eq (hpos : 1 ≤ h) (hle : h ≤ 2365200) :
    computeRemainingO1 supplySat tkncEmissionDivisor h = some ((remainingAfter h : Nat) : Int) := by
  have hcap : ¬ (h : Int) > tkncTotalEmissionBlocks := by
    have htotal : tkncTotalEmissionBlocks = 2365200 := rfl
    omega
  have hidx : checkedDiv 32 (h : Int) (emissionLookupInterval : Int) = some ((h / 1000 : Nat) : Int) :=
    checkedDiv_natCast (b := 1000) (by norm_num) (by rw [fits32_iff]; omega)
  -- the index stays inside the table
  have hlen : ((range 2367).map (checkpointFrom 0)).length = 2367 := by
    rw [length_map, length_range]
  have hinside : ¬ ((h / 1000 : Nat) : Int) ≥ ((2367 : Nat) : Int) := by
    omega
  have hget : ((range 2367).map (checkpointFrom 0))[h / 1000]? =
      some ((remainingAfter (h / 1000 * 1000) : Nat) : Int) := by
    have hlt : h / 1000 < 2367 := by omega
    rw [getElem?_map, getElem?_range hlt, map_some, checkpointFrom, zero_add]
  have hbig := divisor_le_remainingAfter (n := h / 1000 * 1000) (by omega)
  have hne : ((remainingAfter (h / 1000 * 1000) : Nat) : Int) ≠ 0 := by
    omega
  have hstart : checkedMul 32 ((h / 1000 : Nat) : Int) (emissionLookupInterval : Int) =
      some (((h / 1000 * 1000 : Nat) : Int)) := by
    have hval : ((h / 1000 : Nat) : Int) * (emissionLookupInterval : Int) =
        ((h / 1000 * 1000 : Nat) : Int) := by
      push_cast [emissionLookupInterval]
      ring
    rw [checkedMul, hval]
    exact checked_of_fits (by rw [fits32_iff]; omega)
  have hcount : ((h : Int) - ((h / 1000 * 1000 : Nat) : Int)).toNat = h - h / 1000 * 1000 := by
    omega
  -- from the checkpoint below `h` the loop runs the rounds that are missing
  have hloop := decayLoop_remainingAfter (m := h / 1000 * 1000) (n := h - h / 1000 * 1000) (by omega)
  have hsum : h / 1000 * 1000 + (h - h / 1000 * 1000) = h := by
    omega
  have hdivisor : tkncEmissionDivisor = 300000 := rfl
  rw [hsum] at hloop
  have hnonpos : ¬ (h : Int) ≤ 0 := by
    omega
  simp only [computeRemainingO1, if_neg hnonpos, if_neg hcap, emissionLookupTable_eq, hidx, hlen,
    if_neg hinside, Int.toNat_natCast, hget, if_neg hne, hstart, hcount, hdivisor, hloop,
    bind_eq_bind, bind_some]

/-! ## The recurrence without checkpoints -/

def recurrenceStep (D r : Int) : Int :=
  if r / D = 0 then 0 else r - r / D

def emissionRounds (h : Int) : Nat :=
  (min (max h 0) tkncTotalEmissionBlocks).toNat

theorem recurrenceStep_remainingAfter (hn : n ≤ 2400000) :
    recurrenceStep tkncEmissionDivisor (remainingAfter n) = (remainingAfter (n + 1) : Nat) := by
  have hbig := divisor_le_remainingAfter hn
  have hnext : decay 300000 (remainingAfter n) = remainingAfter (n + 1) :=
    iterate_remainingAfter 1 n
  have hreward : (remainingAfter n : Int) / tkncEmissionDivisor ≠ 0 := by
    unfold tkncEmissionDivisor
    omega
  rw [recurrenceStep, if_neg hreward, ← hnext, decay, tkncEmissionDivisor]
  omega

theorem iterate_recurrenceStep (hn : n ≤ 2400000) :
    (recurrenceStep tkncEmissionDivisor)^[n] (tkncTotalSupply * coin) =
      (remainingAfter n : Nat) := by
  induction n with
  | zero =>
    rw [remainingAfter_zero]
    rfl
  | succ n ih =>
    rw [Function.iterate_succ_apply', ih (by omega)]
    exact recurrenceStep_remainingAfter (by omega)

theorem computeRemainingO1_above {h : Int} (hge : tkncTotalEmissionBlocks ≤ h) (S D : Int) :
    computeRemainingO1 S D h = computeRemainingO1 S D tkncTotalEmissionBlocks := by
  have htotal : tkncTotalEmissionBlocks = 2365200 := rfl
  have hclamp : (if h > tkncTotalEmissionBlocks then tkncTotalEmissionBlocks else h) =
      tkncTotalEmissionBlocks := by
    split <;> omega
  simp only [computeRemainingO1, hclamp, if_neg (by omega : ¬ h ≤ 0),
    if_neg (by omega : ¬ tkncTotalEmissionBlocks ≤ 0),
    if_neg (lt_irrefl tkncTotalEmissionBlocks)]

/-- The checkpointed code computes the recurrence at every height, and the checkpoint it starts from
is one of the table. -/
theorem computeRemainingO1_eq_recurrence (h : Int) :
    computeRemainingO1 (tkncTotalSupply * coin) tkncEmissionDivisor h =
        some ((recurrenceStep tkncEmissionDivisor)^[emissionRounds h] (tkncTotalSupply * coin)) ∧
      ∃ checkpoints, emissionLookupTable = some checkpoints ∧
        emissionRounds h / emissionLookupInterval < checkpoints.length := by
  have htotal : tkncTotalEmissionBlocks = 2365200 := rfl
  have hrounds : emissionRounds h ≤ 2365200 := by
    unfold emissionRounds
    omega
  have hindex : emissionRounds h / emissionLookupInterval < 2367 := by
    unfold emissionLookupInterval
    omega
  refine ⟨?_, _, emissionLookupTable_eq, by simpa using hindex⟩
  rw [iterate_recurrenceStep (by omega)]
  by_cases hpos : h ≤ 0
  · have hzero : emissionRounds h = 0 := by
      unfold emissionRounds
      omega
    rw [computeRemainingO1, if_pos hpos, hzero, remainingAfter_zero]
    rfl
  · -- above the period the height is clamped, and both sides stay at its end
    have hclamp : computeRemainingO1 (tkncTotalSupply * coin) tkncEmissionDivisor h =
        computeRemainingO1 supplySat tkncEmissionDivisor (emissionRounds h : Nat) := by
      by_cases hlong : tkncTotalEmissionBlocks ≤ h
      · have hend : ((emissionRounds h : Nat) : Int) = tkncTotalEmissionBlocks := by
          unfold emissionRounds
          omega
        rw [hend]
        exact computeRemainingO1_above hlong _ _
      · have hsame : ((emissionRounds h : Nat) : Int) = h := by
          unfold emissionRounds
          omega
        rw [hsame]
        rfl
    have hstart : 1 ≤ emissionRounds h := by
      unfold emissionRounds
      omega
    rw [hclamp]
    exact computeRemainingO1_eq hstart hrounds

/-- The year test of the source splits the heights at the end of the emission period. -/
theorem year_eq (hint : Fits 32 (h : Int)) :
    checkedDiv 64 (h : Int) tkncBlocksPerYear = some ((h / 262800 : Nat) : Int) := by
  rw [fits32_iff] at hint
  exact checkedDiv_natCast (b := 262800) (by norm_num) (by rw [fits64_iff]; omega)

theorem year_lt_iff :
    ¬ ((h / 262800 : Nat) : Int) ≥ tkncEmissionCompleteYear ↔ h < 2365200 := by
  unfold tkncEmissionCompleteYear
  omega

theorem getTKNCTotalEmitted_inside (hpos : 1 ≤ h) (hlt : h < 2365200) :
    getTKNCTotalEmitted h = some ((supplySat : Int) - (remainingAfter h : Nat)) := by
  have hnonpos : ¬ (h : Int) ≤ 0 := by
    omega
  have hint : Fits 32 (h : Int) := by
    rw [fits32_iff]
    omega
  have hcap : ¬ (h : Int) > tkncTotalEmissionBlocks := by
    have htotal : tkncTotalEmissionBlocks = 2365200 := rfl
    omega
  have hle := remainingAfter_le h
  have hsub : checkedSub 64 (supplySat : Int) (remainingAfter h : Nat) =
      some ((supplySat : Int) - (remainingAfter h : Nat)) := by
    apply checkedSub_of_fits
    rw [fits64_iff]
    unfold supplySat at *
    omega
  have hmax : ¬ (supplySat : Int) - (remainingAfter h : Nat) > (supplySat : Int) := by
    omega
  simp only [getTKNCTotalEmitted, if_neg hnonpos, year_eq hint, if_neg (year_lt_iff.2 hlt),
    if_neg hcap, supply_product, computeRemainingO1_eq hpos hlt.le, hsub, if_neg hmax,
    bind_eq_bind, bind_some]

theorem getTKNCTotalEmitted_after (hge : 2365200 ≤ h) (hint : Fits 32 (h : Int)) :
    getTKNCTotalEmitted h = some (supplySat : Int) := by
  have hnonpos : ¬ (h : Int) ≤ 0 := by
    omega
  have hyear : ((h / 262800 : Nat) : Int) ≥ tkncEmissionCompleteYear := by
    by_contra hyear
    exact absurd (year_lt_iff.1 hyear) (by omega)
  simp only [getTKNCTotalEmitted, if_neg hnonpos, year_eq hint, if_pos hyear, supply_product,
    bind_eq_bind, bind_some]

/-! ## The block subsidy -/

/-- The subsidy the code pays at height `h ≥ 1`: a share of the supply left after that height. -/
def subsidyAt (h : Nat) : Nat :=
  if h < 2365200 then remainingAfter h / 300000 else 0

theorem subsidyAt_le (h : Nat) : subsidyAt h ≤ supplySat := by
  unfold subsidyAt
  split
  · exact le_trans (div_le_self _ _) (remainingAfter_le h)
  · exact zero_le _

theorem subsidyAt_pos (hlt : h < 2365200) : 0 < subsidyAt h := by
  have hbig := divisor_le_remainingAfter (n := h) (by omega)
  rw [subsidyAt, if_pos hlt]
  exact div_pos hbig (by norm_num)

theorem subsidyAt_antitone : Antitone subsidyAt := by
  intro m n hmn
  unfold subsidyAt
  by_cases hn : n < 2365200
  · rw [if_pos hn, if_pos (lt_of_le_of_lt hmn hn)]
    exact Nat.div_le_div_right (remainingAfter_antitone hmn)
  · rw [if_neg hn]
    exact Nat.zero_le _

theorem getTKNCBlockSubsidy_eq (hpos : 1 ≤ h) (hint : Fits 32 (h : Int)) :
    getTKNCBlockSubsidy h = some (subsidyAt h : Int) := by
  have hnonpos : ¬ (h : Int) ≤ 0 := by
    omega
  by_cases hlt : h < 2365200
  · have hle := remainingAfter_le h
    have hbig := divisor_le_remainingAfter (n := h) (by omega)
    -- the supply minus the emitted amount is the schedule again
    have hdiff : (supplySat : Int) - ((supplySat : Int) - (remainingAfter h : Nat)) =
        (remainingAfter h : Nat) := by
      omega
    have hsub : checkedSub 64 (supplySat : Int) ((supplySat : Int) - (remainingAfter h : Nat)) =
        some ((remainingAfter h : Nat) : Int) := by
      rw [checkedSub, hdiff]
      exact checked_of_fits (fits_of_le_supplySat hle)
    have hleft : ¬ ((remainingAfter h : Nat) : Int) ≤ 0 := by
      omega
    have hdiv : checkedDiv 64 ((remainingAfter h : Nat) : Int) tkncEmissionDivisor =
        some ((subsidyAt h : Nat) : Int) := by
      rw [subsidyAt, if_pos hlt]
      exact checkedDiv_natCast (b := 300000) (by norm_num) (fits_of_le_supplySat hle)
    have hreward : ¬ (((subsidyAt h : Nat) : Int) = 0 ∧ ((remainingAfter h : Nat) : Int) > 0) := by
      have := subsidyAt_pos hlt
      omega
    simp only [getTKNCBlockSubsidy, if_neg hnonpos, year_eq hint, if_neg (year_lt_iff.2 hlt),
      getTKNCTotalEmitted_inside hpos hlt, supply_product, hsub, if_neg hleft, hdiv,
      if_neg hreward, bind_eq_bind, bind_some]
  · have hyear : ((h / 262800 : Nat) : Int) ≥ tkncEmissionCompleteYear := by
      by_contra hyear
      exact hlt (year_lt_iff.1 hyear)
    rw [subsidyAt, if_neg hlt]
    simp only [getTKNCBlockSubsidy, if_neg hnonpos, year_eq hint, if_pos hyear,
      bind_eq_bind, bind_some]
    rfl

end TKNC.Economics
