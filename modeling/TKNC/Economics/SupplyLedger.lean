import Mathlib.Algebra.BigOperators.Ring.Finset
import TKNC.Economics.EmissionSchedule
import TKNC.Lib.Fallible

/-!
# SupplyLedger — created supply against accounted supply

The consensus code lets miners create the subsidies of the heights `1, …, h`; the supply accounting
reports `getTKNCTotalEmitted h` as emitted at `h`.  The documented formula
`reward(h) = remaining(h-1) / DIVISOR` would make the two agree.  The code takes the share of
`remaining(h)` instead, so it creates strictly less than it accounts for at every height above zero.
The supply cap and the shape of the subsidy are not affected.
-/

namespace TKNC.Economics

open Consensus Lib.MachineInt Lib.Decay Lib.Fallible List

theorem subsidiesUpTo_eq {h : Nat} (hint : Fits 32 (h : Int)) :
    subsidiesUpTo h = some ((range h).map fun (i : Nat) => (subsidyAt (i + 1) : Int)) := by
  apply mapM_eq_map
  intro i hi
  rw [mem_range] at hi
  rw [fits32_iff] at hint
  have hfits : Fits 32 ((i + 1 : Nat) : Int) := by
    rw [fits32_iff]
    omega
  exact getTKNCBlockSubsidy_eq (h := i + 1) (by omega) hfits

/-- The subsidies telescope from the supply left after the *first* height, up to the last height
of the emission period. -/
theorem sum_subsidyAt_add (h : Nat) :
    ((range h).map fun i => subsidyAt (i + 1)).sum + remainingAfter (min (h + 1) 2365200) =
      remainingAfter 1 := by
  induction h with
  | zero =>
    simp
  | succ h ih =>
    rw [range_succ, map_append, sum_append, map_singleton, sum_singleton]
    by_cases hlt : h + 1 < 2365200
    · -- inside the period the new subsidy is the next step of the telescope
      have hmin : min (h + 1) 2365200 = h + 1 := by omega
      have hmin' : min (h + 1 + 1) 2365200 = h + 1 + 1 := by omega
      have hstep := div_add_decay 300000 (remainingAfter (h + 1))
      have hnext : decay 300000 (remainingAfter (h + 1)) = remainingAfter (h + 1 + 1) :=
        iterate_remainingAfter 1 (h + 1)
      rw [hmin] at ih
      rw [hmin', subsidyAt, if_pos hlt]
      omega
    · -- afterwards nothing is paid and the telescope stands still
      have hmin : min (h + 1) 2365200 = 2365200 := by omega
      have hmin' : min (h + 1 + 1) 2365200 = 2365200 := by omega
      rw [hmin] at ih
      rw [hmin', subsidyAt, if_neg hlt]
      omega

theorem sum_subsidiesUpTo (h : Nat) :
    ((range h).map fun (i : Nat) => (subsidyAt (i + 1) : Int)).sum =
      (remainingAfter 1 : Int) - (remainingAfter (min (h + 1) 2365200) : Int) := by
  have hnat := sum_subsidyAt_add h
  have hcast : ((range h).map fun (i : Nat) => (subsidyAt (i + 1) : Int)).sum =
      (((range h).map fun i => subsidyAt (i + 1)).sum : Nat) := by
    rw [Nat.cast_list_sum, map_map]
    rfl
  rw [hcast]
  omega

theorem remainingAfter_one : remainingAfter 1 = 99999666666666667 := by
  have h := iterate_remainingAfter 1 0
  rw [remainingAfter_zero] at h
  rw [← h]
  rfl

/-! ## Conservation -/

/-- At height `h` the subsidies created so far are exactly the amount accounted as emitted, and the
reported remaining supply is what they leave of the total. -/
def EmissionConserved (h : Nat) : Prop :=
  ∃ subsidies : List Int,
    subsidiesUpTo h = some subsidies ∧
      getTKNCTotalEmitted h = some subsidies.sum ∧
      getTKNCRemainingSupply h = some (tkncTotalSupply * coin - subsidies.sum)

theorem emissionConserved_zero : EmissionConserved 0 :=
  ⟨[], rfl, rfl, rfl⟩

/-- Above height zero the accounting is ahead of the subsidies: the first share is never paid. -/
theorem sum_lt_emitted {h : Nat} (hpos : 1 ≤ h) (hint : Fits 32 (h : Int)) {emitted : Int}
    (hemitted : getTKNCTotalEmitted h = some emitted) :
    ((range h).map fun (i : Nat) => (subsidyAt (i + 1) : Int)).sum < emitted := by
  rw [sum_subsidiesUpTo, remainingAfter_one]
  by_cases hlt : h < 2365200
  · rw [getTKNCTotalEmitted_inside hpos hlt, Option.some.injEq] at hemitted
    have hmin : min (h + 1) 2365200 = h + 1 := by omega
    have hstep := div_add_decay 300000 (remainingAfter h)
    have hnext : decay 300000 (remainingAfter h) = remainingAfter (h + 1) :=
      iterate_remainingAfter 1 h
    -- What height `h` pays is a share of at most `remainingAfter 1`, less than the first share.
    have hshare : remainingAfter h / 300000 ≤ remainingAfter 1 / 300000 :=
      Nat.div_le_div_right (remainingAfter_antitone hpos)
    rw [remainingAfter_one] at hshare
    rw [hmin, ← hemitted]
    unfold supplySat
    omega
  · rw [getTKNCTotalEmitted_after (by omega) hint, Option.some.injEq] at hemitted
    rw [← hemitted]
    unfold supplySat
    omega

/-- The subsidies match the accounting at height zero and at no other height. -/
theorem emissionConserved_iff {h : Nat} (hint : Fits 32 (h : Int)) :
    EmissionConserved h ↔ h = 0 := by
  constructor
  · rintro ⟨subsidies, hsubs, hemitted, _⟩
    by_contra hne
    rw [subsidiesUpTo_eq hint, Option.some.injEq] at hsubs
    have hlt := sum_lt_emitted (by omega) hint hemitted
    rw [hsubs] at hlt
    exact lt_irrefl _ hlt
  · rintro rfl
    exact emissionConserved_zero

theorem not_emissionConserved_million :
    Fits 32 ((1000000 : Nat) : Int) ∧ ¬EmissionConserved 1000000 := by
  have hint : Fits 32 ((1000000 : Nat) : Int) := by decide
  exact ⟨hint, fun h => absurd ((emissionConserved_iff hint).1 h) (by decide)⟩

/-- At height one 333332222222 units are created and 333333333333 are accounted for. -/
theorem not_emissionConserved_one :
    Fits 32 ((1 : Nat) : Int) ∧ subsidiesUpTo 1 = some [333332222222] ∧
      getTKNCTotalEmitted (1 : Nat) = some 333333333333 ∧ ¬ EmissionConserved 1 := by
  have hint : Fits 32 ((1 : Nat) : Int) := by decide
  have hsubs : subsidiesUpTo 1 = some [333332222222] := by
    rw [subsidiesUpTo_eq hint]
    simp [subsidyAt, remainingAfter_one]
  have hemitted : getTKNCTotalEmitted (1 : Nat) = some 333333333333 := by
    rw [getTKNCTotalEmitted_inside le_rfl (by norm_num), remainingAfter_one]
    rfl
  refine ⟨hint, hsubs, hemitted, ?_⟩
  rintro ⟨subsidies, hsubs', hemitted', _⟩
  rw [hsubs, Option.some.injEq] at hsubs'
  rw [hemitted, ← hsubs'] at hemitted'
  simp at hemitted'

/-! ## The supply cap -/

theorem getTKNCRemainingSupply_of_emitted {h emitted : Int}
    (hemitted : getTKNCTotalEmitted h = some emitted) (hlo : 0 ≤ emitted)
    (hhi : emitted ≤ (supplySat : Int)) :
    getTKNCRemainingSupply h = some ((supplySat : Int) - emitted) := by
  have hsub : checkedSub 64 (supplySat : Int) emitted = some ((supplySat : Int) - emitted) := by
    apply checkedSub_of_fits
    rw [fits64_iff]
    unfold supplySat at *
    omega
  have hite : (if (supplySat : Int) - emitted > 0 then (supplySat : Int) - emitted else 0) =
      (supplySat : Int) - emitted := by
    split <;> omega
  simp only [getTKNCRemainingSupply, hemitted, supply_product, hsub, hite, Option.bind_eq_bind,
    Option.bind_some]

/-- The emitted amount is defined at every height and lies between zero and the total supply. -/
theorem getTKNCTotalEmitted_bounds {h : Int} (hint : Fits 32 h) :
    ∃ emitted, getTKNCTotalEmitted h = some emitted ∧ 0 ≤ emitted ∧ emitted ≤ (supplySat : Int) := by
  by_cases hpos : h ≤ 0
  · exact ⟨0, by simp [getTKNCTotalEmitted, hpos], le_rfl, Int.natCast_nonneg _⟩
  · lift h to Nat using by omega
    by_cases hlt : h < 2365200
    · have hle := remainingAfter_le h
      exact ⟨_, getTKNCTotalEmitted_inside (by omega) hlt, by omega, by omega⟩
    · exact ⟨_, getTKNCTotalEmitted_after (by omega) hint, Int.natCast_nonneg _, le_rfl⟩

theorem getTKNCBlockSubsidy_bounds {h : Int} (hint : Fits 32 h) :
    ∃ subsidy, getTKNCBlockSubsidy h = some subsidy ∧ 0 ≤ subsidy ∧ subsidy ≤ maxMoney := by
  by_cases hpos : h ≤ 0
  · exact ⟨0, by simp [getTKNCBlockSubsidy, hpos], le_rfl, by decide⟩
  · lift h to Nat using by omega
    have hle := subsidyAt_le h
    refine ⟨_, getTKNCBlockSubsidy_eq (by omega) hint, Int.natCast_nonneg _, ?_⟩
    rw [maxMoney_eq]
    unfold supplySat at hle
    omega

/-- The supply cap, with the absence of overflow at every height and the shape of the subsidy. -/
theorem supply_cap :
    (∀ h : Int, Fits 32 h →
        (∃ subsidy, getTKNCBlockSubsidy h = some subsidy ∧ 0 ≤ subsidy ∧ subsidy ≤ maxMoney) ∧
          (∃ emitted, getTKNCTotalEmitted h = some emitted) ∧
          (∃ remaining, getTKNCRemainingSupply h = some remaining)) ∧
      (∀ h : Nat, Fits 32 (h : Int) →
        ∃ subsidies, subsidiesUpTo h = some subsidies ∧ subsidies.sum ≤ maxMoney) ∧
      (∀ h : Int, 1 ≤ h → h < 9 * 262800 →
        ∃ subsidy, getTKNCBlockSubsidy h = some subsidy ∧ 0 < subsidy) ∧
      (∀ h : Int, 9 * 262800 ≤ h → Fits 32 h → getTKNCBlockSubsidy h = some 0) ∧
      (∀ h h' : Int, 1 ≤ h → h ≤ h' → Fits 32 h' →
        ∃ subsidy subsidy', getTKNCBlockSubsidy h = some subsidy ∧
          getTKNCBlockSubsidy h' = some subsidy' ∧ subsidy' ≤ subsidy) := by
  refine ⟨?_, ?_, ?_, ?_, ?_⟩
  · -- values at every height, the negative ones included
    intro h hint
    rcases getTKNCTotalEmitted_bounds hint with ⟨emitted, hemitted, hlo, hhi⟩
    exact ⟨getTKNCBlockSubsidy_bounds hint, ⟨emitted, hemitted⟩,
      ⟨_, getTKNCRemainingSupply_of_emitted hemitted hlo hhi⟩⟩
  · -- the sum of all subsidies is what the telescope leaves of the first remainder
    intro h hint
    refine ⟨_, subsidiesUpTo_eq hint, ?_⟩
    rw [sum_subsidiesUpTo, remainingAfter_one, maxMoney_eq]
    omega
  · intro h hpos hlt
    lift h to Nat using by omega
    have hint : Fits 32 (h : Int) := by
      rw [fits32_iff]
      omega
    have hsub := subsidyAt_pos (h := h) (by omega)
    exact ⟨_, getTKNCBlockSubsidy_eq (by omega) hint, by omega⟩
  · intro h hge hint
    lift h to Nat using by omega
    rw [getTKNCBlockSubsidy_eq (by omega) hint, subsidyAt, if_neg (by omega)]
    rfl
  · intro h h' hpos hle hint
    lift h to Nat using by omega
    lift h' to Nat using by omega
    have hint' : Fits 32 (h : Int) := by
      rw [fits32_iff] at *
      omega
    have hanti : subsidyAt h' ≤ subsidyAt h := subsidyAt_antitone (by omega)
    exact ⟨_, _, getTKNCBlockSubsidy_eq (by omega) hint', getTKNCBlockSubsidy_eq (by omega) hint,
      by omega⟩

end TKNC.Economics
