import TKNC.Net.EndpointRegistry

/-!
# EndpointSelection — which entry `SelectBest` finds

The scan for the best entry starts from the score −1, as if no entry could score less.  The quality
score goes down to −100, and the bonus for a recent sighting is used up after 300 seconds, when an
entry is still valid; so the registry can hold entries that may be selected and never are.
-/

namespace TKNC.Net

open Lib Lib.Numeral

inductive RegistryCall where
  | register (now : Int) (entry : EndpointEntry)
  | updateReachability (now : Int) (nodeId : Bytes) (direct punch tcp : Bool)
  | updateQualityScore (nodeId : Bytes) (delta : Int)

namespace EndpointRegistry

def apply (entries : EndpointRegistry) : RegistryCall → EndpointRegistry
  | .register now entry => entries.register now entry
  | .updateReachability now nodeId direct punch tcp =>
      entries.updateReachability now nodeId direct punch tcp
  | .updateQualityScore nodeId delta => entries.updateQualityScore nodeId delta

def reached (calls : List RegistryCall) : EndpointRegistry :=
  EventMachine.run apply [] calls

end EndpointRegistry

/-! ## Selection -/

namespace EndpointEntry

/-- The entry may be selected. -/
def Eligible (entry : EndpointEntry) (now : Int) (modelHint : Bytes) : Prop :=
  entry.isValid now 300 = true ∧ entry.selfReported = false ∧ entry.serves modelHint = true

def credit (entry : EndpointEntry) : Int :=
  300 + entry.qualityScore + (if entry.reachableDirectly then 1000 else 0) +
    (if entry.reachableViaPunch then 500 else 0) + (if entry.reachableViaTcp then 200 else 0)

theorem Eligible.floor_lt_score_iff {entry : EndpointEntry} {now : Int} {modelHint : Bytes}
    (h : entry.Eligible now modelHint) :
    -1 < entry.score now ↔ entry.ageSeconds now ≤ entry.credit := by
  have hage : entry.ageSeconds now ≤ 300 := of_decide_eq_true h.1
  rw [score, credit]
  omega

end EndpointEntry

namespace EndpointRegistry

variable {entries : EndpointRegistry} {now : Int} {modelHint : Bytes}

theorem mem_considered_iff_eligible {entry : EndpointEntry} :
    entry ∈ entries.considered now modelHint ↔ entry ∈ entries ∧ entry.Eligible now modelHint :=
  mem_considered

/-- The selection finds an entry of the highest score whenever one may be selected. -/
structure SelectsBest (entries : EndpointRegistry) (now : Int) (modelHint : Bytes) : Prop where
  optimal : ∀ best, entries.selectBest now modelHint = some best →
    best ∈ entries ∧ best.Eligible now modelHint ∧
      ∀ entry ∈ entries, entry.Eligible now modelHint → entry.score now ≤ best.score now
  complete : entries.selectBest now modelHint = none →
    ∀ entry ∈ entries, ¬entry.Eligible now modelHint

theorem selectsBest_iff :
    entries.SelectsBest now modelHint ↔
      (∀ best, entries.selectBest now modelHint = some best →
        best ∈ entries.considered now modelHint ∧
          ∀ entry ∈ entries.considered now modelHint, entry.score now ≤ best.score now) ∧
      (entries.selectBest now modelHint = none → entries.considered now modelHint = []) := by
  simp only [List.eq_nil_iff_forall_not_mem, mem_considered_iff_eligible]
  constructor
  · rintro ⟨hoptimal, hcomplete⟩
    refine ⟨?_, fun hnone entry h => hcomplete hnone entry h.1 h.2⟩
    intro best hbest
    obtain ⟨hmem, heligible, hmax⟩ := hoptimal best hbest
    exact ⟨⟨hmem, heligible⟩, fun entry h => hmax entry h.1 h.2⟩
  · rintro ⟨hoptimal, hcomplete⟩
    refine ⟨?_, fun hnone entry hmem heligible => hcomplete hnone entry ⟨hmem, heligible⟩⟩
    intro best hbest
    obtain ⟨⟨hmem, heligible⟩, hmax⟩ := hoptimal best hbest
    exact ⟨hmem, heligible, fun entry hmem heligible => hmax entry ⟨hmem, heligible⟩⟩

/-- After any calls: the selection is right exactly if no entry may be selected, or if one of those
that may has not used up its credit. -/
theorem selectsBest_reached_iff (calls : List RegistryCall) (now : Int) (modelHint : Bytes) :
    (reached calls).SelectsBest now modelHint ↔
      (∀ entry ∈ reached calls, ¬entry.Eligible now modelHint) ∨
        ∃ entry ∈ reached calls,
          entry.Eligible now modelHint ∧ entry.ageSeconds now ≤ entry.credit := by
  -- the loop is a scan above the floor of minus one
  rw [selectsBest_iff, selectBest_eq_scan, ArgMax.scan_complete_iff,
    List.eq_nil_iff_forall_not_mem]
  simp only [mem_considered_iff_eligible, not_and, and_assoc]
  refine or_congr_right (exists_congr fun entry => and_congr_right fun _ => ?_)
  exact and_congr_right fun heligible => heligible.floor_lt_score_iff

/-- A peer that lost all its quality and was seen 250 seconds ago: it may be selected, it is the
only one, and nothing is. -/
theorem not_selectsBest_at_quality_floor :
    ¬(reached [.register 0 { nodeId := ascii "p" }, .updateQualityScore (ascii "p") (-150)]
      ).SelectsBest 250 [] := by
  intro h
  have hnone : (reached [.register 0 { nodeId := ascii "p" },
      .updateQualityScore (ascii "p") (-150)]).selectBest 250 [] = none := by decide
  refine h.complete hnone { nodeId := ascii "p", qualityScore := -100 } ?_ ?_
  · decide
  · exact ⟨by decide, rfl, rfl⟩

end EndpointRegistry

end TKNC.Net
