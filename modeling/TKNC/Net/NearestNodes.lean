import TKNC.Lib.XorMetric
import TKNC.Net.RoutingTable

/-!
# NearestNodes — the nodes of the table that are closest to a target

`FindNearest` pairs every node with its distance, sorts the pairs by distance and returns the first
of them.  A distance is a 256-bit blob whose first twenty bytes are the exclusive or of the ids;
blobs are compared byte by byte from the front, which is the order of the distances as numbers.

The sorting function is a parameter: nothing is assumed about the order of equal distances.
-/

namespace TKNC.Net

open Lib Lib.Numeral Lib.XorMetric List

namespace NodeID

/-- `uint256` with the exclusive or of the ids in front. -/
def distance (a b : NodeID) : Bytes :=
  List.zipWith (· ^^^ ·) a.id b.id ++ List.replicate 12 0

def value (a : NodeID) : Nat :=
  beValue a.id

def xorDistance (a b : NodeID) : Nat :=
  a.value ^^^ b.value

theorem value_inj {a b : NodeID} (h : a.value = b.value) : a = b :=
  NodeID.ext (beValue_inj (a.length_id.trans b.length_id.symm) h)

theorem beValue_distance (a b : NodeID) :
    beValue (a.distance b) = 2 ^ 96 * a.xorDistance b := by
  rw [distance, beValue_append_zeros, beValue_xor (a.length_id.trans b.length_id.symm)]
  rfl

theorem distance_lt_iff (target a b : NodeID) :
    target.distance a < target.distance b ↔ target.xorDistance a < target.xorDistance b := by
  have hlength : (target.distance a).length = (target.distance b).length := by
    simp [distance, target.length_id, a.length_id, b.length_id]
  rw [lt_iff_beValue_lt hlength, beValue_distance, beValue_distance]
  omega

theorem xorDistance_inj {target a b : NodeID} (h : target.xorDistance a = target.xorDistance b) :
    a = b :=
  value_inj (Nat.xor_right_injective h)

end NodeID

/-! ## The search -/

abbrev Candidate : Type := Bytes × NodeInfo

def closer (a b : Candidate) : Prop :=
  a.1 < b.1

namespace RoutingTable

def candidates (t : RoutingTable) (target : NodeID) : List Candidate :=
  t.nodes.map fun node => (target.distance node.nodeId, node)

def findNearest (sort : StdSort closer) (t : RoutingTable) (target : NodeID) (k : Int) :
    List NodeInfo :=
  let candidates := sort.run (t.candidates target)
  let count : Int := min k candidates.length
  (candidates.take count.toNat).map Prod.snd

variable {sort : StdSort closer} {t : RoutingTable} {target : NodeID}

theorem mem_candidates {c : Candidate} (h : c ∈ sort.run (t.candidates target)) :
    c.1 = target.distance c.2.nodeId ∧ c.2 ∈ t.nodes := by
  obtain ⟨node, hnode, rfl⟩ := mem_map.1 ((sort.perm _).mem_iff.1 h)
  exact ⟨rfl, hnode⟩

theorem pairwise_candidates (sort : StdSort closer) (target : NodeID)
    (hids : (t.nodes.map NodeInfo.nodeId).Nodup) :
    (sort.run (t.candidates target)).Pairwise fun a b =>
      target.xorDistance a.2.nodeId < target.xorDistance b.2.nodeId := by
  have hperm : ((sort.run (t.candidates target)).map fun c => c.2.nodeId).Perm
      (t.nodes.map NodeInfo.nodeId) := by
    have hmap := (sort.perm (t.candidates target)).map fun c => c.2.nodeId
    rwa [candidates, map_map] at hmap
  have hdistinct := pairwise_map.1 (hperm.nodup_iff.2 hids)
  -- sorted without an inversion, and no two distances are equal
  apply ((sort.sorted _).and hdistinct).imp_of_mem
  rintro a b ha hb ⟨hnot, hne⟩
  rw [closer, (mem_candidates ha).1, (mem_candidates hb).1, NodeID.distance_lt_iff] at hnot
  exact Nat.lt_of_le_of_ne (Nat.le_of_not_lt hnot) fun heq => hne (NodeID.xorDistance_inj heq)

/-- The search returns as many nodes of the table as it is asked for and the table has, in order of
strictly increasing distance, and every other node is farther away than all of them. -/
theorem findNearest_exact (sort : StdSort closer) (t : RoutingTable)
    (hids : (t.nodes.map NodeInfo.nodeId).Nodup) (target : NodeID) (k : Int) :
    ((t.findNearest sort target k).length : Int) = min (max k 0) t.nodes.length ∧
      (∀ node ∈ t.findNearest sort target k, node ∈ t.nodes) ∧
      (t.findNearest sort target k).Pairwise (fun a b =>
        target.xorDistance a.nodeId < target.xorDistance b.nodeId) ∧
      ∀ node ∈ t.nodes, node ∉ t.findNearest sort target k →
        ∀ near ∈ t.findNearest sort target k,
          target.xorDistance near.nodeId < target.xorDistance node.nodeId := by
  have hlength : (sort.run (t.candidates target)).length = t.nodes.length := by
    rw [(sort.perm _).length_eq, candidates, length_map]
  have hsorted := pairwise_candidates sort target hids
  refine ⟨?_, ?_, ?_, ?_⟩
  · simp only [findNearest, length_map, length_take, hlength]
    omega
  · intro node hnode
    obtain ⟨c, hc, rfl⟩ := mem_map.1 hnode
    exact (mem_candidates (mem_of_mem_take hc)).2
  · exact pairwise_map.2 (hsorted.sublist (take_sublist _ _))
  · intro node hnode hout near hnear
    obtain ⟨c, hc, rfl⟩ := mem_map.1 hnear
    have hcandidate : (target.distance node.nodeId, node) ∈ sort.run (t.candidates target) :=
      (sort.perm _).mem_iff.2 (mem_map_of_mem hnode)
    exact take_smallest hsorted _ hcandidate (fun hmem => hout (mem_map_of_mem hmem)) hc

def notFarther (a b : Candidate) : Bool :=
  decide (¬ b.1 < a.1)

def mergeSorter : StdSort closer where
  run l := l.mergeSort notFarther
  perm l := List.mergeSort_perm l notFarther
  sorted l := by
    have hsorted : (l.mergeSort notFarther).Pairwise fun a b => notFarther a b = true := by
      apply List.pairwise_mergeSort
      · intro a b c hab hbc
        simp only [notFarther, decide_eq_true_eq, List.not_lt] at *
        exact List.le_trans hab hbc
      · intro a b
        simp only [notFarther, Bool.or_eq_true, decide_eq_true_eq, List.not_lt]
        exact List.le_total a.1 b.1
    exact hsorted.imp of_decide_eq_true

/-- Two of three nodes are asked for; the distances are 4, 5 and 6, so the first node is left out. -/
theorem findNearest_threeNodes :
    (threeNodeTable.nodes.map NodeInfo.nodeId).Nodup ∧
      threeNodeTable.findNearest mergeSorter (smallId 7) 2 = [smallNode 3, smallNode 2] ∧
      (smallId 7).xorDistance (smallId 2) < (smallId 7).xorDistance (smallId 1) := by
  have hids : (threeNodeTable.nodes.map NodeInfo.nodeId).Nodup := by
    rw [nodes_threeNodeTable]
    decide
  obtain ⟨hlength, htable, hsorted, hfar⟩ :=
    findNearest_exact mergeSorter threeNodeTable hids (smallId 7) 2
  rw [nodes_threeNodeTable] at hlength htable hfar
  obtain ⟨a, b, hnear⟩ : ∃ a b, threeNodeTable.findNearest mergeSorter (smallId 7) 2 = [a, b] :=
    length_eq_two.1 (by simp at hlength; omega)
  rw [hnear] at htable hsorted hfar ⊢
  have ha := htable a (by simp)
  have hb := htable b (by simp)
  -- of the nine pairs one is sorted and leaves out a node that is farther away
  have hpairs : ∀ a ∈ [smallNode 1, smallNode 2, smallNode 3],
      ∀ b ∈ [smallNode 1, smallNode 2, smallNode 3],
        [a, b].Pairwise (fun a b =>
          (smallId 7).xorDistance a.nodeId < (smallId 7).xorDistance b.nodeId) →
        (∀ node ∈ [smallNode 1, smallNode 2, smallNode 3], node ∉ [a, b] → ∀ near ∈ [a, b],
          (smallId 7).xorDistance near.nodeId < (smallId 7).xorDistance node.nodeId) →
        [a, b] = [smallNode 3, smallNode 2] := by
    decide +kernel
  exact ⟨hids, hpairs a ha b hb hsorted hfar, by decide +kernel⟩

end RoutingTable

end TKNC.Net
