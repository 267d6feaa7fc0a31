import Mathlib.Data.List.FinRange
import Mathlib.Data.Nat.Bitwise
import TKNC.Lib.Buckets
import TKNC.Lib.EventMachine
import TKNC.Lib.Numeral

/-!
# RoutingTable — the buckets of the distributed hash table

A node is kept in the bucket that the highest bit of its id determines.  Insertion looks into that
bucket only; the other operations walk over all buckets and stop at the first node with the id.

Every clock reading is an argument, one for each call of `IsExpired` or `UpdateLastSeen`; times are
nanoseconds of the steady clock.
-/

namespace TKNC.Net

open Lib Lib.Buckets Lib.EventMachine Lib.Numeral List

@[ext] structure NodeID where
  id : Bytes
  length_id : id.length = 20
  deriving DecidableEq

structure NodeInfo where
  nodeId : NodeID
  ipAddress : Bytes
  port : UInt16
  lastSeen : Int
  failedCount : Int
  deriving DecidableEq

namespace NodeInfo

/-- More than fifteen whole minutes have passed; `duration_cast` rounds towards zero. -/
def isExpired (node : NodeInfo) (now : Int) : Bool :=
  (now - node.lastSeen).tdiv (60 * 1000000000) > 15

def updateLastSeen (node : NodeInfo) (now : Int) : NodeInfo :=
  { node with lastSeen := now, failedCount := 0 }

end NodeInfo

/-! ## The bucket of an id -/

def bucketCount : Nat := 160

def kParam : Nat := 20

/-- The loop that shifts a byte until its highest bit is set; `rounds` is what `leading_zeros < 8`
leaves of it. -/
def shiftLoop : Nat → UInt8 → Nat → Nat
  | 0, _, leadingZeros => leadingZeros
  | rounds + 1, byte, leadingZeros =>
      if byte &&& 0x80 = 0 then shiftLoop rounds (byte <<< 1) (leadingZeros + 1) else leadingZeros

def bucketLoop : Nat → Bytes → Int
  -- all bytes are zero
  | _, [] => 159
  | i, byte :: rest =>
      if byte ≠ 0 then (19 - i) * 8 + (7 - shiftLoop 8 byte 0) else bucketLoop (i + 1) rest

def getBucketIndex (target : NodeID) : Int :=
  bucketLoop 0 target.id

theorem and_eq_zero_iff (byte : UInt8) : byte &&& 0x80 = 0 ↔ byte.toNat < 2 ^ 7 := by
  have hbit : (byte &&& 0x80).toNat = (byte.toNat.testBit 7).toNat * 2 ^ 7 := by
    rw [UInt8.toNat_and]
    exact Nat.and_two_pow byte.toNat 7
  have hbyte := byte.toNat_lt
  have htest : byte.toNat.testBit 7 = false ↔ byte.toNat < 2 ^ 7 := by
    rw [Nat.testBit_eq_decide_div_mod_eq, decide_eq_false_iff_not]
    omega
  rw [← UInt8.toNat_inj, hbit, ← htest]
  cases byte.toNat.testBit 7 <;> simp

theorem shiftLoop_lt {rounds : Nat} {byte : UInt8} (leadingZeros : Nat) (hrounds : rounds ≤ 8)
    (h : 2 ^ (8 - rounds) ≤ byte.toNat) :
    shiftLoop rounds byte leadingZeros < leadingZeros + rounds := by
  -- a shift doubles the byte, and the bound doubles with every round less
  induction rounds generalizing byte leadingZeros with
  | zero =>
    have hbyte := byte.toNat_lt
    simp at h
    omega
  | succ rounds ih =>
    rw [shiftLoop]
    split
    · next hzero =>
        have hlow := (and_eq_zero_iff byte).1 hzero
        have hshift : (byte <<< 1).toNat = 2 * byte.toNat := by
          rw [UInt8.toNat_shiftLeft, Nat.shiftLeft_eq]
          simp
          omega
        have hpow : 2 ^ (8 - rounds) = 2 * 2 ^ (8 - (rounds + 1)) := by
          rw [← Nat.pow_succ']
          congr 1
          omega
        have hrest : shiftLoop rounds (byte <<< 1) (leadingZeros + 1) <
            leadingZeros + 1 + rounds := ih (leadingZeros + 1) (by omega) (by omega)
        omega
    · omega

theorem shiftLoop_le_seven {byte : UInt8} (h : byte ≠ 0) : shiftLoop 8 byte 0 ≤ 7 := by
  have hpos : byte.toNat ≠ 0 := fun hzero => h (UInt8.toNat_inj.1 hzero)
  have hlt : shiftLoop 8 byte 0 < 0 + 8 := shiftLoop_lt 0 le_rfl (Nat.one_le_iff_ne_zero.2 hpos)
  omega

theorem bucketLoop_bounds {i : Nat} {bytes : Bytes} (h : i + bytes.length ≤ 20) :
    0 ≤ bucketLoop i bytes ∧ bucketLoop i bytes < bucketCount := by
  induction bytes generalizing i with
  | nil =>
    rw [bucketLoop, bucketCount]
    omega
  | cons byte rest ih =>
    rw [length_cons] at h
    rw [bucketLoop]
    split
    · next hbyte =>
        have hzeros := shiftLoop_le_seven hbyte
        rw [bucketCount]
        omega
    · exact ih (by omega)

theorem getBucketIndex_bounds (target : NodeID) :
    0 ≤ getBucketIndex target ∧ getBucketIndex target < bucketCount :=
  bucketLoop_bounds (by rw [target.length_id])

def bucketIndex (target : NodeID) : Fin bucketCount :=
  ⟨(getBucketIndex target).toNat, by
    have h := getBucketIndex_bounds target
    omega⟩

structure RoutingTable where
  buckets : Fin bucketCount → List NodeInfo

namespace RoutingTable

def new : RoutingTable :=
  { buckets := fun _ => [] }

def setBucket (t : RoutingTable) (i : Fin bucketCount) (l : List NodeInfo) : RoutingTable :=
  { buckets := Function.update t.buckets i l }

@[simp]
theorem buckets_setBucket_self (t : RoutingTable) (i : Fin bucketCount) (l : List NodeInfo) :
    (t.setBucket i l).buckets i = l := by
  simp [setBucket]

theorem buckets_setBucket_of_ne (t : RoutingTable) {i j : Fin bucketCount} (h : j ≠ i)
    (l : List NodeInfo) : (t.setBucket i l).buckets j = t.buckets j := by
  simp [setBucket, h]

@[simp]
theorem setBucket_buckets (t : RoutingTable) (i : Fin bucketCount) :
    t.setBucket i (t.buckets i) = t := by
  rw [setBucket, Function.update_eq_self]

def nodes (t : RoutingTable) : List NodeInfo :=
  (List.finRange bucketCount).flatMap t.buckets

def bucketWith (t : RoutingTable) (nodeId : NodeID) : Option (Fin bucketCount) :=
  (List.finRange bucketCount).find? fun i => (t.buckets i).any fun node => node.nodeId = nodeId

/-- A bucket without the first node that is found expired; the clock is read for every node that is
looked at. -/
def eraseExpired (now : Nat → Int) : Nat → List NodeInfo → Option (List NodeInfo)
  | _, [] => none
  | i, node :: rest =>
      if node.isExpired (now i) then some rest
      else (eraseExpired now (i + 1) rest).map (node :: ·)

def addNode (t : RoutingTable) (node : NodeInfo) (now : Nat → Int) : RoutingTable :=
  let i := bucketIndex node.nodeId
  if (t.buckets i).any fun existing => existing.nodeId = node.nodeId then
    t.setBucket i <| mapFirst (fun existing => existing.nodeId = node.nodeId)
      (fun existing =>
        { existing.updateLastSeen (now 0) with ipAddress := node.ipAddress, port := node.port })
      (t.buckets i)
  else if (t.buckets i).length < kParam then
    t.setBucket i (t.buckets i ++ [node])
  else
    -- a full bucket takes the node only in place of an expired one
    match eraseExpired now 0 (t.buckets i) with
    | some rest => t.setBucket i (rest ++ [node])
    | none => t

def removeNode (t : RoutingTable) (nodeId : NodeID) : RoutingTable :=
  match t.bucketWith nodeId with
  | some i => t.setBucket i ((t.buckets i).eraseP fun node => node.nodeId = nodeId)
  | none => t

def updateNodeActivity (t : RoutingTable) (nodeId : NodeID) (now : Int) : RoutingTable :=
  match t.bucketWith nodeId with
  | some i =>
      t.setBucket i (mapFirst (fun node => node.nodeId = nodeId)
        (fun node => node.updateLastSeen now) (t.buckets i))
  | none => t

def keepActive (now : Nat → Int) : Nat → List NodeInfo → List NodeInfo
  | _, [] => []
  | i, node :: rest =>
      if node.isExpired (now i) then keepActive now (i + 1) rest
      else node :: keepActive now (i + 1) rest

def removeInactiveNodes (t : RoutingTable) (now : Fin bucketCount → Nat → Int) : RoutingTable :=
  { buckets := fun i => keepActive (now i) 0 (t.buckets i) }

def clear (_ : RoutingTable) : RoutingTable :=
  { buckets := fun _ => [] }

/-! ## The invariant -/

/-- Ids at most once and in their buckets, and at most `K_PARAM` nodes in a bucket. -/
def Invariant (t : RoutingTable) : Prop :=
  Valid NodeInfo.nodeId bucketIndex kParam t.buckets

variable {t : RoutingTable}

theorem eraseExpired_eq_some {now : Nat → Int} {i : Nat} {l rest : List NodeInfo}
    (h : eraseExpired now i l = some rest) :
    rest.Sublist l ∧ rest.length < l.length ∧
      ∀ node ∈ l, node ∈ rest ∨ ∃ j, node.isExpired (now j) = true := by
  induction l generalizing i rest with
  | nil => cases h
  | cons node l ih =>
    rw [eraseExpired] at h
    split at h
    · next hexpired =>
        cases h
        refine ⟨sublist_cons_self _ _, Nat.lt_succ_self _, ?_⟩
        rw [forall_mem_cons]
        exact ⟨Or.inr ⟨i, hexpired⟩, fun other hmem => Or.inl hmem⟩
    · obtain ⟨rest', hrest, rfl⟩ := Option.map_eq_some_iff.1 h
      obtain ⟨hsub, hlength, hkept⟩ := ih hrest
      refine ⟨hsub.cons_cons node, Nat.succ_lt_succ hlength, ?_⟩
      rw [forall_mem_cons]
      refine ⟨Or.inl mem_cons_self, ?_⟩
      intro other hmem
      exact (hkept other hmem).imp_left (mem_cons_of_mem node)

theorem keepActive_sublist (now : Nat → Int) (i : Nat) (l : List NodeInfo) :
    (keepActive now i l).Sublist l := by
  induction l generalizing i with
  | nil => exact List.Sublist.refl _
  | cons node l ih =>
    rw [keepActive]
    split
    · exact (ih (i + 1)).cons node
    · exact (ih (i + 1)).cons_cons node

theorem notMem_of_any_eq_false {l : List NodeInfo} {nodeId : NodeID}
    (h : ¬ (l.any fun existing => existing.nodeId = nodeId) = true) :
    nodeId ∉ l.map NodeInfo.nodeId := by
  intro hmem
  obtain ⟨existing, hexisting, hid⟩ := mem_map.1 hmem
  exact h (any_eq_true.2 ⟨existing, hexisting, decide_eq_true hid⟩)

/-- What `AddNode` does to the bucket of a node: its ids stay, or the node comes behind what is left
of it when at most one expired entry has made room. -/
theorem addNode_cases (t : RoutingTable) (node : NodeInfo) (now : Nat → Int) :
    ∃ l, t.addNode node now = t.setBucket (bucketIndex node.nodeId) l ∧
      (l.map NodeInfo.nodeId = (t.buckets (bucketIndex node.nodeId)).map NodeInfo.nodeId ∨
        node.nodeId ∉ (t.buckets (bucketIndex node.nodeId)).map NodeInfo.nodeId ∧
          ∃ rest, l = rest ++ [node] ∧ rest.Sublist (t.buckets (bucketIndex node.nodeId)) ∧
            (rest.length < kParam ∨ rest.length < (t.buckets (bucketIndex node.nodeId)).length) ∧
            ∀ entry ∈ t.buckets (bucketIndex node.nodeId),
              entry ∈ rest ∨ ∃ j, entry.isExpired (now j) = true) := by
  rw [addNode]
  split
  · refine ⟨_, rfl, Or.inl (map_mapFirst ?_ _)⟩
    exact fun _ _ => rfl
  · next hnew =>
      have hnew := notMem_of_any_eq_false hnew
      split
      · next hroom =>
          exact ⟨_, rfl, Or.inr ⟨hnew, _, rfl, List.Sublist.refl _, Or.inl hroom,
            fun entry hmem => Or.inl hmem⟩⟩
      · split
        · next rest hrest =>
            obtain ⟨hsub, hlength, hkept⟩ := eraseExpired_eq_some hrest
            exact ⟨_, rfl, Or.inr ⟨hnew, rest, rfl, hsub, Or.inr hlength, hkept⟩⟩
        · exact ⟨_, (setBucket_buckets t _).symm, Or.inl rfl⟩

theorem Invariant.addNode (h : t.Invariant) (node : NodeInfo) (now : Nat → Int) :
    (t.addNode node now).Invariant := by
  obtain ⟨l, heq, hids | ⟨hnew, rest, rfl, hsub, hroom, _⟩⟩ := addNode_cases t node now
  · rw [heq]
    exact h.update (hids ▸ List.Sublist.refl _)
  · rw [heq]
    have hbound := h.bounded (bucketIndex node.nodeId)
    exact h.insert hsub (by omega) hnew

theorem addNode_keeps (t : RoutingTable) (node : NodeInfo) (now : Nat → Int) {i : Fin bucketCount}
    {entry : NodeInfo} (hentry : entry ∈ t.buckets i) :
    (∃ entry' ∈ (t.addNode node now).buckets i, entry'.nodeId = entry.nodeId) ∨
      ∃ j, entry.isExpired (now j) = true := by
  obtain ⟨l, heq, hcases⟩ := addNode_cases t node now
  rw [heq]
  -- only the bucket of the new node changes
  by_cases hi : i = bucketIndex node.nodeId
  · rw [← hi] at hcases ⊢
    rw [buckets_setBucket_self]
    rcases hcases with hids | ⟨_, rest, rfl, _, _, hkept⟩
    · left
      exact mem_map.1 (hids ▸ mem_map_of_mem hentry)
    · rcases hkept entry hentry with hmem | hexpired
      · exact Or.inl ⟨entry, mem_append_left _ hmem, rfl⟩
      · exact Or.inr hexpired
  · rw [buckets_setBucket_of_ne t hi]
    exact Or.inl ⟨entry, hentry, rfl⟩

theorem Invariant.removeNode (h : t.Invariant) (nodeId : NodeID) :
    (t.removeNode nodeId).Invariant := by
  rw [RoutingTable.removeNode]
  split
  · exact h.update (eraseP_sublist.map _)
  · exact h

theorem Invariant.updateNodeActivity (h : t.Invariant) (nodeId : NodeID) (now : Int) :
    (t.updateNodeActivity nodeId now).Invariant := by
  rw [RoutingTable.updateNodeActivity]
  split
  · apply h.update
    rw [map_mapFirst]
    exact fun _ _ => rfl
  · exact h

theorem Invariant.removeInactiveNodes (h : t.Invariant) (now : Fin bucketCount → Nat → Int) :
    (t.removeInactiveNodes now).Invariant :=
  h.of_sublist fun i => (keepActive_sublist (now i) 0 (t.buckets i)).map _

theorem invariant_clear (t : RoutingTable) : t.clear.Invariant :=
  valid_empty

end RoutingTable

/-! ## Runs -/

inductive TableCall where
  | addNode (node : NodeInfo) (now : Nat → Int)
  | removeNode (nodeId : NodeID)
  | updateNodeActivity (nodeId : NodeID) (now : Int)
  | removeInactiveNodes (now : Fin bucketCount → Nat → Int)
  | clear

namespace RoutingTable

def call (t : RoutingTable) : TableCall → RoutingTable
  | .addNode node now => t.addNode node now
  | .removeNode nodeId => t.removeNode nodeId
  | .updateNodeActivity nodeId now => t.updateNodeActivity nodeId now
  | .removeInactiveNodes now => t.removeInactiveNodes now
  | .clear => t.clear

theorem Invariant.call {t : RoutingTable} (h : t.Invariant) (c : TableCall) :
    (t.call c).Invariant := by
  cases c with
  | addNode node now => exact h.addNode node now
  | removeNode nodeId => exact h.removeNode nodeId
  | updateNodeActivity nodeId now => exact h.updateNodeActivity nodeId now
  | removeInactiveNodes now => exact h.removeInactiveNodes now
  | clear => exact invariant_clear t

theorem invariant_run (calls : List TableCall) : (run call new calls).Invariant := by
  have hnew : Invariant new := valid_empty
  have hstep : ∀ t c, Invariant t → Invariant (call t c) := fun _ c h => h.call c
  exact run_invariant hstep hnew calls

/-- A table never holds more than 3200 nodes, so the number of nodes is an `int`. -/
theorem length_nodes_run_le (calls : List TableCall) :
    (run call new calls).nodes.length ≤ 3200 := by
  have hlength := (invariant_run calls).length_le (finRange bucketCount)
  rwa [length_finRange] at hlength

/-- After every run of the operations: no id is twice in the table, every node is in the bucket of
its id, no bucket has more than twenty nodes, and an entry that `AddNode` removes has been found
expired. -/
theorem routingTable_invariant (calls : List TableCall) :
    ((run call new calls).nodes.map NodeInfo.nodeId).Nodup ∧
      (∀ i, ∀ node ∈ (run call new calls).buckets i, (i : Int) = getBucketIndex node.nodeId) ∧
      (∀ i, ((run call new calls).buckets i).length ≤ 20) ∧
      ∀ node now i, ∀ entry ∈ (run call new calls).buckets i,
        (∃ entry' ∈ ((run call new calls).addNode node now).buckets i,
          entry'.nodeId = entry.nodeId) ∨ ∃ j, entry.isExpired (now j) = true := by
  have h := invariant_run calls
  refine ⟨h.nodup (nodup_finRange _), ?_, h.bounded, ?_⟩
  · intro i node hmem
    rw [← h.placed i node hmem]
    exact Int.toNat_of_nonneg (getBucketIndex_bounds node.nodeId).1
  · intro node now i entry hentry
    exact addNode_keeps _ node now hentry

def smallId (last : UInt8) : NodeID :=
  ⟨List.replicate 19 0 ++ [last], rfl⟩

def smallNode (last : UInt8) : NodeInfo where
  nodeId := smallId last
  ipAddress := ascii "10.0.0.1"
  port := 9313
  lastSeen := 0
  failedCount := 0

def threeNodeCalls : List TableCall :=
  [.addNode (smallNode 1) fun _ => 0, .addNode (smallNode 2) fun _ => 0,
    .addNode (smallNode 3) fun _ => 0]

def threeNodeTable : RoutingTable :=
  run call new threeNodeCalls

theorem nodes_threeNodeTable :
    threeNodeTable.nodes = [smallNode 1, smallNode 2, smallNode 3] := by
  decide +kernel

/-- Two of the nodes share a bucket, which keeps the first of them when the other comes again fifteen
minutes later. -/
theorem routingTable_threeNodes :
    (threeNodeTable.nodes.map NodeInfo.nodeId).Nodup ∧
      threeNodeTable.buckets (bucketIndex (smallId 2)) = [smallNode 2, smallNode 3] ∧
      getBucketIndex (smallId 3) = 1 ∧
      ∃ entry ∈ (threeNodeTable.addNode (smallNode 3) fun _ => 900000000000).buckets
        (bucketIndex (smallId 2)), entry.nodeId = smallId 2 := by
  have hbucket : threeNodeTable.buckets (bucketIndex (smallId 2)) =
      [smallNode 2, smallNode 3] := by
    decide +kernel
  have hmem : smallNode 2 ∈ threeNodeTable.buckets (bucketIndex (smallId 2)) :=
    hbucket ▸ mem_cons_self
  have hmem' : smallNode 3 ∈ threeNodeTable.buckets (bucketIndex (smallId 2)) :=
    hbucket ▸ mem_cons_of_mem _ mem_cons_self
  obtain ⟨hnodup, hplaced, _, hkept⟩ := routingTable_invariant threeNodeCalls
  refine ⟨hnodup, hbucket, (hplaced _ _ hmem').symm.trans rfl, ?_⟩
  rcases hkept (smallNode 3) (fun _ => 900000000000) _ _ hmem with hstays | ⟨_, hexpired⟩
  · exact hstays
  · exact absurd hexpired (by decide)

end RoutingTable

end TKNC.Net
