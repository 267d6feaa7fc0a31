import TKNC.Gateway.Requests

/-!
# TokenCount — the count of the gateway and the cuts between the pieces

`StreamForwardToClient` counts the fields in each piece of the body that it hands on, while
`ProxyFinishCleanup` counts those of the whole body.  The two counts differ by the fields whose mark
reaches over a cut between two pieces.
-/

namespace TKNC.Gateway

open Lib.MachineInt Lib.Numeral Lib.TextSearch List

/-! ## Fields of a text -/

def startsContent (t : Bytes) : Bool :=
  t.head?.any (· ≠ quote)

theorem deltaTails_skip (skip : Nat) (text : Bytes) :
    deltaTails skip text = deltaTails 0 (text.drop skip) := by
  induction text generalizing skip with
  | nil => cases skip <;> rfl
  | cons c rest ih =>
    cases skip with
    | zero => rfl
    | succ skip => exact ih skip

theorem deltaTails_mark (t : Bytes) : deltaTails 0 (deltaMark ++ t) = t :: deltaTails 0 t := by
  obtain ⟨c, rest, hmark⟩ : ∃ c rest, deltaMark = c :: rest := ⟨_, _, rfl⟩
  have hhead : deltaMark.isPrefixOf (c :: (rest ++ t)) = true := by
    rw [List.isPrefixOf_iff_prefix, ← cons_append, ← hmark]
    exact prefix_append deltaMark t
  have hdrop : (rest ++ t).drop (deltaMark.length - 1) = t := by
    rw [hmark]
    exact drop_left
  nth_rewrite 1 [hmark]
  rw [cons_append, deltaTails, if_pos hhead, deltaTails_skip, hdrop]

theorem deltaTails_cons {c : UInt8} {rest : Bytes} (h : ¬ deltaMark.isPrefixOf (c :: rest) = true) :
    deltaTails 0 (c :: rest) = deltaTails 0 rest := by
  rw [deltaTails, if_neg h]

theorem deltaTails_append_of_passes {u : Bytes} (h : passes deltaMark u = true) (v : Bytes) :
    deltaTails 0 (u ++ v) = deltaTails 0 v := by
  induction u with
  | nil => rfl
  | cons c u ih =>
    simp only [passes, Bool.and_eq_true, Bool.not_eq_true'] at h
    rw [cons_append, deltaTails_cons]
    · exact ih h.2
    · intro hhead
      rw [← cons_append] at hhead
      rcases isPrefixOf_append hhead with hmatch | hmatch
      · exact absurd (h.1.1.symm.trans hmatch) Bool.false_ne_true
      · exact absurd (h.1.2.symm.trans hmatch) Bool.false_ne_true

theorem length_of_mem_deltaTails {skip : Nat} {t text : Bytes} (h : t ∈ deltaTails skip text) :
    t.length + deltaMark.length + skip ≤ text.length := by
  induction text generalizing skip with
  | nil => cases skip <;> cases h
  | cons c rest ih =>
    cases skip with
    | succ skip =>
      have hrest := ih h
      rw [length_cons]
      omega
    | zero =>
      rw [deltaTails] at h
      split at h
      · rename_i hhead
        have hlength := (List.isPrefixOf_iff_prefix.1 hhead).length_le
        rcases mem_cons.1 h with rfl | hrest
        · rw [length_drop]
          rw [length_cons] at hlength ⊢
          omega
        · have hskipped := ih hrest
          rw [length_cons]
          omega
      · have hrest := ih h
        rw [length_cons]
        omega

theorem deltaCount_eq_countP (text : Bytes) :
    deltaCount text = (deltaTails 0 text).countP startsContent := by
  rw [deltaCount, contentDeltas, ← countP_eq_length_filter]
  rfl

theorem deltaCount_mark (t : Bytes) :
    deltaCount (deltaMark ++ t) = (startsContent t).toNat + deltaCount t := by
  rw [deltaCount_eq_countP, deltaCount_eq_countP, deltaTails_mark, countP_cons, Nat.add_comm]
  cases startsContent t <;> rfl

theorem deltaCount_cons {c : UInt8} {rest : Bytes}
    (h : ¬ deltaMark.isPrefixOf (c :: rest) = true) : deltaCount (c :: rest) = deltaCount rest := by
  rw [deltaCount_eq_countP, deltaTails_cons h, deltaCount_eq_countP]

theorem deltaCount_of_short {u : Bytes} (h : u.length < deltaMark.length) : deltaCount u = 0 := by
  have hnone : deltaTails 0 u = [] := by
    rw [eq_nil_iff_forall_not_mem]
    intro t ht
    have hlength := length_of_mem_deltaTails ht
    omega
  rw [deltaCount_eq_countP, hnone]
  rfl

/-! ## Marks that share a quote -/

theorem deltaCount_drop_mark {n : Nat} (hpos : 0 < n) (hlt : n < deltaMark.length) (t : Bytes) :
    deltaCount (deltaMark.drop n ++ t) = deltaCount (quote :: t) := by
  have hclash : ∀ n < 11, 0 < n → passes deltaMark (deltaMark.drop n).dropLast = true ∧
      deltaMark.drop n = (deltaMark.drop n).dropLast ++ [quote] := by
    decide
  obtain ⟨hpasses, hlast⟩ := hclash n hlt hpos
  rw [hlast, append_assoc, deltaCount_eq_countP, deltaTails_append_of_passes hpasses,
    deltaCount_eq_countP]
  rfl

/-- A search that begins with the last quote of the mark before `t` misses one of the fields from
that mark on: in a row of marks that share their quotes every second one is found. -/
def missed : Nat → Bytes → Bool
  | _, [] => false
  | skip + 1, _ :: rest => missed skip rest
  | 0, c :: rest =>
      if (deltaMark.drop 1).isPrefixOf (c :: rest) then !missed (deltaMark.length - 2) rest
      else c ≠ quote

theorem missed_skip (skip : Nat) (t : Bytes) : missed skip t = missed 0 (t.drop skip) := by
  induction t generalizing skip with
  | nil => cases skip <;> rfl
  | cons c rest ih =>
    cases skip with
    | zero => rfl
    | succ skip => exact ih skip

theorem missed_mark (t : Bytes) : missed 0 (deltaMark.drop 1 ++ t) = !missed 0 t := by
  obtain ⟨c, rest, hmark⟩ : ∃ c rest, deltaMark.drop 1 = c :: rest := ⟨_, _, rfl⟩
  have hhead : (deltaMark.drop 1).isPrefixOf (c :: (rest ++ t)) = true := by
    rw [List.isPrefixOf_iff_prefix, ← cons_append, ← hmark]
    exact prefix_append _ t
  have hlength : deltaMark.length - 2 = rest.length := by
    have hdrop := congrArg length hmark
    rw [length_drop, length_cons] at hdrop
    omega
  nth_rewrite 1 [hmark]
  rw [cons_append, missed, if_pos hhead, missed_skip, hlength, drop_left]

theorem missed_of_not_prefix {t : Bytes} (h : ¬ (deltaMark.drop 1).isPrefixOf t = true) :
    missed 0 t = startsContent t := by
  cases t with
  | nil => rfl
  | cons c rest =>
    rw [missed, if_neg h]
    rfl

theorem deltaCount_behind_mark (t : Bytes) :
    (startsContent t).toNat + deltaCount t =
      deltaCount (quote :: t) + (missed 0 t).toNat := by
  -- on the row of marks that share their quotes
  induction hlength : t.length using Nat.strong_induction_on generalizing t with
  | _ n ih =>
    subst hlength
    by_cases hnext : (deltaMark.drop 1).isPrefixOf t = true
    · obtain ⟨t', rfl⟩ := isPrefixOf_iff_prefix.1 hnext
      have hshorter : t'.length < (deltaMark.drop 1 ++ t').length := by
        have hmark : (deltaMark.drop 1).length = 10 := by decide
        rw [length_append]
        omega
      have hrest := ih t'.length hshorter t' rfl
      have hmark : quote :: (deltaMark.drop 1 ++ t') = deltaMark ++ t' := rfl
      have hstarts : startsContent (deltaMark.drop 1 ++ t') = true := rfl
      rw [hmark, deltaCount_mark, deltaCount_drop_mark (by decide) (by decide), missed_mark,
        hstarts, hrest]
      cases missed 0 t' <;> simp [Nat.add_comm]
    · have hhead : ¬ deltaMark.isPrefixOf (quote :: t) = true := hnext
      rw [deltaCount_cons hhead, missed_of_not_prefix hnext, Nat.add_comm]

/-! ## Cuts -/

/-- No field is lost at the cut between `u` and `v`: of the fields that a search from the beginning
of `u` finds, none has its mark right before the cut, or reaching over it so that the search in `v`
misses the field. -/
def KeepsFields (u v : Bytes) : Prop :=
  ∀ t ∈ deltaTails 0 (u ++ v),
    (t.length = v.length → startsContent t = false) ∧
      (t.length < v.length → v.length < t.length + deltaMark.length → missed 0 t = false)

theorem keepsFields_nil (v : Bytes) : KeepsFields [] v := by
  intro t ht
  have hlength := length_of_mem_deltaTails ht
  have hmark : deltaMark.length = 11 := by decide
  rw [nil_append] at hlength
  constructor <;> intros <;> omega

theorem keepsFields_mark (u v : Bytes) :
    KeepsFields (deltaMark ++ u) v ↔ (u = [] → startsContent v = false) ∧ KeepsFields u v := by
  have hfirst : ((u ++ v).length = v.length → startsContent (u ++ v) = false) ∧
      ((u ++ v).length < v.length → v.length < (u ++ v).length + deltaMark.length →
        missed 0 (u ++ v) = false) ↔ (u = [] → startsContent v = false) := by
    rw [length_append]
    constructor
    · rintro ⟨hcut, _⟩ rfl
      exact hcut (Nat.zero_add _)
    · intro hcut
      refine ⟨?_, fun hlt => absurd hlt (by omega)⟩
      intro hlength
      have hnil : u = [] := length_eq_zero_iff.1 (by omega)
      rw [hnil]
      exact hcut hnil
  rw [KeepsFields, append_assoc, deltaTails_mark, forall_mem_cons, hfirst]
  rfl

theorem keepsFields_cons {c : UInt8} {u v : Bytes}
    (h : ¬ deltaMark.isPrefixOf (c :: (u ++ v)) = true) :
    KeepsFields (c :: u) v ↔ KeepsFields u v := by
  rw [KeepsFields, cons_append, deltaTails_cons h]
  rfl

theorem keepsFields_inside {n : Nat} (hpos : 0 < n) (hlt : n < deltaMark.length) (t : Bytes) :
    KeepsFields (deltaMark.take n) (deltaMark.drop n ++ t) ↔ missed 0 t = false := by
  have hlength : (deltaMark.drop n ++ t).length = deltaMark.length - n + t.length := by
    rw [length_append, length_drop]
  rw [KeepsFields, ← append_assoc, take_append_drop, deltaTails_mark,
    forall_mem_cons, hlength]
  constructor
  · rintro ⟨⟨_, hcut⟩, _⟩
    exact hcut (by omega) (by omega)
  · intro hmissed
    refine ⟨⟨fun heq => absurd heq (by omega), fun _ _ => hmissed⟩, ?_⟩
    intro t' ht'
    have hbehind := length_of_mem_deltaTails ht'
    constructor <;> intros <;> omega

theorem deltaCount_append (u v : Bytes) :
    deltaCount u + deltaCount v ≤ deltaCount (u ++ v) ∧
      (deltaCount u + deltaCount v = deltaCount (u ++ v) ↔ KeepsFields u v) := by
  induction hlength : u.length using Nat.strong_induction_on generalizing u with
  | _ n ih =>
    subst hlength
    cases u with
    | nil =>
      rw [nil_append, deltaCount_of_short (by decide), Nat.zero_add]
      exact ⟨Nat.le_refl _, iff_of_true rfl (keepsFields_nil v)⟩
    | cons c u =>
      by_cases hwhole : deltaMark.isPrefixOf (c :: u) = true
      · -- the mark is complete before the cut
        obtain ⟨u', hu⟩ := isPrefixOf_iff_prefix.1 hwhole
        have hshorter : u'.length < (c :: u).length := by
          have hmark : deltaMark.length = 11 := by decide
          rw [← hu, length_append]
          omega
        have hrest := ih u'.length hshorter u' rfl
        rw [← hu, keepsFields_mark, ← hrest.2, append_assoc, deltaCount_mark,
          deltaCount_mark]
        cases u' with
        | nil =>
          rw [nil_append, deltaCount_of_short (by decide : ([] : Bytes).length < _)]
          cases startsContent v <;> simp [startsContent]
        | cons c' u' =>
          have hstarts : startsContent (c' :: u' ++ v) = startsContent (c' :: u') := rfl
          rw [hstarts]
          refine ⟨by omega, ?_⟩
          simp only [reduceCtorEq, false_implies, true_and]
          omega
      by_cases hhead : deltaMark.isPrefixOf (c :: u ++ v) = true
      · -- the mark reaches over the cut
        rw [List.isPrefixOf_iff_prefix] at hwhole hhead
        obtain ⟨w, t, hmark, hw, hcut⟩ := exists_over_cut hwhole hhead
        have htake : c :: u = deltaMark.take (c :: u).length := by
          rw [hmark, take_left]
        have hlt : (c :: u).length < deltaMark.length := by
          have hpos := length_pos_iff.2 hw
          rw [hmark, length_append]
          omega
        have hv : v = deltaMark.drop (c :: u).length ++ t := by
          rw [hmark, drop_left, hcut]
        have ht : deltaMark ++ t = c :: u ++ v := by
          rw [hmark, hcut, append_assoc]
        have hcount := deltaCount_behind_mark t
        have hpos : 0 < (c :: u).length := Nat.succ_pos _
        have hkeeps := keepsFields_inside hpos hlt t
        rw [← htake, ← hv] at hkeeps
        rw [hkeeps, ← ht, deltaCount_mark, deltaCount_of_short hlt, hcount, hv,
          deltaCount_drop_mark hpos hlt]
        cases missed 0 t <;> simp
      · have hrest := ih u.length (Nat.lt_succ_self _) u rfl
        rw [cons_append] at hhead ⊢
        rw [keepsFields_cons hhead, ← hrest.2, deltaCount_cons hhead,
          deltaCount_cons hwhole]
        exact ⟨hrest.1, Iff.rfl⟩

def forwardPieces (ctx : StreamContext) (pieces : List Bytes) : StreamContext :=
  pieces.foldl (fun ctx piece => (streamForwardToClient ctx piece).1) ctx

/-- No field is lost at any of the cuts. -/
def KeepsAllFields : List Bytes → Prop
  | [] => True
  | piece :: pieces => KeepsFields piece pieces.flatten ∧ KeepsAllFields pieces

theorem sum_deltaCount (pieces : List Bytes) :
    (pieces.map deltaCount).sum ≤ deltaCount pieces.flatten ∧
      ((pieces.map deltaCount).sum = deltaCount pieces.flatten ↔ KeepsAllFields pieces) := by
  induction pieces with
  | nil => exact ⟨Nat.le_refl _, iff_of_true rfl trivial⟩
  | cons piece pieces ih =>
    have hcut := deltaCount_append piece pieces.flatten
    rw [map_cons, sum_cons, flatten_cons, KeepsAllFields, ← ih.2, ← hcut.2]
    -- fields are only lost, so the losses of different cuts do not make up for each other
    omega

theorem nodeCount_forwardPieces {ctx : StreamContext} {n : Int}
    (h : ctx.nodeOutputTokenCount = wrap 32 n) (pieces : List Bytes) :
    (forwardPieces ctx pieces).nodeOutputTokenCount =
      wrap 32 (n + (pieces.map deltaCount).sum) := by
  induction pieces generalizing ctx n with
  | nil => rw [map_nil, sum_nil, Int.natCast_zero, Int.add_zero, ← h]; rfl
  | cons piece pieces ih =>
    have hpiece : (streamForwardToClient ctx piece).1.nodeOutputTokenCount =
        wrap 32 (n + deltaCount piece) := by
      rw [streamForwardToClient]
      split
      · rename_i hnil
        rw [hnil, deltaCount_of_short (by decide), Int.natCast_zero, Int.add_zero, ← h]
      · change wrap 32 (ctx.nodeOutputTokenCount + deltaCount piece) = _
        rw [h, wrap32_eq, wrap32_eq, wrap32_eq]
        omega
    have hrest := ih hpiece
    rw [Int.add_assoc, ← Int.natCast_add, ← sum_cons, ← map_cons] at hrest
    exact hrest

/-- The count of the gateway is the number of fields in the body, and so the count of the proxy,
exactly if no cut loses a field and the number fits in an `int`. -/
theorem nodeCount_eq_iff_keepsAllFields (request : GatewayRequest) (cost : Int)
    (pieces : List Bytes) :
    ((forwardPieces (request.context cost) pieces).nodeOutputTokenCount =
        deltaCount pieces.flatten ∧
      wrap 32 (deltaCount pieces.flatten) = deltaCount pieces.flatten) ↔
      KeepsAllFields pieces ∧ deltaCount pieces.flatten < 2147483648 := by
  have hsum := sum_deltaCount pieces
  rw [nodeCount_forwardPieces (n := 0) (by rfl) pieces, ← hsum.2, Int.zero_add, wrap32_eq,
    wrap32_eq]
  omega

def firstPiece : Bytes :=
  ascii "data: \x7b\"choices\":[\x7b\"delta\":\x7b\"content\":\""

/-- A body with one field, cut behind its mark. -/
theorem nodeCount_ne_of_cut_field :
    (forwardPieces (GatewayRequest.context ⟨[], [], 0, [], [], [], 0, false, none⟩ 0)
        [firstPiece, ascii "hi\"\x7d\x7d]\x7d\n\n"]).nodeOutputTokenCount = 0 ∧
      deltaCount [firstPiece, ascii "hi\"\x7d\x7d]\x7d\n\n"].flatten = 1 := by
  decide +kernel

end TKNC.Gateway
