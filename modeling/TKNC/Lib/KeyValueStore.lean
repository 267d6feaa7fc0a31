import Mathlib.Algebra.Order.Ring.Nat
import Mathlib.Data.List.Lex
import Mathlib.Data.List.Nodup
import TKNC.Lib.OrderedMap

/-!
# KeyValueStore — batches and range scans

An ordered store is written in batches: a list of writes and removals that takes effect as a whole,
in order.  It is read by scans: the iterator is placed at the first key that is not below a bound,
and moves on while the keys belong to the range.  A scan reads all keys of its range and no others
if the range is an interval that starts at the bound; the serialised keys with a common beginning
are one.
-/

namespace TKNC.Lib

namespace OrderedMap

open List

variable {K V : Type} [LinearOrder K]

inductive BatchOp (K V : Type) where
  | write (k : K) (v : V)
  | erase (k : K)

def applyOp (m : OrderedMap K V) : BatchOp K V → OrderedMap K V
  | .write k v => m.insert k v
  | .erase k => m.erase k

def writeBatch (m : OrderedMap K V) (batch : List (BatchOp K V)) : OrderedMap K V :=
  batch.foldl applyOp m

theorem writeBatch_append (m : OrderedMap K V) (batch batch' : List (BatchOp K V)) :
    m.writeBatch (batch ++ batch') = (m.writeBatch batch).writeBatch batch' :=
  foldl_append

theorem get?_writeBatch_erase (m : OrderedMap K V) (keys : List K) (k : K) :
    (m.writeBatch (keys.map .erase)).get? k = if k ∈ keys then none else m.get? k := by
  induction keys generalizing m with
  | nil => rfl
  | cons key keys ih =>
    have hstep : m.writeBatch ((key :: keys).map .erase) =
        (m.erase key).writeBatch (keys.map .erase) := rfl
    rw [hstep, ih, get?_erase]
    by_cases hmem : k ∈ keys
    · simp [hmem]
    · by_cases hkey : k = key
      · simp [hkey]
      · simp [hmem, hkey]

section Writes

variable {pairs : List (K × V)} {k : K} {v : V}

theorem get?_writeBatch_of_notMem (m : OrderedMap K V) (h : k ∉ pairs.map Prod.fst) :
    (m.writeBatch (pairs.map fun e => .write e.1 e.2)).get? k = m.get? k := by
  induction pairs generalizing m with
  | nil => rfl
  | cons e pairs ih =>
    rw [map_cons, mem_cons, not_or] at h
    exact (ih (m.insert e.1 e.2) h.2).trans (get?_insert_of_ne h.1)

theorem get?_writeBatch_of_agree (m : OrderedMap K V) (hmem : k ∈ pairs.map Prod.fst)
    (hagree : ∀ e ∈ pairs, e.1 = k → e.2 = v) :
    (m.writeBatch (pairs.map fun e => .write e.1 e.2)).get? k = some v := by
  induction pairs generalizing m with
  | nil => cases hmem
  | cons e pairs ih =>
    obtain ⟨hfirst, hrest⟩ := forall_mem_cons.1 hagree
    by_cases hlater : k ∈ pairs.map Prod.fst
    · exact ih (m.insert e.1 e.2) hlater hrest
    · have hkey : k = e.1 := by
        rcases mem_cons.1 hmem with hkey | hmem
        · exact hkey
        · exact absurd hmem hlater
      refine (get?_writeBatch_of_notMem (m.insert e.1 e.2) hlater).trans ?_
      rw [hkey, get?_insert_self, hfirst hkey.symm]

theorem get?_writeBatch_of_mem (m : OrderedMap K V) (hnodup : (pairs.map Prod.fst).Nodup)
    (h : (k, v) ∈ pairs) :
    (m.writeBatch (pairs.map fun e => .write e.1 e.2)).get? k = some v := by
  apply get?_writeBatch_of_agree m (mem_map_of_mem h)
  intro e hmem hkey
  exact congrArg Prod.snd (inj_on_of_nodup_map hnodup hmem h hkey)

end Writes

/-! ## Scans -/

/-- The entries that are read from the first key not `before` the bound, while `inRange` holds. -/
def scan (m : OrderedMap K V) (before inRange : K → Bool) : List (K × V) :=
  (m.entries.dropWhile fun e => before e.1).takeWhile fun e => inRange e.1

/-- The keys in range lie together, directly after the keys before the bound. -/
structure IsRange (before inRange : K → Bool) : Prop where
  down : ∀ k k', k < k' → before k' = true → before k = true
  above : ∀ k, inRange k = true → before k = false
  first : ∀ k k', k < k' → before k = false → inRange k' = true → inRange k = true

theorem takeWhile_eq_filter {before inRange : K → Bool} (h : IsRange before inRange)
    {l : List (K × V)} (hsorted : l.Pairwise (fun a b => a.1 < b.1))
    (habove : ∀ e ∈ l, before e.1 = false) :
    (l.takeWhile fun e => inRange e.1) = l.filter fun e => inRange e.1 := by
  induction l with
  | nil => rfl
  | cons e l ih =>
    rcases pairwise_cons.1 hsorted with ⟨hhead, htail⟩
    have hrest := ih htail fun e' hmem => habove e' (mem_cons_of_mem e hmem)
    by_cases hin : inRange e.1 = true
    · simp only [takeWhile_cons, filter_cons, hin, if_true, hrest]
    · -- behind a key that is past the range there is no key of the range
      have hnone : ∀ e' ∈ l, ¬ inRange e'.1 = true := by
        intro e' hmem hin'
        exact hin (h.first e.1 e'.1 (hhead e' hmem) (habove e mem_cons_self) hin')
      simp only [takeWhile_cons, filter_cons, hin, filter_eq_nil_iff.2 hnone,
        Bool.false_eq_true, if_false]

theorem scan_eq_filter {before inRange : K → Bool} (h : IsRange before inRange)
    (m : OrderedMap K V) : m.scan before inRange = m.entries.filter fun e => inRange e.1 := by
  have hlist : ∀ l : List (K × V), l.Pairwise (fun a b => a.1 < b.1) →
      ((l.dropWhile fun e => before e.1).takeWhile fun e => inRange e.1) =
        l.filter fun e => inRange e.1 := by
    intro l hsorted
    induction l with
    | nil => rfl
    | cons e l ih =>
      rcases pairwise_cons.1 hsorted with ⟨hhead, htail⟩
      cases hbefore : before e.1 with
      | true =>
        have hin : ¬ inRange e.1 = true := by
          intro hin
          rw [h.above e.1 hin] at hbefore
          cases hbefore
        simp only [dropWhile_cons, filter_cons, hbefore, hin, if_true,
          Bool.false_eq_true, if_false]
        exact ih htail
      | false =>
        simp only [dropWhile_cons, hbefore, Bool.false_eq_true, if_false]
        apply takeWhile_eq_filter h hsorted
        intro e' hmem
        rcases mem_cons.1 hmem with rfl | hmem
        · exact hbefore
        · cases hbefore' : before e'.1 with
          | false => rfl
          | true => exact (h.down e.1 e'.1 (hhead e' hmem) hbefore').symm.trans hbefore
  exact hlist m.entries m.sorted

end OrderedMap

namespace ByteOrder

def littleEndian : Nat → Nat → List Nat
  | 0, _ => []
  | w + 1, n => n % 256 :: littleEndian w (n / 256)

@[simp] theorem length_littleEndian (w n : Nat) : (littleEndian w n).length = w := by
  induction w generalizing n with
  | zero => rfl
  | succ w ih => simp [littleEndian, ih]

theorem littleEndian_inj {w m n : Nat} (hm : m < 256 ^ w) (hn : n < 256 ^ w)
    (h : littleEndian w m = littleEndian w n) : m = n := by
  induction w generalizing m n with
  | zero => omega
  | succ w ih =>
    rw [Nat.pow_succ] at hm hn
    have hcons := List.cons.inj h
    have hquot : m / 256 = n / 256 := ih (by omega) (by omega) hcons.2
    omega

/-- Among the words that are not below `p`, those that begin with `p` come first. -/
theorem beginsWith_of_lt {p x y : List Nat} (hnot : ¬ x < p) (hlt : x < y) (hy : p <+: y) :
    p <+: x := by
  induction p generalizing x y with
  | nil => exact ⟨x, rfl⟩
  | cons a p ih =>
    rcases hy with ⟨y', rfl⟩
    cases x with
    | nil => exact absurd (List.nil_lt_cons a p) hnot
    | cons b x =>
      rw [List.cons_append, List.cons_lt_cons_iff] at hlt
      rw [List.cons_lt_cons_iff] at hnot
      rcases hlt with hlt | ⟨rfl, hlt⟩
      · exact absurd (Or.inl hlt) hnot
      · rw [List.prefix_cons_inj]
        exact ih (fun hlt' => hnot (Or.inr ⟨rfl, hlt'⟩)) hlt (List.prefix_append p y')

theorem not_lt_of_beginsWith {p x : List Nat} (h : p <+: x) : ¬ x < p := by
  rcases h with ⟨y, rfl⟩
  induction p with
  | nil => exact List.not_lt_nil y
  | cons a p ih =>
    rw [List.cons_append, List.cons_lt_cons_iff]
    rintro (hlt | ⟨_, hlt⟩)
    · exact lt_irrefl a hlt
    · exact ih hlt

end ByteOrder

end TKNC.Lib
