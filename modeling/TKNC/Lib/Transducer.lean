import Mathlib.Data.List.Basic

/-!
# Transducer — machines that read a stream and write one

`run` feeds a stream to a machine symbol by symbol.  A program that takes the stream in segments is
compared with such a machine by a relation between their states: if every segment keeps it, then the
program writes what the machine writes, however the stream is cut (`Reads.segments`).
-/

namespace TKNC.Lib.Transducer

open List

variable {σ κ α β : Type*}

/-- A cut of a stream lies behind its first part, or inside it. -/
theorem append_cut {front later first rest : List α} (h : front ++ later = first ++ rest) :
    (∃ more, front = first ++ more ∧ more ++ later = rest) ∨
      ∃ more, more ≠ [] ∧ first = front ++ more := by
  rcases append_eq_append_iff.1 h with ⟨more, hfirst, hlater⟩ | ⟨more, hfront, hrest⟩
  · by_cases hmore : more = []
    · subst hmore
      rw [append_nil] at hfirst
      exact Or.inl ⟨[], by rw [append_nil, hfirst], hlater⟩
    · exact Or.inr ⟨more, hmore, hfirst⟩
  · exact Or.inl ⟨more, hfront, hrest.symm⟩

/-! ## Machines -/

def run (feed : σ → α → σ × List β) : σ → List α → σ × List β
  | s, [] => (s, [])
  | s, a :: input =>
      let r := run feed (feed s a).1 input
      (r.1, (feed s a).2 ++ r.2)

variable {feed : σ → α → σ × List β}

theorem run_append (s : σ) (u v : List α) :
    run feed s (u ++ v) =
      ((run feed (run feed s u).1 v).1, (run feed s u).2 ++ (run feed (run feed s u).1 v).2) := by
  induction u generalizing s with
  | nil => rfl
  | cons a u ih => simp only [cons_append, run, ih, append_assoc]

theorem run_trans {s s' s'' : σ} {u v : List α} {out out' : List β}
    (h : run feed s u = (s', out)) (h' : run feed s' v = (s'', out')) :
    run feed s (u ++ v) = (s'', out ++ out') := by
  rw [run_append, h, h']

theorem run_singleton (s : σ) (a : α) : run feed s [a] = feed s a := by
  rw [run, run, append_nil]

theorem run_of_absorbing {s : σ} (h : ∀ a, feed s a = (s, [])) (input : List α) :
    run feed s input = (s, []) := by
  induction input with
  | nil => rfl
  | cons a input ih => simp only [run, h, ih, append_nil]

theorem run_of_copying {s : σ} {feed : σ → α → σ × List α} (h : ∀ a, feed s a = (s, [a]))
    (input : List α) : run feed s input = (s, input) := by
  induction input with
  | nil => rfl
  | cons a input ih => simp only [run, h, ih, singleton_append]

/-- States that hand on a known number of symbols, counted down to `next`. -/
theorem run_countdown (feed : σ → α → σ × List α) (count : Nat → σ) (next : σ)
    (hzero : ∀ a, feed (count 0) a = (next, [a]))
    (hsucc : ∀ n a, feed (count (n + 1)) a = (count n, [a])) {input : List α} {n : Nat}
    (hlength : input.length ≤ n + 1) (hne : input ≠ []) :
    run feed (count n) input =
      (if input.length = n + 1 then next else count (n - input.length), input) := by
  induction input generalizing n with
  | nil => exact absurd rfl hne
  | cons a input ih =>
    cases n with
    | zero =>
      have hnil : input = [] := length_eq_zero_iff.1 (by simpa using hlength)
      rw [hnil, run_singleton, hzero]
      rfl
    | succ n =>
      simp only [run, hsucc]
      by_cases hnil : input = []
      · subst hnil
        simp [run]
      · rw [ih (by simpa using hlength) hnil]
        simp

theorem run_countdown_take (feed : σ → α → σ × List α) (count : Nat → σ) (next : σ)
    (hzero : ∀ a, feed (count 0) a = (next, [a]))
    (hsucc : ∀ n a, feed (count (n + 1)) a = (count n, [a])) (n : Nat) (a : α) (rest : List α)
    {avail : Nat} (havail : avail = min (rest.length + 1) (n + 1)) :
    run feed (count n) ((a :: rest).take avail) =
      (if n + 1 - avail = 0 then next else count (n - avail), (a :: rest).take avail) := by
  have hlength : ((a :: rest).take avail).length = avail := by
    rw [length_take, length_cons]
    omega
  have hne : (a :: rest).take avail ≠ [] := by
    rw [← length_pos_iff]
    omega
  rw [run_countdown feed count next hzero hsucc (by omega) hne, hlength]
  congr 1
  by_cases hall : avail = n + 1
  · rw [if_pos hall, if_pos (by omega)]
  · rw [if_neg hall, if_neg (by omega)]

/-- Reading a segment keeps the relation and writes what the machine writes. -/
def Reads (read : κ → List α → κ × List β) (feed : σ → α → σ × List β) (R : κ → σ → Prop) : Prop :=
  ∀ k s segment, R k s →
    R (read k segment).1 (run feed s segment).1 ∧ (read k segment).2 = (run feed s segment).2

theorem Reads.segments {read : κ → List α → κ × List β} {R : κ → σ → Prop}
    (hread : Reads read feed R) {k : κ} {s : σ} (h : R k s) (segments : List (List α)) :
    R (run read k segments).1 (run feed s segments.flatten).1 ∧
      (run read k segments).2 = (run feed s segments.flatten).2 := by
  induction segments generalizing k s with
  | nil => exact ⟨h, rfl⟩
  | cons segment segments ih =>
    have hsegment := hread k s segment h
    have hrest := ih hsegment.1
    rw [flatten_cons, run_append, run]
    exact ⟨hrest.1, congrArg₂ (· ++ ·) hsegment.2 hrest.2⟩

end TKNC.Lib.Transducer
