import Mathlib.Data.List.Basic

/-!
# Fallible — computations that may fail

How a sequence of fallible computations succeeds: all of its parts do.  `runs` makes calls on a store
and collects the answers; a store that simulates another one gives the same answers.
-/

namespace TKNC.Lib.Fallible

theorem bind_eq_ok {ε α β : Type} {x : Except ε α} {f : α → Except ε β} {b : β} :
    x >>= f = .ok b ↔ ∃ a, x = .ok a ∧ f a = .ok b := by
  cases x with
  | error error => exact iff_of_false nofun nofun
  | ok a => simp [bind, Except.bind]

theorem toOption_eq_some {ε α : Type} {x : Except ε α} {a : α} :
    x.toOption = some a ↔ x = .ok a := by
  cases x with
  | error error => exact iff_of_false nofun nofun
  | ok a => simp [Except.toOption]

section MapM

variable {α β : Type} {f : α → Option β} {l : List α}

theorem mapM_eq_filterMap (h : ∀ a ∈ l, ∃ b, f a = some b) : l.mapM f = some (l.filterMap f) := by
  induction l with
  | nil => rfl
  | cons a l ih =>
    rcases h a List.mem_cons_self with ⟨b, hb⟩
    simp [hb, ih fun a' hmem => h a' (List.mem_cons_of_mem a hmem)]

theorem mapM_eq_map {g : α → β} (h : ∀ a ∈ l, f a = some (g a)) : l.mapM f = some (l.map g) := by
  rw [mapM_eq_filterMap fun a hmem => ⟨g a, h a hmem⟩, ← List.filterMap_eq_map,
    List.filterMap_congr h]
  rfl

end MapM

section Runs

variable {σ τ κ ρ ε : Type}

def runs (step : σ → κ → Except ε (ρ × σ)) : σ → List κ → Except ε (List ρ × σ)
  | s, [] => .ok ([], s)
  | s, c :: calls => do
      let r ← step s c
      let rs ← runs step r.2 calls
      .ok (r.1 :: rs.1, rs.2)

variable {step : σ → κ → Except ε (ρ × σ)} {step' : τ → κ → Except ε (ρ × τ)} {s mid s' : σ}

theorem runs_cons_eq_ok {c : κ} {calls : List κ} {answers : List ρ} :
    runs step s (c :: calls) = .ok (answers, s') ↔ ∃ r mid rs, step s c = .ok (r, mid) ∧
      runs step mid calls = .ok (rs, s') ∧ answers = r :: rs := by
  constructor
  · intro h
    obtain ⟨⟨r, mid⟩, hcall, hrest⟩ := bind_eq_ok.1 h
    obtain ⟨⟨rs, last⟩, hcalls, hlast⟩ := bind_eq_ok.1 hrest
    cases hlast
    exact ⟨r, mid, rs, hcall, hcalls, rfl⟩
  · rintro ⟨r, mid, rs, hcall, hcalls, rfl⟩
    exact bind_eq_ok.2 ⟨(r, mid), hcall, bind_eq_ok.2 ⟨(rs, s'), hcalls, rfl⟩⟩

theorem runs_append {calls later : List κ} (h : ∃ rs, runs step s calls = .ok (rs, mid))
    (hlater : ∃ rs, runs step mid later = .ok (rs, s')) :
    ∃ rs, runs step s (calls ++ later) = .ok (rs, s') := by
  obtain ⟨rs, h⟩ := h
  induction calls generalizing s rs with
  | nil =>
    cases h
    exact hlater
  | cons c calls ih =>
    obtain ⟨r, next, rs, hcall, hcalls, rfl⟩ := runs_cons_eq_ok.1 h
    obtain ⟨rs', hall⟩ := ih rs hcalls
    exact ⟨r :: rs', runs_cons_eq_ok.2 ⟨r, next, rs', hcall, hall, rfl⟩⟩

/-- A store that has a state for each state of another one, and gives the same answers there,
handles the calls that the other one handles. -/
theorem runs_simulates {R : τ → σ → Prop}
    (hstep : ∀ {t s c r s'}, R t s → step s c = .ok (r, s') →
      ∃ t', step' t c = .ok (r, t') ∧ R t' s')
    {calls : List κ} {answers : List ρ} {t : τ} (hR : R t s)
    (h : runs step s calls = .ok (answers, s')) :
    ∃ t', runs step' t calls = .ok (answers, t') ∧ R t' s' := by
  induction calls generalizing s t answers with
  | nil =>
    cases h
    exact ⟨t, rfl, hR⟩
  | cons c calls ih =>
    obtain ⟨r, mid, rs, hcall, hcalls, rfl⟩ := runs_cons_eq_ok.1 h
    obtain ⟨mid', hcall', hmid⟩ := hstep hR hcall
    obtain ⟨t', hcalls', hlast⟩ := ih hmid hcalls
    exact ⟨t', runs_cons_eq_ok.2 ⟨r, mid', rs, hcall', hcalls', rfl⟩, hlast⟩

end Runs

end TKNC.Lib.Fallible
