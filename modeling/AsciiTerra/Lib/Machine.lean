import Mathlib

/-!
# Machines with labelled steps

A machine is a partial step function on states and labels: `none` where the label is
not enabled. A run is a list of labels. The invariant rule carries a property through
a run, also of runs all of whose steps meet a condition, and a measure that every step
decreases brings each run to a state where no label is enabled.
-/

set_option autoImplicit false

universe u v

namespace Machine
variable {σ : Type u} {ε : Type v} (step : σ → ε → Option σ)

/-- The state after a list of labels, when each is enabled in turn. -/
def run : σ → List ε → Option σ
  | s, [] => some s
  | s, e :: es => (step s e).bind fun s' => run s' es

/-- Every step of the run meets the condition. -/
def Along (P : σ → ε → Prop) : σ → List ε → Prop
  | _, [] => True
  | s, e :: es => P s e ∧ ∀ s', step s e = some s' → Along P s' es

instance decidableAlong (P : σ → ε → Prop) [∀ s e, Decidable (P s e)] :
    (s : σ) → (es : List ε) → Decidable (Along step P s es)
  | _, [] => .isTrue trivial
  | s, e :: es =>
    match hs : step s e with
    | none => decidable_of_iff (P s e) ⟨fun h => ⟨h, fun s' hs' => by simp [hs] at hs'⟩, And.left⟩
    | some t =>
      have := decidableAlong P t es
      decidable_of_iff (P s e ∧ Along step P t es)
        ⟨fun h => ⟨h.1, fun s' hs' => by cases hs.symm.trans hs'; exact h.2⟩,
          fun h => ⟨h.1, h.2 t hs⟩⟩

def Stuck (s : σ) : Prop := ∀ e, step s e = none

variable {step} {s t u : σ} {es fs : List ε} {e : ε}

@[simp] theorem run_nil : run step s [] = some s := rfl

theorem run_cons_eq_some :
    run step s (e :: es) = some t ↔ ∃ s', step s e = some s' ∧ run step s' es = some t :=
  Option.bind_eq_some_iff

theorem run_append_eq_some :
    run step s (es ++ fs) = some u ↔ ∃ t, run step s es = some t ∧ run step t fs = some u := by
  induction es generalizing s with
  | nil => simp
  | cons e es ih =>
    rw [List.cons_append, run_cons_eq_some]
    constructor
    · rintro ⟨s', hs', h⟩
      obtain ⟨t, ht, hu⟩ := ih.mp h
      exact ⟨t, run_cons_eq_some.mpr ⟨s', hs', ht⟩, hu⟩
    · rintro ⟨t, ht, hu⟩
      obtain ⟨s', hs', h⟩ := run_cons_eq_some.mp ht
      exact ⟨s', hs', ih.mpr ⟨t, h, hu⟩⟩

theorem Along.mono {P Q : σ → ε → Prop} (h : Along step P s es) (hPQ : ∀ s e, P s e → Q s e) :
    Along step Q s es := by
  induction es generalizing s with
  | nil => trivial
  | cons e es ih => exact ⟨hPQ s e h.1, fun s' hs' => ih (h.2 s' hs')⟩

/-- The invariant rule for runs whose steps all meet a condition. -/
theorem invariant_along {I : σ → Prop} {P : σ → ε → Prop}
    (hstep : ∀ s e s', I s → P s e → step s e = some s' → I s') (hs : I s)
    (halong : Along step P s es) (h : run step s es = some t) : I t := by
  induction es generalizing s with
  | nil =>
    cases h
    exact hs
  | cons e es ih =>
    obtain ⟨s', hs', h⟩ := run_cons_eq_some.mp h
    exact ih (hstep s e s' hs halong.1 hs') (halong.2 s' hs') h

/-- The invariant rule. -/
theorem invariant {I : σ → Prop} (hstep : ∀ s e s', I s → step s e = some s' → I s')
    (hs : I s) (h : run step s es = some t) : I t := by
  induction es generalizing s with
  | nil =>
    cases h
    exact hs
  | cons e es ih =>
    obtain ⟨s', hs', h⟩ := run_cons_eq_some.mp h
    exact ih (hstep s e s' hs hs') h

/-- The invariant rule with the labels of the run, when the condition on these holds of every
prefix. -/
theorem invariant_history {I : List ε → σ → Prop} {P : List ε → Prop}
    (hinit : ∀ es e, P (es ++ [e]) → P es)
    (hstep : ∀ es e s s', P (es ++ [e]) → I es s → step s e = some s' → I (es ++ [e]) s')
    (hs : I [] s) (hP : P es) (h : run step s es = some t) : I es t := by
  induction es using List.reverseRecOn generalizing t with
  | nil =>
    cases h
    exact hs
  | append_singleton es e ih =>
    obtain ⟨u, hu, h⟩ := run_append_eq_some.mp h
    obtain ⟨v, hv, h⟩ := run_cons_eq_some.mp h
    cases h
    exact hstep es e u _ hP (ih (hinit es e hP) hu) hv

/-- Two conditions that agree on the steps from invariant states agree on runs. -/
theorem along_iff {I : σ → Prop} {P Q : σ → ε → Prop}
    (hiff : ∀ s e s', I s → step s e = some s' → (P s e ↔ Q s e))
    (hstep : ∀ s e s', I s → Q s e → step s e = some s' → I s') (hs : I s)
    (h : run step s es = some t) : Along step P s es ↔ Along step Q s es := by
  induction es generalizing s with
  | nil => exact Iff.rfl
  | cons e es ih =>
    obtain ⟨s₁, hs₁, hrun⟩ := run_cons_eq_some.mp h
    have hone := hiff s e s₁ hs hs₁
    constructor
    · rintro ⟨hP, hrest⟩
      refine ⟨hone.mp hP, fun s' hs' => ?_⟩
      cases hs₁.symm.trans hs'
      exact (ih (hstep s e s₁ hs (hone.mp hP) hs₁) hrun).mp (hrest s₁ hs₁)
    · rintro ⟨hQ, hrest⟩
      refine ⟨hone.mpr hQ, fun s' hs' => ?_⟩
      cases hs₁.symm.trans hs'
      exact (ih (hstep s e s₁ hs hQ hs₁) hrun).mpr (hrest s₁ hs₁)

/-- Steps that decrease a measure come to an end. -/
theorem exists_stuck {I : σ → Prop} (μ : σ → Nat)
    (hstep : ∀ s e s', I s → step s e = some s' → I s' ∧ μ s' < μ s) (hs : I s) :
    ∃ es t, run step s es = some t ∧ Stuck step t := by
  induction hn : μ s using Nat.strongRecOn generalizing s with
  | ind n ih =>
    by_cases hstuck : Stuck step s
    · exact ⟨[], s, rfl, hstuck⟩
    · obtain ⟨e, he⟩ := not_forall.mp hstuck
      obtain ⟨s', hs'⟩ := Option.ne_none_iff_exists'.mp he
      obtain ⟨hI, hlt⟩ := hstep s e s' hs hs'
      obtain ⟨es, t, hrun, ht⟩ := ih (μ s') (hn ▸ hlt) hI rfl
      exact ⟨e :: es, t, run_cons_eq_some.mpr ⟨s', hs', hrun⟩, ht⟩

end Machine
