import Mathlib.Data.Nat.Init
import Mathlib.Logic.Basic
import Mathlib.Logic.Relation

/-!
# Runs of a step relation

A machine is a relation between its states before and after a step; several steps may be open in one
state.  The rules here carry a fact about one step to a whole run.

* `invariant` — what every step keeps holds in every state reached.
* `leadsTo` — if every state of a kind has reached a goal or leads to a state of the kind with a
  smaller measure, the goal is reached.
* `exists_stopped` — if every step makes a measure smaller, some run stops, and `not_forever`: all
  do.
-/

namespace Machine

variable {σ : Type*} {step : σ → σ → Prop}

/-- The second state is reached from the first in some number of steps. -/
abbrev Reaches (step : σ → σ → Prop) : σ → σ → Prop :=
  Relation.ReflTransGen step

/-- No step is open. -/
def Stopped (step : σ → σ → Prop) (s : σ) : Prop :=
  ∀ t, ¬ step s t

/-- **Invariant rule.** -/
theorem invariant {P : σ → Prop} (hstep : ∀ s t, P s → step s t → P t) {s t : σ} (hs : P s)
    (hreach : Reaches step s t) : P t := by
  induction hreach with
  | refl => exact hs
  | tail _ hlast ih => exact hstep _ _ ih hlast

/-- **Progress rule**, by strong induction on the measure. -/
theorem leadsTo {P Q : σ → Prop} (μ : σ → ℕ)
    (hstep : ∀ s, P s → Q s ∨ ∃ t, step s t ∧ (Q t ∨ P t ∧ μ t < μ s)) {s : σ} (hs : P s) :
    ∃ t, Reaches step s t ∧ Q t := by
  induction hn : μ s using Nat.strong_induction_on generalizing s with
  | _ n ih =>
      rcases hstep s hs with hgoal | ⟨t, hst, hgoal | ⟨ht, hlt⟩⟩
      · exact ⟨s, .refl, hgoal⟩
      · exact ⟨t, .single hst, hgoal⟩
      · rcases ih (μ t) (hn ▸ hlt) ht rfl with ⟨u, htu, hu⟩
        exact ⟨u, .head hst htu, hu⟩

section Decreasing

variable {P : σ → Prop} {μ : σ → ℕ} (hstep : ∀ s t, P s → step s t → P t ∧ μ t < μ s)
include hstep

/-- A run can be carried on until it stops. -/
theorem exists_stopped {s : σ} (hs : P s) : ∃ t, Reaches step s t ∧ Stopped step t := by
  refine leadsTo (P := P) μ (fun s hs => ?_) hs
  by_cases hstopped : Stopped step s
  · exact Or.inl hstopped
  · simp only [Stopped, not_forall, not_not] at hstopped
    rcases hstopped with ⟨t, hst⟩
    exact Or.inr ⟨t, hst, Or.inr (hstep s t hs hst)⟩

/-- No run goes on for ever. -/
theorem not_forever {run : ℕ → σ} (hs : P (run 0)) : ¬ ∀ n, step (run n) (run (n + 1)) := by
  intro hrun
  have hall : ∀ n, P (run n) ∧ μ (run n) + n ≤ μ (run 0) := by
    intro n
    induction n with
    | zero => exact ⟨hs, by omega⟩
    | succ n ih =>
        have h := hstep _ _ ih.1 (hrun n)
        exact ⟨h.1, by omega⟩
  have hlast := (hall (μ (run 0) + 1)).2
  omega

end Decreasing

end Machine
