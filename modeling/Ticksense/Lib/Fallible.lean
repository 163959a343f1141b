import Mathlib.Data.List.Basic

/-!
# Programs that raise and keep what they have done

A program over a state that may stop with an exception: unlike in a transaction, the exception does
not take back the changes made before it.

* `run` — outcome and final state, with the rule for a sequence (`run_bind`).
* `Ensures` — an invariant that holds whatever the outcome, and a postcondition of what is returned;
  one rule for each way of composing programs.
-/

/-- A program over the state `σ` that may raise an `ε`. -/
abbrev Fallible (σ ε : Type) := ExceptT ε (StateM σ)

namespace Fallible

variable {σ ε α β : Type}

/-- The outcome of a program, and the state in which it ends. -/
def run (p : Fallible σ ε α) (s : σ) : Except ε α × σ :=
  StateT.run (ExceptT.run p) s

/-- What a handler of all exceptions leaves behind: the state reached. -/
def settle (p : Fallible σ ε Unit) (s : σ) : σ :=
  (p.run s).2

@[simp] lemma run_pure (a : α) (s : σ) : run (pure a : Fallible σ ε α) s = (.ok a, s) := rfl

@[simp] lemma run_lift (x : Except ε α) (s : σ) : run (liftM x : Fallible σ ε α) s = (x, s) := rfl

@[simp] lemma run_modify (f : σ → σ) (s : σ) :
    run (modify f : Fallible σ ε PUnit) s = (.ok ⟨⟩, f s) := rfl

/-- A sequence goes on from the state reached, unless an exception was raised. -/
lemma run_bind (p : Fallible σ ε α) (f : α → Fallible σ ε β) (s : σ) :
    run (p >>= f) s =
      match run p s with
      | (.ok a, t) => run (f a) t
      | (.error e, t) => (.error e, t) := by
  simp only [run, ExceptT.run_bind, StateT.run_bind]
  rcases StateT.run (ExceptT.run p) s with ⟨outcome, t⟩
  cases outcome with
  | ok a => rfl
  | error e => rfl

/-! ## Invariant and postcondition -/

/-- Started with the invariant, the program ends with it, and what it returns has the
postcondition. -/
def Ensures (I : σ → Prop) (p : Fallible σ ε α) (Q : α → Prop) : Prop :=
  ∀ s, I s → I (p.run s).2 ∧ ∀ a, (p.run s).1 = .ok a → Q a

variable {I : σ → Prop} {p : Fallible σ ε α} {Q : α → Prop}

lemma Ensures.pure {a : α} (h : Q a) : Ensures I (pure a : Fallible σ ε α) Q := by
  intro s hs
  refine ⟨hs, ?_⟩
  rintro b hb
  cases hb
  exact h

/-- An expression that may raise does not touch the state. -/
lemma Ensures.lift {x : Except ε α} : Ensures I (liftM x : Fallible σ ε α) (x = .ok ·) :=
  fun _ hs => ⟨hs, fun _ ha => ha⟩

lemma Ensures.modify {f : σ → σ} (h : ∀ s, I s → I (f s)) :
    Ensures I (modify f : Fallible σ ε PUnit) fun _ => True :=
  fun s hs => ⟨h s hs, fun _ _ => trivial⟩

lemma Ensures.imp {R : α → Prop} (h : Ensures I p Q) (himp : ∀ a, Q a → R a) : Ensures I p R :=
  fun s hs => ⟨(h s hs).1, fun a ha => himp a ((h s hs).2 a ha)⟩

/-- **Sequence rule.** -/
theorem Ensures.bind {f : α → Fallible σ ε β} {R : β → Prop} (hp : Ensures I p Q)
    (hf : ∀ a, Q a → Ensures I (f a) R) : Ensures I (p >>= f) R := by
  intro s hs
  obtain ⟨hinv, hpost⟩ := hp s hs
  rw [run_bind]
  rcases hrun : p.run s with ⟨outcome, t⟩
  rw [hrun] at hinv hpost
  cases outcome with
  | ok a => exact hf a (hpost a rfl) t hinv
  | error e =>
      refine ⟨hinv, ?_⟩
      rintro b hb
      cases hb

/-- **Case rule**: what holds when the first part raises, and after the rest otherwise, holds of the
whole. -/
theorem Ensures.run_bind {f : α → Fallible σ ε β} {R : Except ε β × σ → Prop} (hp : Ensures I p Q)
    {s : σ} (hs : I s) (herror : ∀ e t, I t → R (.error e, t))
    (hok : ∀ a t, Q a → I t → R ((f a).run t)) : R (run (p >>= f) s) := by
  obtain ⟨hinv, hpost⟩ := hp s hs
  rw [Fallible.run_bind]
  rcases hrun : p.run s with ⟨outcome, t⟩
  rw [hrun] at hinv hpost
  cases outcome with
  | ok a => exact hok a t (hpost a rfl) hinv
  | error e => exact herror e t hinv

/-- **Loop rule**: the postcondition speaks about the items gone through. -/
theorem Ensures.foldlM {f : β → α → Fallible σ ε β} {P : List α → β → Prop}
    (hstep : ∀ done a b, P done b → Ensures I (f b a) (P (done ++ [a]))) {b : β} (hb : P [] b)
    (xs : List α) : Ensures I (xs.foldlM f b) (P xs) := by
  suffices H : ∀ xs done b, P done b → Ensures I (xs.foldlM f b) (P (done ++ xs)) from H xs [] b hb
  intro xs
  induction xs with
  | nil =>
      intro done b hb
      rw [List.append_nil]
      exact .pure hb
  | cons a xs ih =>
      intro done b hb
      rw [List.foldlM_cons]
      refine (hstep done a b hb).bind fun c hc => ?_
      rw [List.append_cons]
      exact ih (done ++ [a]) c hc

/-- The same rule for a loop without an accumulator. -/
theorem Ensures.forM {f : α → Fallible σ ε PUnit} (hf : ∀ a, Ensures I (f a) fun _ => True)
    (xs : List α) : Ensures I (forM xs f) fun _ => True := by
  induction xs with
  | nil => exact .pure trivial
  | cons a xs ih =>
      rw [List.forM_cons]
      exact (hf a).bind fun _ _ => ih

end Fallible
