import Mathlib.Data.List.Induction

/-!
# Two loops in lockstep

A loop over a list whose body may raise stops at the first element that does.  Two such loops over
the same list, with bodies that agree, end in related states or stop at the same element.

* `Agree` — two results agree: both are values in one relation, or both are exceptions in another.
  `Agree.bind` and `Agree.foldlM` are the rules for a sequence and for a loop.
* `StopsAt` — the element at which a run stops.  A run that raises has one (`stopsAt_of_error`), and
  runs that agree on every list have the same (`StopsAt.of_agree`).
-/

namespace Lockstep

universe u v

variable {α ε δ : Type*} {σ σ' : Type u} {τ τ' : Type v}

/-! ## Agreement -/

/-- Both results are values related by `R`, or both are exceptions related by `Q`. -/
inductive Agree (R : σ → τ → Prop) (Q : ε → δ → Prop) : Except ε σ → Except δ τ → Prop
  | ok {s : σ} {t : τ} (h : R s t) : Agree R Q (.ok s) (.ok t)
  | error {e : ε} {d : δ} (h : Q e d) : Agree R Q (.error e) (.error d)

variable {R : σ → τ → Prop} {Q : ε → δ → Prop}

/-- A value agrees with values only. -/
lemma Agree.of_ok {s : σ} {y : Except δ τ} (h : Agree R Q (.ok s) y) : ∃ t, y = .ok t ∧ R s t := by
  cases h with
  | ok h => exact ⟨_, rfl, h⟩

/-- An exception agrees with exceptions only. -/
lemma Agree.of_error {e : ε} {y : Except δ τ} (h : Agree R Q (.error e) y) :
    ∃ d, y = .error d ∧ Q e d := by
  cases h with
  | error h => exact ⟨_, rfl, h⟩

/-- **Sequence rule.** -/
theorem Agree.bind {R' : σ' → τ' → Prop} {x : Except ε σ} {y : Except δ τ}
    {f : σ → Except ε σ'} {g : τ → Except δ τ'} (hxy : Agree R Q x y)
    (hfg : ∀ s t, R s t → Agree R' Q (f s) (g t)) : Agree R' Q (x >>= f) (y >>= g) := by
  cases hxy with
  | ok h => exact hfg _ _ h
  | error h => exact .error h

/-- **Loop rule**: bodies that agree on every element make loops that agree. -/
theorem Agree.foldlM {f : σ → α → Except ε σ} {g : τ → α → Except δ τ} {xs : List α}
    (hfg : ∀ x ∈ xs, ∀ s t, R s t → Agree R Q (f s x) (g t x)) {s : σ} {t : τ} (hst : R s t) :
    Agree R Q (xs.foldlM f s) (xs.foldlM g t) := by
  induction xs generalizing s t with
  | nil => exact .ok hst
  | cons x xs ih =>
      rw [List.foldlM_cons, List.foldlM_cons]
      refine (hfg x List.mem_cons_self s t hst).bind fun s' t' hst' => ?_
      exact ih (fun y hy => hfg y (List.mem_cons_of_mem _ hy)) hst'

/-! ## Where a run stops -/

section Runs

variable {run : List α → Except ε σ}

/-- An exception is final: whatever comes after it is not looked at. -/
def Final (run : List α → Except ε σ) : Prop :=
  ∀ xs ys e, run xs = .error e → run (xs ++ ys) = .error e

/-- The run gets past the first `i` elements and raises on the next, which ends it. -/
structure StopsAt (run : List α → Except ε σ) (xs : List α) (i : ℕ) (e : ε) : Prop where
  lt_length : i < xs.length
  before : ∃ s, run (xs.take i) = .ok s
  raises : run (xs.take (i + 1)) = .error e
  whole : run xs = .error e

/-- A loop is final. -/
lemma final_foldlM (f : σ → α → Except ε σ) (s : σ) : Final (List.foldlM f s) := by
  intro xs ys e h
  rw [List.foldlM_append, h]
  rfl

/-- Two loops one after the other, the second over what the first has left, are final. -/
lemma final_foldlM_foldlM (f g : σ → α → Except ε σ) (s : σ) (k : ℕ) :
    Final fun xs => (xs.take k).foldlM f s >>= (xs.drop k).foldlM g := by
  intro xs ys e h
  simp only at h ⊢
  cases hfirst : (xs.take k).foldlM f s with
  | error d =>
      rw [hfirst] at h
      rw [List.take_append, final_foldlM f s _ _ d hfirst]
      exact h
  | ok t =>
      rw [hfirst] at h
      -- the second loop has run, so the first one has seen all of its `k` elements
      have hlong : k ≤ xs.length := by
        by_contra hshort
        rw [List.drop_eq_nil_of_le (by omega)] at h
        cases h
      rw [List.take_append_of_le_length hlong, hfirst, List.drop_append_of_le_length hlong]
      exact final_foldlM g t _ _ e h

/-- **A final run that raises stops somewhere**, by induction from the end of the list: the last
element raises, or the run has stopped before it. -/
theorem stopsAt_of_error (hfinal : Final run) (hnil : ∃ s, run [] = .ok s) {xs : List α} {e : ε}
    (h : run xs = .error e) : ∃ i, StopsAt run xs i e := by
  induction xs using List.reverseRecOn with
  | nil =>
      obtain ⟨s, hs⟩ := hnil
      rw [hs] at h
      cases h
  | append_singleton xs x ih =>
      cases hxs : run xs with
      | error d =>
          cases (hfinal xs [x] d hxs).symm.trans h
          obtain ⟨i, hi⟩ := ih hxs
          have hlt := hi.lt_length
          refine ⟨i, ?_, ?_, ?_, h⟩
          · rw [List.length_append]
            omega
          · rw [List.take_append_of_le_length (Nat.le_of_lt hlt)]
            exact hi.before
          · rw [List.take_append_of_le_length hlt]
            exact hi.raises
      | ok s =>
          refine ⟨xs.length, ?_, ⟨s, ?_⟩, ?_, h⟩
          · rw [List.length_append]
            exact Nat.lt_succ_self _
          · rw [List.take_left]
            exact hxs
          · rw [List.take_of_length_le (by simp)]
            exact h

/-- **Runs that agree stop at the same element.** -/
theorem StopsAt.of_agree {run' : List α → Except δ τ} (hfinal : Final run')
    (hagree : ∀ ys, Agree R Q (run ys) (run' ys)) {xs : List α} {i : ℕ} {e : ε}
    (h : StopsAt run xs i e) : ∃ d, Q e d ∧ StopsAt run' xs i d := by
  obtain ⟨s, hs⟩ := h.before
  have hbefore := hagree (xs.take i)
  rw [hs] at hbefore
  obtain ⟨t, ht, _⟩ := hbefore.of_ok
  have hraises := hagree (xs.take (i + 1))
  rw [h.raises] at hraises
  obtain ⟨d, hd, hQ⟩ := hraises.of_error
  have hwhole := hfinal _ (xs.drop (i + 1)) d hd
  rw [List.take_append_drop] at hwhole
  exact ⟨d, hQ, h.lt_length, ⟨t, ht⟩, hd, hwhole⟩

end Runs

end Lockstep
