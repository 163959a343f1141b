import Mathlib.Data.List.Basic
import Mathlib.Data.List.Forall2
import Mathlib.Logic.Function.Basic

/-!
# Machines that read a stream and write a stream

A step takes a state and an input to a new state and the outputs emitted on the way, or stops with
an error.  `run` iterates it.  This file is the small calculus that reasoning about such machines
needs, and nothing of it depends on what the machine does:

* `run_cons_ok` — what a successful run consists of.
* `run_withCopies` — re-delivering inputs that the machine has absorbed changes neither its state
  nor its output.
* `keyed` — one machine per key.
* `runPure` — a run without errors, with `run_map_eq_runPure` to get there, and `keyedPure_state`:
  the state under a key is the run of that key's own inputs.
* `runPure_above`, `runPure_pairwise` — outputs that rise with the state.
-/

namespace Transducer

variable {ε σ ι ο : Type*}

/-- Feed the inputs in order; the outputs are concatenated, the first error stops the run. -/
def run (step : σ → ι → Except ε (σ × List ο)) : σ → List ι → Except ε (σ × List ο)
  | s, [] => .ok (s, [])
  | s, i :: is =>
      match step s i with
      | .error e => .error e
      | .ok (s', o) =>
          match run step s' is with
          | .error e => .error e
          | .ok (s'', os) => .ok (s'', o ++ os)

section Runs

variable {step : σ → ι → Except ε (σ × List ο)}

@[simp] lemma run_nil (s : σ) : run step s [] = .ok (s, []) := rfl

/-- A successful run of a non-empty input is a successful step and a successful rest. -/
lemma run_cons_ok {s s'' : σ} {i : ι} {is : List ι} {os : List ο} :
    run step s (i :: is) = .ok (s'', os) ↔
      ∃ s' o os', step s i = .ok (s', o) ∧ run step s' is = .ok (s'', os') ∧ os = o ++ os' := by
  constructor
  · intro h
    unfold run at h
    cases hs : step s i with
    | error e => simp [hs] at h
    | ok r =>
        obtain ⟨s', o⟩ := r
        simp only [hs] at h
        cases hr : run step s' is with
        | error e => simp [hr] at h
        | ok r =>
            obtain ⟨t, os'⟩ := r
            simp only [hr, Except.ok.injEq, Prod.mk.injEq] at h
            obtain ⟨rfl, rfl⟩ := h
            exact ⟨s', o, os', rfl, hr, rfl⟩
  · rintro ⟨s', o, os', hs, hr, rfl⟩
    simp [run, hs, hr]

/-- Running a step that stays where it is and emits nothing is running the rest. -/
lemma run_cons_stutter {s : σ} {i : ι} (h : step s i = .ok (s, [])) (is : List ι) :
    run step s (i :: is) = run step s is := by
  simp only [run, h, List.nil_append]
  cases run step s is <;> rfl

lemma run_singleton_ok {s s' : σ} {i : ι} {o : List ο} (h : step s i = .ok (s', o)) :
    run step s [i] = .ok (s', o) := by
  simp [run, h]

/-- Two runs, one after the other. -/
lemma run_append_ok {s s' s'' : σ} {is js : List ι} {os os' : List ο}
    (h : run step s is = .ok (s', os)) (h' : run step s' js = .ok (s'', os')) :
    run step s (is ++ js) = .ok (s'', os ++ os') := by
  induction is generalizing s os with
  | nil =>
      cases h
      exact h'
  | cons i is ih =>
      obtain ⟨t, o, os₁, hstep, hrest, rfl⟩ := run_cons_ok.mp h
      rw [List.cons_append, List.append_assoc]
      exact run_cons_ok.mpr ⟨t, o, os₁ ++ os', hstep, ih hrest, rfl⟩

/-- No input of a successful run failed. -/
lemma run_ok_step {s s' : σ} {is : List ι} {os : List ο} (h : run step s is = .ok (s', os)) {i : ι}
    (hi : i ∈ is) : ∃ t r, step t i = .ok r := by
  induction is generalizing s os with
  | nil => cases hi
  | cons j is ih =>
      obtain ⟨t, o, os', hstep, hrest, _⟩ := run_cons_ok.mp h
      rcases List.mem_cons.mp hi with rfl | hi
      · exact ⟨s, _, hstep⟩
      · exact ih hrest hi

/-- What every successful step keeps holds after a successful run. -/
theorem run_invariant (Inv : σ → Prop) {s s' : σ} {is : List ι} {os : List ο}
    (hstep : ∀ s, ∀ i ∈ is, ∀ s' o, Inv s → step s i = .ok (s', o) → Inv s') (hs : Inv s)
    (h : run step s is = .ok (s', os)) : Inv s' := by
  induction is generalizing s os with
  | nil =>
      cases h
      exact hs
  | cons i is ih =>
      obtain ⟨t, o, os', hi, hrest, _⟩ := run_cons_ok.mp h
      refine ih (fun s j hj => hstep s j (List.mem_cons_of_mem i hj)) ?_ hrest
      exact hstep s i List.mem_cons_self t o hs hi

/-- Every output of a successful run was written by some successful step. -/
lemma mem_run {s s' : σ} {is : List ι} {os : List ο} (h : run step s is = .ok (s', os)) {o : ο}
    (ho : o ∈ os) : ∃ i ∈ is, ∃ t t' os', step t i = .ok (t', os') ∧ o ∈ os' := by
  induction is generalizing s os with
  | nil =>
      cases h
      cases ho
  | cons i is ih =>
      obtain ⟨t, o', os', hi, hrest, rfl⟩ := run_cons_ok.mp h
      rcases List.mem_append.mp ho with ho | ho
      · exact ⟨i, List.mem_cons_self, s, t, o', hi, ho⟩
      · obtain ⟨j, hj, hwrote⟩ := ih hrest ho
        exact ⟨j, List.mem_cons_of_mem i hj, hwrote⟩

section RunAbove

variable (Above : σ → ο → Prop)
  (hout : ∀ s i s' os, step s i = .ok (s', os) → ∀ o ∈ os, Above s o)
  (hback : ∀ s i s' os o, step s i = .ok (s', os) → Above s' o → Above s o)
include hout hback

/-- Outputs of a successful run lie above its start, when those of a step do. -/
theorem run_above {s s' : σ} {is : List ι} {os : List ο} (h : run step s is = .ok (s', os)) {o : ο}
    (ho : o ∈ os) : Above s o := by
  induction is generalizing s os with
  | nil =>
      cases h
      cases ho
  | cons i is ih =>
      obtain ⟨t, o', os', hi, hrest, rfl⟩ := run_cons_ok.mp h
      rcases List.mem_append.mp ho with ho | ho
      · exact hout s i t o' hi o ho
      · exact hback s i t o' o hi (ih hrest ho)

/-- Any two outputs of a successful run are related, if those of a step are, and what lies above the
state behind an output is related to it. -/
theorem run_pairwise {R : ο → ο → Prop}
    (hself : ∀ s i s' os, step s i = .ok (s', os) → os.Pairwise R)
    (hnext : ∀ s i s' os, step s i = .ok (s', os) → ∀ o ∈ os, ∀ o', Above s' o' → R o o')
    {s s' : σ} {is : List ι} {os : List ο} (h : run step s is = .ok (s', os)) : os.Pairwise R := by
  induction is generalizing s os with
  | nil =>
      cases h
      exact List.Pairwise.nil
  | cons i is ih =>
      obtain ⟨t, o', os', hi, hrest, rfl⟩ := run_cons_ok.mp h
      refine List.pairwise_append.mpr ⟨hself s i t o' hi, ih hrest, ?_⟩
      intro o ho o₂ ho₂
      exact hnext s i t o' hi o ho o₂ (run_above Above hout hback hrest ho₂)

end RunAbove

end Runs

/-! ## Re-delivered inputs -/

/-- `WithCopies copy seen l l'`: the sequence `l'` is `l` with inputs inserted, each a copy of an
input that stands before it (in `l`, or among the `seen` ones). -/
inductive WithCopies (copy : ι → ι → Prop) : List ι → List ι → List ι → Prop
  | nil {seen : List ι} : WithCopies copy seen [] []
  | original {seen l l' : List ι} {i : ι} :
      WithCopies copy (i :: seen) l l' → WithCopies copy seen (i :: l) (i :: l')
  | copied {seen l l' : List ι} {i c : ι} :
      i ∈ seen → copy i c → WithCopies copy seen l l' → WithCopies copy seen l (c :: l')

/-- **Copies of absorbed inputs change nothing.**  `Absorbed s i` says that the machine has taken
`i` in.  If every step absorbs its input, nothing absorbed is ever lost, and a copy of an absorbed
input stays without effect, then inserting copies leaves the run as it was: same final state, same
outputs, same error if there was one. -/
theorem run_withCopies {step : σ → ι → Except ε (σ × List ο)} {copy : ι → ι → Prop}
    (Absorbed : σ → ι → Prop)
    (htake : ∀ s i s' o, step s i = .ok (s', o) → Absorbed s' i)
    (hkeep : ∀ s i s' o j, Absorbed s j → step s i = .ok (s', o) → Absorbed s' j)
    (hidle : ∀ s i c, Absorbed s i → copy i c → step s c = .ok (s, []))
    {seen l l' : List ι} (hl : WithCopies copy seen l l') {s : σ}
    (hseen : ∀ i ∈ seen, Absorbed s i) : run step s l' = run step s l := by
  induction hl generalizing s with
  | nil => rfl
  | @original seen l l' i _ ih =>
      cases hs : step s i with
      | error e => simp [run, hs]
      | ok r =>
          obtain ⟨t, o⟩ := r
          have hseen' : ∀ j ∈ i :: seen, Absorbed t j := by
            intro j hj
            rcases List.mem_cons.mp hj with rfl | hj
            · exact htake s j t o hs
            · exact hkeep s i t o j (hseen j hj) hs
          simp only [run, hs, ih hseen']
  | @copied seen l l' i c hi hc _ ih =>
      rw [run_cons_stutter (hidle s i c (hseen i hi) hc)]
      exact ih hseen

section WithCopies

variable {copy : ι → ι → Prop} {seen seen' l l' : List ι} {i c : ι}

lemma WithCopies.mono (h : WithCopies copy seen l l') (hseen : ∀ i ∈ seen, i ∈ seen') :
    WithCopies copy seen' l l' := by
  induction h generalizing seen' with
  | nil => exact .nil
  | @original seen l l' i _ ih =>
      refine .original (ih fun j hj => ?_)
      rcases List.mem_cons.mp hj with rfl | hj
      · exact List.mem_cons_self
      · exact List.mem_cons_of_mem i (hseen j hj)
  | copied hi hc _ ih => exact .copied (hseen _ hi) hc (ih hseen)

/-- One more input at the end. -/
lemma WithCopies.append_original (h : WithCopies copy seen l l') (i : ι) :
    WithCopies copy seen (l ++ [i]) (l' ++ [i]) := by
  induction h with
  | nil => exact .original .nil
  | original _ ih => exact .original ih
  | copied hj hc _ ih => exact .copied hj hc ih

/-- One more copy at the end. -/
lemma WithCopies.append_copied (h : WithCopies copy seen l l') (hi : i ∈ l ∨ i ∈ seen)
    (hc : copy i c) : WithCopies copy seen l (l' ++ [c]) := by
  induction h with
  | nil => exact .copied (hi.resolve_left List.not_mem_nil) hc .nil
  | @original seen l l' j _ ih =>
      refine .original (ih ?_)
      rcases hi with hi | hi
      · rcases List.mem_cons.mp hi with rfl | hi
        · exact Or.inr List.mem_cons_self
        · exact Or.inl hi
      · exact Or.inr (List.mem_cons_of_mem j hi)
  | copied hj hcopy _ ih => exact .copied hj hcopy (ih hi)

lemma WithCopies.map {ι' : Type*} {copy' : ι' → ι' → Prop} {f : ι → ι'}
    (hf : ∀ i c, copy i c → copy' (f i) (f c)) (h : WithCopies copy seen l l') :
    WithCopies copy' (seen.map f) (l.map f) (l'.map f) := by
  induction h with
  | nil => exact .nil
  | original _ ih => exact .original ih
  | copied hi hc _ ih => exact .copied (List.mem_map_of_mem hi) (hf _ _ hc) ih

/-- What is there is an original, or a copy of one. -/
lemma WithCopies.mem (h : WithCopies copy seen l l') (hc : c ∈ l') :
    c ∈ l ∨ ∃ i, (i ∈ l ∨ i ∈ seen) ∧ copy i c := by
  induction h with
  | nil => cases hc
  | @original seen l l' j _ ih =>
      rcases List.mem_cons.mp hc with rfl | hc
      · exact Or.inl List.mem_cons_self
      · rcases ih hc with hl | ⟨i, hi | hi, hcopy⟩
        · exact Or.inl (List.mem_cons_of_mem j hl)
        · exact Or.inr ⟨i, Or.inl (List.mem_cons_of_mem j hi), hcopy⟩
        · rcases List.mem_cons.mp hi with rfl | hi
          · exact Or.inr ⟨i, Or.inl List.mem_cons_self, hcopy⟩
          · exact Or.inr ⟨i, Or.inr hi, hcopy⟩
  | copied hi hcopy _ ih =>
      rcases List.mem_cons.mp hc with rfl | hc
      · exact Or.inr ⟨_, Or.inr hi, hcopy⟩
      · exact ih hc

end WithCopies

/-! ## One machine per key -/

section Keyed

variable {κ : Type*} [DecidableEq κ]

/-- Route every input to the machine of its key. -/
def keyed (key : ι → Except ε κ) (step : σ → ι → Except ε (σ × List ο)) (s : κ → σ) (i : ι) :
    Except ε ((κ → σ) × List ο) :=
  match key i with
  | .error e => .error e
  | .ok k =>
      match step (s k) i with
      | .error e => .error e
      | .ok (s', o) => .ok (Function.update s k s', o)

variable {key : ι → Except ε κ} {step : σ → ι → Except ε (σ × List ο)}

/-- What a keyed step does: one step of the key's machine, in place. -/
lemma keyed_ok {s s' : κ → σ} {i : ι} {o : List ο} :
    keyed key step s i = .ok (s', o) ↔
      ∃ k t, key i = .ok k ∧ step (s k) i = .ok (t, o) ∧ s' = Function.update s k t := by
  unfold keyed
  cases hk : key i with
  | error e => simp
  | ok k =>
      cases hs : step (s k) i with
      | error e => simp [hs]
      | ok r =>
          obtain ⟨t, o'⟩ := r
          simp only [hs, Except.ok.injEq, Prod.mk.injEq]
          constructor
          · rintro ⟨rfl, rfl⟩
            exact ⟨k, t, rfl, hs, rfl⟩
          · rintro ⟨k', t', rfl, hs', rfl⟩
            rw [hs] at hs'
            cases hs'
            exact ⟨rfl, rfl⟩

/-- **Copies in a keyed machine.**  It is enough that the machines of the keys absorb their inputs,
when a copy has the key of what it is a copy of. -/
theorem run_keyed_withCopies {copy : ι → ι → Prop} (Absorbed : σ → ι → Prop)
    (htake : ∀ s i s' o, step s i = .ok (s', o) → Absorbed s' i)
    (hkeep : ∀ s i s' o j, Absorbed s j → step s i = .ok (s', o) → Absorbed s' j)
    (hidle : ∀ s i c, Absorbed s i → copy i c → step s c = .ok (s, []))
    (hkey : ∀ i c, copy i c → key c = key i) {l l' : List ι} (hl : WithCopies copy [] l l')
    (s : κ → σ) : run (keyed key step) s l' = run (keyed key step) s l := by
  refine run_withCopies (fun s i => ∃ k, key i = .ok k ∧ Absorbed (s k) i) ?_ ?_ ?_ hl (by simp)
  · intro s i s' o hstep
    obtain ⟨k, t, hk, hrun, rfl⟩ := keyed_ok.mp hstep
    refine ⟨k, hk, ?_⟩
    rw [Function.update_self]
    exact htake _ _ _ _ hrun
  · rintro s i s' o j ⟨k, hk, hj⟩ hstep
    obtain ⟨k', t, _, hrun, rfl⟩ := keyed_ok.mp hstep
    refine ⟨k, hk, ?_⟩
    by_cases hsame : k = k'
    · subst hsame
      rw [Function.update_self]
      exact hkeep _ _ _ _ _ hj hrun
    · rwa [Function.update_of_ne hsame]
  · rintro s i c ⟨k, hk, hi⟩ hcopy
    exact keyed_ok.mpr ⟨k, s k, (hkey i c hcopy).trans hk, hidle _ _ _ hi hcopy,
      (Function.update_eq_self k s).symm⟩

end Keyed

/-! ## Machines that cannot fail -/

/-- `run` of a machine without errors. -/
def runPure (step : σ → ι → σ × List ο) : σ → List ι → σ × List ο
  | s, [] => (s, [])
  | s, i :: is =>
      let rest := runPure step (step s i).1 is
      (rest.1, (step s i).2 ++ rest.2)

section Pure

variable {step : σ → ι → σ × List ο}

@[simp] lemma runPure_nil (s : σ) : runPure step s [] = (s, []) := rfl

@[simp] lemma runPure_cons (s : σ) (i : ι) (is : List ι) :
    runPure step s (i :: is) = ((runPure step (step s i).1 is).1,
      (step s i).2 ++ (runPure step (step s i).1 is).2) := rfl

/-- A machine that on the inputs `f j` does what a machine without errors does on `j` runs like
it. -/
theorem run_map_eq_runPure {ι' : Type*} {step : σ → ι → Except ε (σ × List ο)}
    {pure : σ → ι' → σ × List ο} {f : ι' → ι} (Inv : σ → Prop)
    (js : List ι') (hstep : ∀ s, ∀ j ∈ js, Inv s → step s (f j) = .ok (pure s j) ∧ Inv (pure s j).1)
    {s : σ} (h0 : Inv s) :
    run step s (js.map f) = .ok (runPure pure s js) ∧ Inv (runPure pure s js).1 := by
  induction js generalizing s with
  | nil => exact ⟨rfl, h0⟩
  | cons j js ih =>
      rcases hstep s j List.mem_cons_self h0 with ⟨hs, hinv⟩
      rcases ih (fun s i hi => hstep s i (List.mem_cons_of_mem j hi)) hinv with ⟨hrun, hend⟩
      simp only [List.map_cons, run, hs, hrun, runPure_cons]
      exact ⟨trivial, hend⟩

/-- Every output of a run was written by some step. -/
lemma mem_runPure {s : σ} {is : List ι} {o : ο} (h : o ∈ (runPure step s is).2) :
    ∃ past i rest, is = past ++ i :: rest ∧ o ∈ (step (runPure step s past).1 i).2 := by
  induction is generalizing s with
  | nil => simp at h
  | cons i is ih =>
      rw [runPure_cons, List.mem_append] at h
      rcases h with h | h
      · exact ⟨[], i, is, rfl, h⟩
      · rcases ih h with ⟨past, j, rest, rfl, hj⟩
        exact ⟨i :: past, j, rest, rfl, by simpa using hj⟩

/-- What every step keeps holds after a run. -/
theorem runPure_invariant (Inv : σ → Prop) {is : List ι}
    (hstep : ∀ s, ∀ i ∈ is, Inv s → Inv (step s i).1) {s : σ} (hs : Inv s) :
    Inv (runPure step s is).1 := by
  induction is generalizing s with
  | nil => exact hs
  | cons i is ih =>
      rw [runPure_cons]
      exact ih (fun s j hj => hstep s j (List.mem_cons_of_mem i hj))
        (hstep s i List.mem_cons_self hs)

/-- A run in two parts. -/
lemma runPure_append (s : σ) (is js : List ι) :
    runPure step s (is ++ js) = ((runPure step (runPure step s is).1 js).1,
      (runPure step s is).2 ++ (runPure step (runPure step s is).1 js).2) := by
  induction is generalizing s with
  | nil => rfl
  | cons i is ih => rw [List.cons_append, runPure_cons, ih, runPure_cons, List.append_assoc]

section Above

variable (Above : σ → ο → Prop) (hout : ∀ s i, ∀ o ∈ (step s i).2, Above s o)
  (hback : ∀ s i o, Above (step s i).1 o → Above s o)
include hout hback

/-- **Outputs above the state.**  If each output lies above the state it is written in, and what
lies above a state lies above the states before, then all outputs of a run lie above its start. -/
theorem runPure_above {s : σ} {is : List ι} {o : ο} (h : o ∈ (runPure step s is).2) :
    Above s o := by
  induction is generalizing s with
  | nil => simp at h
  | cons i is ih =>
      rw [runPure_cons, List.mem_append] at h
      rcases h with h | h
      · exact hout s i o h
      · exact hback s i o (ih h)

/-- If besides what lies above the state behind an output is related to the output, then so are any
two outputs of a run, the earlier one to the later one. -/
theorem runPure_pairwise {R : ο → ο → Prop} (hself : ∀ s i, (step s i).2.Pairwise R)
    (hnext : ∀ s i, ∀ o ∈ (step s i).2, ∀ o', Above (step s i).1 o' → R o o') (s : σ)
    (is : List ι) : (runPure step s is).2.Pairwise R := by
  induction is generalizing s with
  | nil => exact List.Pairwise.nil
  | cons i is ih =>
      rw [runPure_cons]
      refine List.pairwise_append.mpr ⟨hself s i, ih _, ?_⟩
      intro o ho o' ho'
      exact hnext s i o ho o' (runPure_above Above hout hback ho')

end Above

variable {κ : Type*} [DecidableEq κ]

/-- Route every input to the machine of its key. -/
def keyedPure (key : ι → κ) (step : σ → ι → σ × List ο) (s : κ → σ) (i : ι) : (κ → σ) × List ο :=
  (Function.update s (key i) (step (s (key i)) i).1, (step (s (key i)) i).2)

/-- **The state under a key is the run of that key's inputs.**  The other keys' inputs leave no
trace in it, whatever the interleaving. -/
theorem keyedPure_state (key : ι → κ) (s : κ → σ) (is : List ι) (k : κ) :
    (runPure (keyedPure key step) s is).1 k
      = (runPure step (s k) (is.filter fun i => key i = k)).1 := by
  induction is generalizing s with
  | nil => rfl
  | cons i is ih =>
      rw [runPure_cons, ih]
      by_cases hk : key i = k
      · subst hk
        simp [keyedPure]
      · simp [keyedPure, hk, Function.update_of_ne (Ne.symm hk)]

/-- When all inputs have one key, the outputs are those of that key's machine. -/
lemma keyedPure_outputs (key : ι → κ) (s : κ → σ) {is : List ι} {k : κ} (h : ∀ i ∈ is, key i = k) :
    (runPure (keyedPure key step) s is).2 = (runPure step (s k) is).2 := by
  induction is generalizing s with
  | nil => rfl
  | cons i is ih =>
      have hk := h i List.mem_cons_self
      rw [runPure_cons, ih _ fun j hj => h j (List.mem_cons_of_mem i hj)]
      simp [keyedPure, hk]

/-- **The outputs under a key are those of the run of that key's inputs**, when every output has the
key of the input it was written for. -/
theorem keyedPure_outputs_filter (key : ι → κ) (keyOut : ο → κ)
    (hout : ∀ s i, ∀ o ∈ (step s i).2, keyOut o = key i) (s : κ → σ) (is : List ι) (k : κ) :
    (runPure (keyedPure key step) s is).2.filter (fun o => keyOut o = k)
      = (runPure step (s k) (is.filter fun i => key i = k)).2 := by
  induction is generalizing s with
  | nil => rfl
  | cons i is ih =>
      rw [runPure_cons, List.filter_append, ih]
      by_cases hk : key i = k
      · subst hk
        have hall : ((keyedPure key step s i).2).filter (fun o => keyOut o = key i)
            = (step (s (key i)) i).2 :=
          List.filter_eq_self.mpr fun o ho => decide_eq_true (hout _ _ o ho)
        rw [hall]
        simp [keyedPure]
      · have hnone : ((keyedPure key step s i).2).filter (fun o => keyOut o = k) = [] :=
          List.filter_eq_nil_iff.mpr fun o ho => by simp [hout _ _ o ho, hk]
        rw [hnone]
        simp [keyedPure, hk, Function.update_of_ne (Ne.symm hk)]

end Pure

end Transducer
