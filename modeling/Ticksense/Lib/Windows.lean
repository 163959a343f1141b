import Mathlib.Order.WithBot
import Ticksense.Lib.Sql

/-!
# Windows that close when time has passed them

An operator collects elements into windows and gives each window out once.  A watermark says that
time has come to some instant: the windows that end there or before are given out, and an element
of such a window that arrives later is dropped.  The windows may be spread over several sites, each
with a watermark of its own.

* `Assigner` — the window of an element, the site of a window and its last instant.
* `State.arrive`, `State.advance` — what an element and a watermark do.
* `Represents`, `represents_arrive`, `represents_advance` — whatever arrives in whatever order, the
  windows given out are the groups of the accepted elements, for the closed windows, and the
  accepted elements of the others are kept.
* `groupBy_perm_append` — the groups of more and more keys.
-/

namespace Windows

variable {α κ S T : Type*}

/-- The window of an element, the site that keeps a window, and the last instant of a window. -/
structure Assigner (α κ S T : Type*) where
  key : α → κ
  site : κ → S
  last : κ → T

/-- How far time has come at each site, and the elements of the windows that are still open, in the
order of arrival. -/
structure State (α S T : Type*) where
  reached : S → WithBot T
  buffered : List α

/-- Before anything arrived. -/
def State.empty : State α S T := ⟨fun _ => ⊥, []⟩

variable [LinearOrder T] (A : Assigner α κ S T)

/-- Time has come to the instant. -/
def State.Come (s : State α S T) (p : S) (w : T) : Prop := (w : WithBot T) ≤ s.reached p

/-- Time has passed the window. -/
def State.Closed (s : State α S T) (k : κ) : Prop := s.Come (A.site k) (A.last k)

instance (s : State α S T) (k : κ) : Decidable (s.Closed A k) :=
  inferInstanceAs (Decidable (_ ≤ _))

/-- An element of a closed window is dropped. -/
def State.arrive (s : State α S T) (a : α) : State α S T :=
  if s.Closed A (A.key a) then s else { s with buffered := s.buffered ++ [a] }

/-- The elements that are accepted, after one more has arrived. -/
def State.accept (s : State α S T) (accepted : List α) (a : α) : List α :=
  if s.Closed A (A.key a) then accepted else accepted ++ [a]

variable [DecidableEq S]

/-- Time at a site, which never goes back. -/
def State.pass (s : State α S T) (p : S) (w : T) : State α S T :=
  { s with reached := Function.update s.reached p (max (s.reached p) w) }

variable [DecidableEq κ]

/-- A watermark: the windows that it closes are given out. -/
def State.advance (s : State α S T) (p : S) (w : T) : State α S T × List (κ × List α) :=
  ({ s.pass p w with buffered := s.buffered.filter fun a => ¬ (s.pass p w).Closed A (A.key a) },
    Sql.groupBy A.key (s.buffered.filter fun a => (s.pass p w).Closed A (A.key a)))

/-- **What the operator has and has given out**, in terms of the elements it accepted. -/
structure Represents (accepted : List α) (s : State α S T) (given : List (κ × List α)) : Prop where
  buffered : s.buffered = accepted.filter fun a => ¬ s.Closed A (A.key a)
  given : given.Perm (Sql.groupBy A.key (accepted.filter fun a => s.Closed A (A.key a)))

variable {A}

omit [DecidableEq κ] [DecidableEq S] in
@[simp] lemma not_come_empty {p : S} {w : T} : ¬ (State.empty : State α S T).Come p w := by
  simp [State.Come, State.empty]

omit [DecidableEq κ] [DecidableEq S] in
@[simp] lemma come_arrive {s : State α S T} {a : α} {p : S} {w : T} :
    (s.arrive A a).Come p w ↔ s.Come p w := by
  rw [State.arrive]
  split_ifs <;> rfl

omit [DecidableEq κ] in
@[simp] lemma come_pass {s : State α S T} {p q : S} {v w : T} :
    (s.pass p w).Come q v ↔ s.Come q v ∨ q = p ∧ v ≤ w := by
  by_cases hp : q = p
  · subst hp
    simp [State.Come, State.pass]
  · simp [State.Come, State.pass, hp]

@[simp] lemma come_advance {s : State α S T} {p q : S} {v w : T} :
    (s.advance A p w).1.Come q v ↔ s.Come q v ∨ q = p ∧ v ≤ w := come_pass

omit [DecidableEq κ] in
@[simp] lemma closed_pass {s : State α S T} {p : S} {w : T} {k : κ} :
    (s.pass p w).Closed A k ↔ s.Closed A k ∨ A.site k = p ∧ A.last k ≤ w := come_pass

omit [DecidableEq S] [LinearOrder T] in
lemma mem_groupBy_filter {key : α → κ} {rows : List α} {P : κ → Prop} [DecidablePred P] {k : κ}
    {group : List α} : (k, group) ∈ Sql.groupBy key (rows.filter fun a => P (key a)) ↔
      P k ∧ (k, group) ∈ Sql.groupBy key rows := by
  rw [Sql.mem_groupBy, Sql.mem_groupBy, List.filter_filter]
  by_cases hk : P k
  · have hsame : (rows.filter fun a => decide (key a = k) && decide (P (key a)))
        = rows.filter (key · = k) := by
      refine List.filter_congr fun a _ => ?_
      by_cases ha : key a = k
      · simp [ha, hk]
      · simp [ha]
    rw [hsame, iff_and_self]
    exact fun _ => hk
  · have hnone : (rows.filter fun a => decide (key a = k) && decide (P (key a))) = [] := by
      refine List.filter_eq_nil_iff.mpr fun a _ ha => ?_
      rw [Bool.and_eq_true, decide_eq_true_eq, decide_eq_true_eq] at ha
      exact hk (ha.1 ▸ ha.2)
    rw [hnone]
    exact ⟨fun h => absurd h.1 h.2, fun h => absurd h.1 hk⟩

omit [DecidableEq S] [LinearOrder T] in
lemma nodup_groupBy (key : α → κ) (rows : List α) : (Sql.groupBy key rows).Nodup :=
  (Sql.nodup_keys_groupBy key rows).of_map

omit [DecidableEq S] [LinearOrder T] in
/-- The groups of the keys with `P`. -/
lemma filter_groupBy_perm (key : α → κ) (rows : List α) (P : κ → Prop) [DecidablePred P] :
    ((Sql.groupBy key rows).filter fun g => P g.1).Perm
      (Sql.groupBy key (rows.filter fun a => P (key a))) := by
  refine (List.perm_ext_iff_of_nodup ((nodup_groupBy key rows).filter _)
    (nodup_groupBy key _)).mpr ?_
  rintro ⟨k, group⟩
  rw [mem_groupBy_filter, List.mem_filter, decide_eq_true_eq, and_comm]

omit [DecidableEq S] [LinearOrder T] in
/-- **The groups of more keys**: of those with `P`, then of those with `Q`. -/
theorem groupBy_perm_append {key : α → κ} {rows : List α} {P Q : κ → Prop} [DecidablePred P]
    [DecidablePred Q] (hdisjoint : ∀ k, P k → ¬ Q k) :
    (Sql.groupBy key (rows.filter fun a => P (key a))
        ++ Sql.groupBy key (rows.filter fun a => Q (key a))).Perm
      (Sql.groupBy key (rows.filter fun a => P (key a) ∨ Q (key a))) := by
  refine (List.perm_ext_iff_of_nodup ?_ (nodup_groupBy key _)).mpr ?_
  · refine (nodup_groupBy key _).append (nodup_groupBy key _) ?_
    rintro ⟨k, group⟩ hp hq
    exact hdisjoint k (mem_groupBy_filter.mp hp).1 (mem_groupBy_filter.mp hq).1
  · rintro ⟨k, group⟩
    rw [List.mem_append, mem_groupBy_filter, mem_groupBy_filter,
      mem_groupBy_filter (P := fun k => P k ∨ Q k), or_and_right]

omit [DecidableEq κ] [DecidableEq S] in
lemma subset_accept (s : State α S T) (accepted : List α) (a : α) :
    accepted ⊆ s.accept A accepted a := by
  rw [State.accept]
  split_ifs
  · exact List.Subset.refl _
  · exact List.subset_append_left _ _

omit [DecidableEq S] in
lemma represents_empty : Represents A [] (State.empty : State α S T) [] :=
  ⟨rfl, List.Perm.refl _⟩

omit [DecidableEq S] in
/-- **An element arrives.** -/
lemma represents_arrive {accepted : List α} {s : State α S T} {given : List (κ × List α)}
    (h : Represents A accepted s given) (a : α) :
    Represents A (s.accept A accepted a) (s.arrive A a) given := by
  by_cases hclosed : s.Closed A (A.key a)
  · rwa [State.accept, State.arrive, if_pos hclosed, if_pos hclosed]
  · rw [State.accept, State.arrive, if_neg hclosed, if_neg hclosed]
    have hsame : ∀ k, ({ s with buffered := s.buffered ++ [a] } : State α S T).Closed A k
        ↔ s.Closed A k := fun _ => Iff.rfl
    refine ⟨?_, ?_⟩
    · simp only [hsame, List.filter_append, ← h.buffered]
      simp [hclosed]
    · simpa [hsame, List.filter_append, hclosed] using h.given

/-- **Time passes.** -/
lemma represents_advance {accepted : List α} {s : State α S T} {given : List (κ × List α)}
    (h : Represents A accepted s given) (p : S) (w : T) :
    Represents A accepted (s.advance A p w).1 (given ++ (s.advance A p w).2) := by
  have hmono : ∀ {k}, s.Closed A k → (s.pass p w).Closed A k := fun hk => closed_pass.mpr (.inl hk)
  have hopen : s.buffered.filter (fun a => ¬ (s.pass p w).Closed A (A.key a))
      = accepted.filter fun a => ¬ (s.pass p w).Closed A (A.key a) := by
    rw [h.buffered, List.filter_filter]
    refine List.filter_congr fun a _ => ?_
    by_cases hclosed : s.Closed A (A.key a)
    · simp [hclosed]
    · simp [hclosed]
  have hnew : s.buffered.filter (fun a => (s.pass p w).Closed A (A.key a))
      = accepted.filter fun a => (s.pass p w).Closed A (A.key a) ∧ ¬ s.Closed A (A.key a) := by
    rw [h.buffered, List.filter_filter]
    simp only [Bool.decide_and]
  refine ⟨hopen, (h.given.append_right _).trans ?_⟩
  rw [State.advance, hnew]
  refine (groupBy_perm_append (P := fun k => s.Closed A k)
    (Q := fun k => (s.pass p w).Closed A k ∧ ¬ s.Closed A k) fun k hk hq => hq.2 hk).trans ?_
  refine List.Perm.of_eq (congrArg _ (List.filter_congr fun a _ => ?_))
  rw [decide_eq_decide]
  constructor
  · rintro (hclosed | hclosed)
    · exact hmono hclosed
    · exact hclosed.1
  · intro hclosed
    by_cases hbefore : s.Closed A (A.key a)
    · exact .inl hbefore
    · exact .inr ⟨hclosed, hbefore⟩

end Windows
