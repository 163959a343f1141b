import Mathlib.Data.List.Basic

/-!
# Marking a list and cutting it

A lexer in its simplest form: it reads a list from left to right, looks at one element ahead, and
gives every element a mark.  The parts between the elements of one kind are the pieces of the list.

* `Marker` — what is read in a state, with the lookahead; `mark` and `after` are the marks of a list
  and the state behind it, `mark_append` what they are for two lists in a row.
* `comap` — the marker of another alphabet.
* `mem_splitOnP` — where a piece stands; `splitOnP_flatMap` — pieces of a list whose elements are
  replaced by lists.
-/

/-- Reading an element gives its mark and the next state. -/
structure Marker (σ α κ : Type*) where
  read : σ → α → Option α → κ × σ

namespace Marker

variable {σ α β κ : Type*} (M : Marker σ α κ)

/-- The marks of a list; `look` is what comes behind it. -/
def mark : σ → List α → Option α → List (α × κ)
  | _, [], _ => []
  | s, a :: as, look =>
      (a, (M.read s a (as.head?.or look)).1) :: mark (M.read s a (as.head?.or look)).2 as look

/-- The state behind a list. -/
def after : σ → List α → Option α → σ
  | s, [], _ => s
  | s, a :: as, look => after (M.read s a (as.head?.or look)).2 as look

variable {M}

@[simp] lemma mark_nil (s : σ) (look : Option α) : M.mark s [] look = [] := rfl

@[simp] lemma after_nil (s : σ) (look : Option α) : M.after s [] look = s := rfl

@[simp] lemma map_fst_mark (s : σ) (as : List α) (look : Option α) :
    (M.mark s as look).map Prod.fst = as := by
  induction as generalizing s with
  | nil => rfl
  | cons a as ih => rw [mark, List.map_cons, ih]

lemma head?_append_or (as bs : List α) (look : Option α) :
    (as ++ bs).head?.or look = as.head?.or (bs.head?.or look) := by
  cases as <;> simp

/-- **Two lists in a row**: the second is marked from the state behind the first, and its head is the
lookahead of the first. -/
theorem mark_append (s : σ) (as bs : List α) (look : Option α) :
    M.mark s (as ++ bs) look =
      M.mark s as (bs.head?.or look) ++ M.mark (M.after s as (bs.head?.or look)) bs look := by
  induction as generalizing s with
  | nil => rfl
  | cons a as ih => rw [List.cons_append, mark, head?_append_or, ih, mark, after, List.cons_append]

lemma after_append (s : σ) (as bs : List α) (look : Option α) :
    M.after s (as ++ bs) look = M.after (M.after s as (bs.head?.or look)) bs look := by
  induction as generalizing s with
  | nil => rfl
  | cons a as ih => rw [List.cons_append, after, head?_append_or, ih, after]

/-- Elements that leave the state as it is. -/
lemma mark_of_stays {s : σ} {k : κ} {as : List α}
    (h : ∀ a ∈ as, ∀ look, M.read s a look = (k, s)) (look : Option α) :
    M.mark s as look = as.map (·, k) ∧ M.after s as look = s := by
  induction as with
  | nil => exact ⟨rfl, rfl⟩
  | cons a as ih =>
      have hread := h a List.mem_cons_self (as.head?.or look)
      obtain ⟨hmark, hafter⟩ := ih fun b hb => h b (List.mem_cons_of_mem a hb)
      simp only [mark, after, hread, hmark, hafter, List.map_cons, and_self]

/-- A list whose end does not depend on what comes behind it. -/
lemma mark_congr_look {look look' : Option α} (h : ∀ s a, M.read s a look = M.read s a look')
    (s : σ) (as : List α) : M.mark s as look = M.mark s as look' := by
  induction as generalizing s with
  | nil => rfl
  | cons a as ih =>
      cases as with
      | nil => simp only [mark, List.head?_nil, Option.none_or, h s a]
      | cons b as =>
          show (a, (M.read s a (some b)).1) :: M.mark (M.read s a (some b)).2 (b :: as) look = _
          rw [ih]
          rfl

/-- The two parts of the marks are the marks of two parts. -/
lemma mark_eq_append {s : σ} {as : List α} {look : Option α} {xs ys : List (α × κ)}
    (h : M.mark s as look = xs ++ ys) :
    ∃ before behind, as = before ++ behind ∧ xs = M.mark s before (behind.head?.or look) ∧
      ys = M.mark (M.after s before (behind.head?.or look)) behind look := by
  have hsplit : as = xs.map Prod.fst ++ ys.map Prod.fst := by
    rw [← map_fst_mark (M := M) s as look, h, List.map_append]
  rw [hsplit, mark_append] at h
  obtain ⟨hxs, hys⟩ := List.append_inj h
    (by rw [← List.length_map Prod.fst, map_fst_mark, List.length_map])
  exact ⟨_, _, hsplit, hxs.symm, hys.symm⟩

/-- The marks before and behind an element. -/
lemma mark_eq_append_cons {s : σ} {as : List α} {look : Option α} {xs ys : List (α × κ)} {a : α}
    {k : κ} (h : M.mark s as look = xs ++ (a, k) :: ys) :
    ∃ before behind, as = before ++ a :: behind ∧ xs = M.mark s before (some a) ∧
      k = (M.read (M.after s before (some a)) a (behind.head?.or look)).1 ∧
      ys = M.mark (M.read (M.after s before (some a)) a (behind.head?.or look)).2 behind look := by
  obtain ⟨before, rest, rfl, hxs, hcons⟩ := mark_eq_append h
  cases rest with
  | nil => cases hcons
  | cons b behind =>
      rw [mark] at hcons
      obtain ⟨hhead, hys⟩ := List.cons.inj hcons
      obtain ⟨rfl, hk⟩ := Prod.mk.inj hhead
      exact ⟨before, behind, rfl, hxs, hk, hys⟩

/-- The state behind an element whose mark gives the state away. -/
lemma after_of_last {s t : σ} {as : List α} {look : Option α} {xs : List (α × κ)} {a : α} {k : κ}
    (h : M.mark s as look = xs ++ [(a, k)])
    (hread : ∀ s' look, (M.read s' a look).1 = k → (M.read s' a look).2 = t) :
    M.after s as look = t := by
  obtain ⟨before, behind, rfl, -, hk, hbehind⟩ := mark_eq_append_cons h
  obtain rfl : behind = [] := by
    rw [← map_fst_mark (M := M) _ behind look, ← hbehind, List.map_nil]
  rw [after_append]
  exact hread _ _ hk.symm

variable (M) in
/-- The same marker for another alphabet. -/
def comap (f : β → α) : Marker σ β κ where
  read := fun s b look => M.read s (f b) (look.map f)

end Marker

/-! ## Pieces -/

section Pieces

variable {α β : Type*} {p : α → Bool}

/-- What stands before the first cut belongs to the first piece. -/
lemma splitOnP_append_of_forall {xs : List α} (h : ∀ x ∈ xs, p x = false) (ys : List α) :
    (xs ++ ys).splitOnP p = (ys.splitOnP p).modifyHead (xs ++ ·) := by
  induction xs with
  | nil =>
      rw [List.nil_append]
      cases ys.splitOnP p <;> rfl
  | cons x xs ih =>
      rw [List.cons_append, List.splitOnP_cons_eq_if_modifyHead, h x List.mem_cons_self,
        if_neg Bool.false_ne_true, ih fun y hy => h y (List.mem_cons_of_mem x hy)]
      cases ys.splitOnP p <;> rfl

/-- A list without a cut, or its first cut. -/
lemma exists_first_cut (p : α → Bool) (xs : List α) :
    (∀ x ∈ xs, p x = false) ∨
      ∃ before cut behind, xs = before ++ cut :: behind ∧ p cut = true ∧
        ∀ x ∈ before, p x = false := by
  induction xs with
  | nil => exact Or.inl (by simp)
  | cons x xs ih =>
      cases hx : p x with
      | true => exact Or.inr ⟨[], x, xs, rfl, hx, by simp⟩
      | false =>
          rcases ih with hnone | ⟨before, cut, behind, rfl, hcut, hbefore⟩
          · exact Or.inl (List.forall_mem_cons.mpr ⟨hx, hnone⟩)
          · exact Or.inr ⟨x :: before, cut, behind, rfl, hcut,
              List.forall_mem_cons.mpr ⟨hx, hbefore⟩⟩

/-- **Where a piece stands**: between two cuts, or between a cut and an end. -/
theorem mem_splitOnP {xs piece : List α} (h : piece ∈ xs.splitOnP p) :
    ∃ before behind, xs = before ++ piece ++ behind ∧ (∀ x ∈ piece, p x = false) ∧
      (before = [] ∨ ∃ rest cut, before = rest ++ [cut] ∧ p cut = true) ∧
      (behind = [] ∨ ∃ cut rest, behind = cut :: rest ∧ p cut = true) := by
  induction hn : xs.length using Nat.strongRecOn generalizing xs with
  | _ n ih =>
      rcases exists_first_cut p xs with hnone | ⟨first, cut, rest, rfl, hcut, hfirst⟩
      · rw [List.splitOnP_eq_singleton hnone, List.mem_singleton] at h
        subst h
        exact ⟨[], [], by simp, hnone, Or.inl rfl, Or.inl rfl⟩
      · rw [List.splitOnP_append_cons_of_forall_mem hfirst cut hcut, List.mem_cons] at h
        rcases h with rfl | h
        · exact ⟨[], cut :: rest, by simp, hfirst, Or.inl rfl, Or.inr ⟨cut, rest, rfl, hcut⟩⟩
        · have hlt : rest.length < n := by
            rw [← hn, List.length_append, List.length_cons]
            omega
          obtain ⟨before, behind, rfl, hpiece, hbefore, hbehind⟩ := ih _ hlt h rfl
          refine ⟨first ++ cut :: before, behind, by simp, hpiece, Or.inr ?_, hbehind⟩
          rcases hbefore with rfl | ⟨rest', cut', rfl, hcut'⟩
          · exact ⟨first, cut, by simp, hcut⟩
          · exact ⟨first ++ cut :: rest', cut', by simp, hcut'⟩

/-- The pieces, joined again. -/
lemma intercalate_splitOnP {sep : α} (hsep : ∀ x, p x = true → x = sep) (xs : List α) :
    [sep].intercalate (xs.splitOnP p) = xs := by
  induction xs with
  | nil => simp
  | cons x xs ih =>
      obtain ⟨piece, rest, hpieces⟩ := List.exists_cons_of_ne_nil (List.splitOnP_ne_nil p xs)
      rw [List.splitOnP_cons_eq_if_modifyHead]
      rw [hpieces] at ih ⊢
      split_ifs with hx
      · rw [hsep x hx, List.intercalate_cons_cons, ih]
        simp
      · cases rest with
        | nil => simpa using ih
        | cons piece' rest =>
            rw [List.intercalate_cons_cons] at ih
            rw [List.modifyHead_cons, List.intercalate_cons_cons, List.cons_append,
              List.cons_append, ih]

/-- **Replacing elements**: cuts by cuts, and all others by lists without a cut. -/
theorem splitOnP_flatMap {q : β → Bool} {f : β → List α}
    (hcut : ∀ b, q b = true → ∃ a, f b = [a] ∧ p a = true)
    {bs : List β} (hother : ∀ b ∈ bs, q b = false → ∀ a ∈ f b, p a = false) :
    (bs.flatMap f).splitOnP p = (bs.splitOnP q).map (List.flatMap f) := by
  induction bs with
  | nil => rfl
  | cons b bs ih =>
      have ih := ih fun b' hb' => hother b' (List.mem_cons_of_mem b hb')
      obtain ⟨piece, rest, hpieces⟩ := List.exists_cons_of_ne_nil (List.splitOnP_ne_nil q bs)
      rw [List.flatMap_cons, List.splitOnP_cons_eq_if_modifyHead]
      cases hb : q b with
      | true =>
          obtain ⟨a, ha, hpa⟩ := hcut b hb
          rw [ha, List.singleton_append, List.splitOnP_cons_eq_if_modifyHead, if_pos hpa, ih]
          simp
      | false =>
          rw [splitOnP_append_of_forall (hother b List.mem_cons_self hb), ih, hpieces]
          simp

end Pieces
