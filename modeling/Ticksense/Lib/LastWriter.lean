import Mathlib.Data.List.Induction
import Mathlib.Data.List.MinMax
import Mathlib.Data.List.Pairwise
import Mathlib.Order.Defs.LinearOrder
import Ticksense.Lib.VersionedMap

/-!
# The last writer of a key

Entries that set or delete a key.  Written in the order of a list, what counts for a key is the last
of its entries; when each entry has a stamp and the list is in the order of the stamps, that is the
one with the greatest.

* `patch_apply` — what a list writes, key by key.
* `patch_eq_of_entriesOf`, `patch_pwFilter` — entries of different keys may be exchanged, and an
  entry may be dropped when a later one has its key.
* `patch_of_latest` — a list that is sorted, key by key, writes the latest entry of each key.
* `patch_eq_of_stamped` — two lists of the same entries, one with increasing stamps for each key and
  the other sorted with ties in any order and with repetitions, write the same map.
-/

namespace VersionedMap

variable {α κ ν τ : Type*} [DecidableEq κ] [LinearOrder τ] {stamp : α → τ}
  {entry : α → κ × Option ν}

/-! ## The last entry in a list -/

/-- The entries of a key, in order. -/
def entriesOf (entry : α → κ × Option ν) (xs : List α) (k : κ) : List α :=
  xs.filter fun a => (entry a).1 = k

lemma mem_entriesOf {xs : List α} {k : κ} {a : α} :
    a ∈ entriesOf entry xs k ↔ a ∈ xs ∧ (entry a).1 = k := by
  rw [entriesOf, List.mem_filter, decide_eq_true_eq]

/-- **The last entry of a key wins**, by induction from the end of the list. -/
theorem patch_apply (xs : List α) (m : κ → Option ν) (k : κ) :
    patch m (xs.map entry) k
      = ((entriesOf entry xs k).getLast?.map fun a => (entry a).2).getD (m k) := by
  induction xs using List.reverseRecOn with
  | nil => rfl
  | append_singleton xs b ih =>
      rw [List.map_append, patch_append, entriesOf, List.filter_append]
      show Function.update (patch m (xs.map entry)) (entry b).1 (entry b).2 k = _
      by_cases hkey : (entry b).1 = k
      · subst hkey
        simp
      · rw [Function.update_of_ne (Ne.symm hkey), ih, entriesOf]
        simp [hkey]

/-- Keys that no entry has keep their values. -/
lemma patch_of_notMem {xs : List α} {k : κ} (hk : ∀ a ∈ xs, (entry a).1 ≠ k) (m : κ → Option ν) :
    patch m (xs.map entry) k = m k := by
  have hnone : entriesOf entry xs k = [] :=
    List.eq_nil_iff_forall_not_mem.mpr fun a ha =>
      hk a (mem_entriesOf.mp ha).1 (mem_entriesOf.mp ha).2
  rw [patch_apply, hnone]
  rfl

/-- What a list writes is settled by the last entry of each key. -/
lemma patch_eq_of_getLast? {xs ys : List α}
    (h : ∀ k, (entriesOf entry xs k).getLast? = (entriesOf entry ys k).getLast?)
    (m : κ → Option ν) : patch m (xs.map entry) = patch m (ys.map entry) := by
  funext k
  rw [patch_apply, patch_apply, h]

/-- **Entries of different keys may be exchanged**: only their order within each key counts. -/
theorem patch_eq_of_entriesOf (entry : α → κ × Option ν) {xs ys : List α}
    (h : ∀ k, entriesOf entry xs k = entriesOf entry ys k) (m : κ → Option ν) :
    patch m (xs.map entry) = patch m (ys.map entry) :=
  patch_eq_of_getLast? (fun k => by rw [h]) m

/-- Exchanging two neighbours with different keys. -/
lemma entriesOf_swap (entry : α → κ × Option ν) {a b : α} (hab : (entry a).1 ≠ (entry b).1)
    (xs ys : List α) (k : κ) :
    entriesOf entry (xs ++ a :: b :: ys) k = entriesOf entry (xs ++ b :: a :: ys) k := by
  rw [entriesOf, entriesOf, List.filter_append, List.filter_append]
  congr 1
  by_cases ha : (entry a).1 = k
  · have hb : (entry b).1 ≠ k := fun hb => hab (ha.trans hb.symm)
    simp [ha, hb]
  · simp [List.filter_cons, ha]

/-- Dropping the entries that a later one overwrites leaves the last entry of each key. -/
lemma getLast?_entriesOf_pwFilter (xs : List α) (k : κ) :
    (entriesOf entry (xs.pwFilter fun a b => (entry a).1 ≠ (entry b).1) k).getLast?
      = (entriesOf entry xs k).getLast? := by
  induction xs with
  | nil => rfl
  | cons a xs ih =>
      have hcons : ∀ ys : List α, entriesOf entry (a :: ys) k
          = if (entry a).1 = k then a :: entriesOf entry ys k else entriesOf entry ys k := by
        intro ys
        rw [entriesOf, List.filter_cons]
        simp only [decide_eq_true_eq]
        rfl
      by_cases hlast : ∀ b ∈ xs.pwFilter (fun a b => (entry a).1 ≠ (entry b).1),
          (entry a).1 ≠ (entry b).1
      · rw [List.pwFilter_cons_of_pos hlast, hcons, hcons]
        split_ifs with hkey
        · rw [List.getLast?_cons, List.getLast?_cons, ih]
        · exact ih
      · rw [List.pwFilter_cons_of_neg hlast, ih, hcons]
        split_ifs with hkey
        · -- a later entry with the same key is still there
          simp only [ne_eq, not_forall, not_not, exists_prop] at hlast
          obtain ⟨b, hb, hab⟩ := hlast
          have hmem : b ∈ entriesOf entry xs k :=
            mem_entriesOf.mpr ⟨List.pwFilter_subset _ hb, hab.symm.trans hkey⟩
          rw [List.getLast?_cons, List.getLast?_eq_some_getLast (List.ne_nil_of_mem hmem)]
          rfl
        · rfl

/-- **Overwritten entries may be dropped.** -/
theorem patch_pwFilter (entry : α → κ × Option ν) (xs : List α) (m : κ → Option ν) :
    patch m ((xs.pwFilter fun a b => (entry a).1 ≠ (entry b).1).map entry)
      = patch m (xs.map entry) :=
  patch_eq_of_getLast? (getLast?_entriesOf_pwFilter xs) m

/-! ## The greatest stamp -/

/-- **The latest entry of a key wins**: the last entry of the key in the list has its stamp. -/
theorem patch_of_latest (stamp : α → τ) (entry : α → κ × Option ν) {xs : List α} {a : α}
    (hsorted : xs.Pairwise fun b c => (entry b).1 = (entry c).1 → stamp b ≤ stamp c) (ha : a ∈ xs)
    (hlatest : ∀ b ∈ xs, (entry b).1 = (entry a).1 → stamp b ≤ stamp a)
    (hunique : ∀ b ∈ xs, (entry b).1 = (entry a).1 → stamp b = stamp a → (entry b).2 = (entry a).2)
    (m : κ → Option ν) : patch m (xs.map entry) (entry a).1 = (entry a).2 := by
  have hentry : a ∈ entriesOf entry xs (entry a).1 := mem_entriesOf.mpr ⟨ha, rfl⟩
  have hne := List.ne_nil_of_mem hentry
  obtain ⟨hlast, hkey⟩ := mem_entriesOf.mp (List.getLast_mem hne)
  have hle := (hsorted.sublist List.filter_sublist).rel_getLast_of_rel_getLast_getLast hentry
    (fun _ => le_refl _) hkey.symm
  rw [patch_apply, List.getLast?_eq_some_getLast hne]
  exact hunique _ hlast hkey (le_antisymm (hlatest _ hlast hkey) hle)

/-- Of the entries of a key, one is the latest. -/
lemma exists_latest (stamp : α → τ) (entry : α → κ × Option ν) {xs : List α} {k : κ}
    (h : ∃ a ∈ xs, (entry a).1 = k) :
    ∃ a ∈ xs, (entry a).1 = k ∧ ∀ b ∈ xs, (entry b).1 = k → stamp b ≤ stamp a := by
  cases hmax : (entriesOf entry xs k).argmax stamp with
  | none =>
      obtain ⟨a, ha, hkey⟩ := h
      have hin := mem_entriesOf.mpr ⟨ha, hkey⟩
      rw [List.argmax_eq_none.mp hmax] at hin
      cases hin
  | some a =>
      obtain ⟨ha, hkey⟩ := mem_entriesOf.mp (List.argmax_mem hmax)
      refine ⟨a, ha, hkey, fun b hb hbkey => ?_⟩
      exact List.le_of_mem_argmax (mem_entriesOf.mpr ⟨hb, hbkey⟩) hmax

omit [DecidableEq κ] in
/-- With increasing stamps for each key, an entry is known by its key and its stamp. -/
lemma eq_of_stamp {xs : List α}
    (hxs : xs.Pairwise fun a b => (entry a).1 = (entry b).1 → stamp a < stamp b) {a b : α}
    (ha : a ∈ xs) (hb : b ∈ xs) (hkey : (entry b).1 = (entry a).1) (hstamp : stamp b = stamp a) :
    b = a := by
  have hpair := List.pairwise_iff_getElem.mp hxs
  obtain ⟨i, hi, rfl⟩ := List.getElem_of_mem ha
  obtain ⟨j, hj, rfl⟩ := List.getElem_of_mem hb
  rcases lt_trichotomy i j with hlt | heq | hlt
  · exact absurd hstamp (ne_of_gt (hpair i j hi hj hlt hkey.symm))
  · subst heq
    rfl
  · exact absurd hstamp (ne_of_lt (hpair j i hj hi hlt hkey))

/-- **The order of writing does not matter as long as the stamps are in order.** -/
theorem patch_eq_of_stamped (stamp : α → τ) (entry : α → κ × Option ν) {xs ys : List α}
    (hmem : ∀ a, a ∈ xs ↔ a ∈ ys)
    (hxs : xs.Pairwise fun a b => (entry a).1 = (entry b).1 → stamp a < stamp b)
    (hys : ys.Pairwise fun a b => stamp a ≤ stamp b) (m : κ → Option ν) :
    patch m (ys.map entry) = patch m (xs.map entry) := by
  funext k
  by_cases hk : ∃ a ∈ xs, (entry a).1 = k
  · obtain ⟨a, ha, rfl, hmax⟩ := exists_latest stamp entry hk
    have hx : patch m (xs.map entry) (entry a).1 = (entry a).2 := by
      refine patch_of_latest stamp entry ?_ ha hmax ?_ m
      · refine hxs.imp ?_
        intro b c hlt hkey
        exact le_of_lt (hlt hkey)
      · intro b hb hkey hstamp
        rw [eq_of_stamp hxs ha hb hkey hstamp]
    have hy : patch m (ys.map entry) (entry a).1 = (entry a).2 := by
      refine patch_of_latest stamp entry ?_ ((hmem a).mp ha) ?_ ?_ m
      · refine hys.imp ?_
        intro b c hle _
        exact hle
      · intro b hb
        exact hmax b ((hmem b).mpr hb)
      · intro b hb hkey hstamp
        rw [eq_of_stamp hxs ha ((hmem b).mpr hb) hkey hstamp]
    rw [hx, hy]
  · have hxsNone : ∀ a ∈ xs, (entry a).1 ≠ k := fun a ha hkey => hk ⟨a, ha, hkey⟩
    have hysNone : ∀ a ∈ ys, (entry a).1 ≠ k := fun a ha => hxsNone a ((hmem a).mpr ha)
    rw [patch_of_notMem hysNone, patch_of_notMem hxsNone]

end VersionedMap
