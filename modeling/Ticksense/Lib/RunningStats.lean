import Mathlib.Algebra.BigOperators.Ring.List
import Mathlib.Algebra.Order.BigOperators.Group.List
import Mathlib.Algebra.Order.Field.Basic
import Mathlib.Order.Monotone.Basic

/-!
# Statistics of a growing list

What a pass over a list keeps up to date: the greatest and the least element so far, and a weighted
mean.

* `max?_concat`, `min?_concat` — the extrema of a list with one more element.
* `max?_map` — the maximum along a monotone function.
* `le_weightedMean`, `weightedMean_le` — a mean with nonnegative weights lies between the bounds of
  the values.
-/

namespace RunningStats

section Extrema

variable {α β : Type*} [LinearOrder α] [LinearOrder β] {xs : List α} {a m : α}

lemma max?_concat (hm : xs.max? = some m) (a : α) : (xs ++ [a]).max? = some (max m a) := by
  cases xs with
  | nil => cases hm
  | cons x xs =>
      rw [List.max?_cons', Option.some.injEq] at hm
      rw [List.cons_append, List.max?_cons', List.foldl_append, hm]
      rfl

lemma min?_concat (hm : xs.min? = some m) (a : α) : (xs ++ [a]).min? = some (min m a) := by
  cases xs with
  | nil => cases hm
  | cons x xs =>
      rw [List.min?_cons', Option.some.injEq] at hm
      rw [List.cons_append, List.min?_cons', List.foldl_append, hm]
      rfl

lemma max?_map {f : α → β} (hf : Monotone f) (hm : xs.max? = some m) :
    (xs.map f).max? = some (f m) := by
  obtain ⟨hmem, hle⟩ := List.max?_eq_some_iff.mp hm
  refine List.max?_eq_some_iff.mpr ⟨List.mem_map_of_mem hmem, fun b hb => ?_⟩
  obtain ⟨x, hx, rfl⟩ := List.mem_map.mp hb
  exact hf (hle x hx)

end Extrema

/-! ## Weighted means -/

section Weighted

variable {ι α : Type*} [Field α] [LinearOrder α] [IsStrictOrderedRing α]
variable {value weight : ι → α} {xs : List ι} {bound : α}

/-- The weighted sum of values that are bounded. -/
lemma sum_mul_le (hweight : ∀ i ∈ xs, 0 ≤ weight i) (hvalue : ∀ i ∈ xs, value i ≤ bound) :
    (xs.map fun i => value i * weight i).sum ≤ bound * (xs.map weight).sum := by
  calc (xs.map fun i => value i * weight i).sum
      ≤ (xs.map fun i => bound * weight i).sum :=
        List.sum_le_sum fun i hi => mul_le_mul_of_nonneg_right (hvalue i hi) (hweight i hi)
    _ = bound * (xs.map weight).sum := List.sum_map_mul_left _ _ _

lemma le_sum_mul (hweight : ∀ i ∈ xs, 0 ≤ weight i) (hvalue : ∀ i ∈ xs, bound ≤ value i) :
    bound * (xs.map weight).sum ≤ (xs.map fun i => value i * weight i).sum := by
  calc bound * (xs.map weight).sum
      = (xs.map fun i => bound * weight i).sum := (List.sum_map_mul_left _ _ _).symm
    _ ≤ (xs.map fun i => value i * weight i).sum :=
        List.sum_le_sum fun i hi => mul_le_mul_of_nonneg_right (hvalue i hi) (hweight i hi)

/-- **A weighted mean is bounded by what bounds the values.** -/
theorem weightedMean_le (hweight : ∀ i ∈ xs, 0 ≤ weight i) (hvalue : ∀ i ∈ xs, value i ≤ bound)
    (hpos : 0 < (xs.map weight).sum) :
    (xs.map fun i => value i * weight i).sum / (xs.map weight).sum ≤ bound :=
  (div_le_iff₀ hpos).mpr (sum_mul_le hweight hvalue)

theorem le_weightedMean (hweight : ∀ i ∈ xs, 0 ≤ weight i) (hvalue : ∀ i ∈ xs, bound ≤ value i)
    (hpos : 0 < (xs.map weight).sum) :
    bound ≤ (xs.map fun i => value i * weight i).sum / (xs.map weight).sum :=
  (le_div_iff₀ hpos).mpr (le_sum_mul hweight hvalue)

end Weighted

end RunningStats
