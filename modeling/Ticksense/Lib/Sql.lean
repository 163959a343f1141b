import Mathlib.Data.Fin.Tuple.Sort
import Mathlib.Data.List.MinMax
import Mathlib.Data.List.OfFn
import Mathlib.Data.List.ReduceOption
import Mathlib.Algebra.Field.Basic
import Ticksense.Lib.Dict

/-!
# Queries over nullable columns

The part of SQL an aggregating query uses.  A nullable value is an `Option`.

* `max`, `min`, `sum`, `avg`, `firstValue`, `lastValue` — the aggregates; all skip nulls, and all
  are null when nothing is left.
* `groupBy` — `GROUP BY`: the rows of each key, in their order.
* `RowNumber` — `ROW_NUMBER() OVER (ORDER BY …)`: an engine may number rows with equal sort keys in
  any order, so a numbering is any permutation that agrees with the sort keys.
* `max_case_first` — `MAX(CASE WHEN rn = 1 THEN v END)` is the value of the row numbered first;
  `firstRows` — `WHERE rn = 1`; `exists_first` — any row with the first key may be numbered first.
* `filterMap_inOrder_eq`, `exists_filterMap_inOrder_ne` — the values in the order of the numbers are
  the same for all numberings if rows of equal key have the same value, and only then.
* `leftJoin` — `LEFT JOIN`; nulls are equal to nothing (`eq`).
* `OrderBy`, `FirstRows`, `FirstRowsPerKey` — ordered results, with a limit, with a limit per key.
* `overwritePartitions` — a write that replaces the partitions it has rows for.
-/

namespace Sql

variable {α β κ : Type*}

/-! ## Aggregates -/

/-- `MAX` -/
def max [Max α] (vs : List (Option α)) : Option α := vs.reduceOption.max?

/-- `MIN` -/
def min [Min α] (vs : List (Option α)) : Option α := vs.reduceOption.min?

/-- `SUM` -/
def sum [Add α] [Zero α] (vs : List (Option α)) : Option α :=
  if vs.reduceOption.isEmpty then none else some vs.reduceOption.sum

/-- `AVG` -/
def avg [Add α] [Zero α] [Div α] [NatCast α] (vs : List (Option α)) : Option α :=
  if vs.reduceOption.isEmpty then none
  else some (vs.reduceOption.sum / (vs.reduceOption.length : α))

/-- `FIRST_VALUE` -/
def firstValue (vs : List (Option α)) : Option α := vs.reduceOption.head?

/-- `LAST_VALUE` -/
def lastValue (vs : List (Option α)) : Option α := vs.reduceOption.getLast?

lemma reduceOption_map_some (vs : List α) : (vs.map some).reduceOption = vs := by
  induction vs with
  | nil => rfl
  | cons v vs ih => rw [List.map_cons, List.reduceOption_cons_of_some, ih]

lemma sum_map_some [Add α] [Zero α] {vs : List α} (h : vs ≠ []) :
    sum (vs.map some) = some vs.sum := by
  rw [sum, reduceOption_map_some, if_neg (by simpa using h)]

lemma avg_map_some [Add α] [Zero α] [Div α] [NatCast α] {vs : List α} (h : vs ≠ []) :
    avg (vs.map some) = some (vs.sum / (vs.length : α)) := by
  rw [avg, reduceOption_map_some, if_neg (by simpa using h)]

/-- Without rounding, an average does not depend on the order of its rows. -/
lemma avg_perm [AddCommMonoid α] [Div α] [NatCast α] {vs ws : List (Option α)} (h : vs.Perm ws) :
    avg vs = avg ws := by
  have hvalues : vs.reduceOption.Perm ws.reduceOption := h.filterMap id
  rw [avg, avg, hvalues.isEmpty_eq, hvalues.sum_eq, hvalues.length_eq]

lemma max_map_some [Max α] (vs : List α) : max (vs.map some) = vs.max? := by
  rw [max, reduceOption_map_some]

lemma min_map_some [Min α] (vs : List α) : min (vs.map some) = vs.min? := by
  rw [min, reduceOption_map_some]

lemma firstValue_map_some (vs : List α) : firstValue (vs.map some) = vs.head? := by
  rw [firstValue, reduceOption_map_some]

lemma lastValue_map_some (vs : List α) : lastValue (vs.map some) = vs.getLast? := by
  rw [lastValue, reduceOption_map_some]

/-- The maximum of a column whose values are all the same, or null. -/
lemma max_of_unique [LinearOrder α] {vs : List (Option α)} {v : Option α} (hmem : v ∈ vs)
    (hall : ∀ a, some a ∈ vs → v = some a) : max vs = v := by
  cases v with
  | none =>
      have hnone : vs.reduceOption = [] := by
        refine List.eq_nil_iff_forall_not_mem.mpr fun a ha => ?_
        have := hall a (List.reduceOption_mem_iff.mp ha)
        cases this
      rw [max, hnone]
      rfl
  | some a =>
      refine List.max?_eq_some_iff.mpr ⟨List.reduceOption_mem_iff.mpr hmem, fun b hb => ?_⟩
      have := hall b (List.reduceOption_mem_iff.mp hb)
      exact (Option.some.inj this).ge

/-- The maximum depends on which values there are only. -/
lemma max_congr [LinearOrder α] {vs ws : List (Option α)} (h : ∀ v, v ∈ vs ↔ v ∈ ws) :
    max vs = max ws := by
  refine Option.ext fun a => ?_
  simp only [max, List.max?_eq_some_iff, List.reduceOption_mem_iff, h]

/-- And so does the minimum. -/
lemma min_congr [LinearOrder α] {vs ws : List (Option α)} (h : ∀ v, v ∈ vs ↔ v ∈ ws) :
    min vs = min ws := by
  refine Option.ext fun a => ?_
  simp only [min, List.min?_eq_some_iff, List.reduceOption_mem_iff, h]

/-! ## Groups -/

section Groups

variable [DecidableEq κ]

/-- `GROUP BY` -/
def groupBy (key : α → κ) (rows : List α) : List (κ × List α) :=
  (Dict.group (rows.map fun row => (key row, row))).items

lemma valuesOf_keyed (key : α → κ) (rows : List α) (k : κ) :
    Dict.valuesOf (rows.map fun row => (key row, row)) k = rows.filter (key · = k) := by
  induction rows with
  | nil => rfl
  | cons row rows ih =>
      simp only [Dict.valuesOf] at ih
      by_cases hk : key row = k <;> simp [Dict.valuesOf, hk, ih]

/-- **The groups**: one for each key that occurs, with its rows. -/
theorem mem_groupBy {key : α → κ} {rows : List α} {k : κ} {group : List α} :
    (k, group) ∈ groupBy key rows ↔ group = rows.filter (key · = k) ∧ group ≠ [] := by
  rw [groupBy, Dict.mem_items_iff, Dict.get?_group, valuesOf_keyed]
  split_ifs with hnil
  · simp only [false_iff, not_and, not_not]
    intro h
    exact h.trans hnil
  · rw [Option.some.injEq]
    constructor
    · rintro rfl
      exact ⟨rfl, hnil⟩
    · rintro ⟨rfl, _⟩
      rfl

lemma nodup_keys_groupBy (key : α → κ) (rows : List α) :
    ((groupBy key rows).map Prod.fst).Nodup := Dict.nodup _

lemma mem_keys_groupBy {key : α → κ} {rows : List α} {k : κ} :
    k ∈ (groupBy key rows).map Prod.fst ↔ k ∈ rows.map key := by
  rw [List.mem_map, List.mem_map]
  constructor
  · rintro ⟨⟨k', group⟩, hgroup, rfl⟩
    obtain ⟨rfl, hne⟩ := mem_groupBy.mp hgroup
    obtain ⟨row, hrow⟩ := List.exists_mem_of_ne_nil _ hne
    obtain ⟨hrow, hkey⟩ := List.mem_filter.mp hrow
    exact ⟨row, hrow, of_decide_eq_true hkey⟩
  · rintro ⟨row, hrow, rfl⟩
    refine ⟨(key row, rows.filter (key · = key row)), mem_groupBy.mpr ⟨rfl, ?_⟩, rfl⟩
    exact List.ne_nil_of_mem (List.mem_filter.mpr ⟨hrow, decide_eq_true rfl⟩)

@[simp] lemma groupBy_nil (key : α → κ) : groupBy key [] = [] := rfl

/-- Rows with one key are one group. -/
lemma groupBy_of_forall {key : α → κ} {rows : List α} {k : κ} (hk : ∀ row ∈ rows, key row = k)
    (hne : rows ≠ []) : groupBy key rows = [(k, rows)] := by
  have hfilter : rows.filter (key · = k) = rows := by
    rw [List.filter_eq_self]
    intro row hrow
    simpa using hk row hrow
  have hmem : (k, rows) ∈ groupBy key rows := mem_groupBy.mpr ⟨hfilter.symm, hne⟩
  have hall : ∀ g ∈ groupBy key rows, g = (k, rows) := by
    rintro ⟨k', group⟩ hg
    rcases mem_groupBy.mp hg with ⟨rfl, hgroup⟩
    rcases List.exists_mem_of_ne_nil _ hgroup with ⟨row, hrow⟩
    rcases List.mem_filter.mp hrow with ⟨hrow, hkey⟩
    have heq : k' = k := by
      rw [← hk row hrow]
      exact (of_decide_eq_true hkey).symm
    rw [heq, hfilter]
  have hnodup : (groupBy key rows).Nodup := (Dict.nodup _).of_map
  exact List.perm_singleton.mp
    ((List.perm_ext_iff_of_nodup hnodup (List.nodup_singleton _)).mpr fun g =>
      ⟨fun hg => List.mem_singleton.mpr (hall g hg), fun hg => List.mem_singleton.mp hg ▸ hmem⟩)

end Groups

/-! ## Row numbers -/

/-- A numbering of rows in sort order: the position of the row with each number, from 0. -/
structure RowNumber (le : α → α → Prop) (rows : List α) where
  order : Equiv.Perm (Fin rows.length)
  sorted : ∀ i j, i ≤ j → le (rows.get (order i)) (rows.get (order j))

namespace RowNumber

variable {le : α → α → Prop} {rows : List α}

/-- `ROW_NUMBER()` of the row at a position. -/
def number (rn : RowNumber le rows) (i : Fin rows.length) : ℕ := rn.order.symm i + 1

/-- A numbering by a sort key. -/
def ofKey [LinearOrder κ] (key : α → κ) (rows : List α) :
    RowNumber (fun a b => key a ≤ key b) rows where
  order := Tuple.sort fun i => key (rows.get i)
  sorted := fun _ _ h => Tuple.monotone_sort (fun i => key (rows.get i)) h

/-- The position of the row numbered first. -/
def first (rn : RowNumber le rows) (h : 0 < rows.length) : Fin rows.length := rn.order ⟨0, h⟩

lemma number_eq_one_iff (rn : RowNumber le rows) (h : 0 < rows.length) {i : Fin rows.length} :
    rn.number i = 1 ↔ i = rn.first h := by
  rw [number, first, ← Equiv.symm_apply_eq, Fin.ext_iff]
  simp

/-- The first row comes before all others. -/
lemma first_le (rn : RowNumber le rows) (h : 0 < rows.length) (i : Fin rows.length) :
    le (rows.get (rn.first h)) (rows.get i) := by
  have := rn.sorted ⟨0, h⟩ (rn.order.symm i) (Nat.zero_le _)
  rwa [Equiv.apply_symm_apply] at this

/-- **The value of the row numbered first.** -/
theorem max_case_first [LinearOrder β] (rn : RowNumber le rows) (h : 0 < rows.length)
    (f : α → Option β) :
    max (List.ofFn fun i => if rn.number i = 1 then f (rows.get i) else none)
      = f (rows.get (rn.first h)) := by
  refine max_of_unique ?_ ?_
  · refine List.mem_ofFn.mpr ⟨rn.first h, ?_⟩
    simp [(rn.number_eq_one_iff h).mpr rfl]
  · intro a ha
    rcases List.mem_ofFn.mp ha with ⟨i, hi⟩
    by_cases hone : rn.number i = 1
    · rw [if_pos hone] at hi
      rw [← (rn.number_eq_one_iff h).mp hone, hi]
    · rw [if_neg hone] at hi
      cases hi

/-- `WHERE rn = 1` -/
def firstRows (rn : RowNumber le rows) : List α :=
  ((List.finRange rows.length).filter fun i => rn.number i = 1).map rows.get

lemma firstRows_eq (rn : RowNumber le rows) (h : 0 < rows.length) :
    rn.firstRows = [rows.get (rn.first h)] := by
  have hfilter : (List.finRange rows.length).filter (fun i => rn.number i = 1) =
      (List.finRange rows.length).filter (· = rn.first h) :=
    List.filter_congr fun i _ => decide_eq_decide.mpr (rn.number_eq_one_iff h)
  rw [firstRows, hfilter, List.filter_eq,
    List.count_eq_one_of_mem (List.nodup_finRange _) (List.mem_finRange _)]
  rfl

/-- **Ties are up to the engine**: whichever row has the first key, a numbering begins with it. -/
theorem exists_first [LinearOrder κ] (key : α → κ) (rows : List α) (i : Fin rows.length)
    (hi : ∀ j, key (rows.get i) ≤ key (rows.get j)) :
    ∃ rn : RowNumber (fun a b => key a ≤ key b) rows, ∀ h, rn.first h = i := by
  -- among equal keys, the row comes first
  let place : Fin rows.length → κ ×ₗ ℕ := fun j => toLex (key (rows.get j), if j = i then 0 else 1)
  have hmonotone := Tuple.monotone_sort place
  refine ⟨⟨Tuple.sort place, fun j k hjk => ?_⟩, fun h => ?_⟩
  · exact (Prod.Lex.toLex_le_toLex.mp (hmonotone hjk)).elim le_of_lt fun h => h.1.le
  · have hle : place (Tuple.sort place ⟨0, h⟩) ≤ place i := by
      have := hmonotone (show (⟨0, h⟩ : Fin rows.length) ≤ (Tuple.sort place).symm i from
        Nat.zero_le _)
      simpa using this
    rcases Prod.Lex.toLex_le_toLex.mp hle with hlt | ⟨-, hplace⟩
    · exact absurd hlt (not_lt.mpr (hi _))
    · by_contra hne
      simp [show Tuple.sort place ⟨0, h⟩ ≠ i from hne] at hplace

/-- An engine that numbers all lists of rows can number one list in any way. -/
lemma exists_extension [LinearOrder κ] (key : α → κ) {group : List α}
    (rn : RowNumber (fun a b => key a ≤ key b) group) :
    ∃ number : ∀ rows : List α, RowNumber (fun a b => key a ≤ key b) rows, number group = rn := by
  classical
  exact ⟨fun rows => if h : rows = group then h ▸ rn else ofKey key rows, by simp⟩

/-- The same for an engine that numbers all lists of rows. -/
theorem exists_numbering [LinearOrder κ] (key : α → κ) {group : List α} {a : α} (ha : a ∈ group)
    (hfirst : ∀ b ∈ group, key a ≤ key b) :
    ∃ number : ∀ rows : List α, RowNumber (fun a b => key a ≤ key b) rows,
      ∀ h, group.get ((number group).first h) = a := by
  obtain ⟨i, rfl⟩ := List.get_of_mem ha
  obtain ⟨rn, hrn⟩ := exists_first key group i fun j => hfirst _ (List.get_mem group j)
  obtain ⟨number, rfl⟩ := exists_extension key rn
  exact ⟨number, fun h => by rw [hrn h]⟩

/-! ### The rows in order -/

/-- The rows in the order of their numbers. -/
def inOrder (rn : RowNumber le rows) : List α := List.ofFn fun i => rows.get (rn.order i)

lemma inOrder_perm (rn : RowNumber le rows) : rn.inOrder.Perm rows := by
  have hperm := Equiv.Perm.ofFn_comp_perm rn.order rows.get
  rwa [List.ofFn_get] at hperm

lemma pairwise_inOrder (rn : RowNumber le rows) : rn.inOrder.Pairwise le :=
  List.pairwise_ofFn.mpr fun i j hij => rn.sorted i j hij.le

/-- **Ties of one value do not matter**: where rows of equal key have the same value, if any, all
numberings have the values in the same order. -/
theorem filterMap_inOrder_eq [LinearOrder κ] {key : α → κ} {f : α → Option β}
    (h : ∀ a ∈ rows, ∀ b ∈ rows, key a = key b → ∀ x ∈ f a, ∀ y ∈ f b, x = y)
    (rn rn' : RowNumber (fun a b => key a ≤ key b) rows) :
    rn.inOrder.filterMap f = rn'.inOrder.filterMap f := by
  -- with its key, each value has its place
  let keyed : α → Option (κ × β) := fun a => (f a).map (Prod.mk (key a))
  have hvalues : ∀ l : List α, (l.filterMap keyed).map Prod.snd = l.filterMap f := by
    intro l
    rw [List.map_filterMap]
    refine List.filterMap_congr fun a _ => ?_
    simp [keyed, Function.comp_def]
  have hsorted : ∀ rn : RowNumber (fun a b => key a ≤ key b) rows,
      (rn.inOrder.filterMap keyed).Pairwise fun p q => p.1 ≤ q.1 := by
    intro rn
    refine List.pairwise_filterMap.mpr (rn.pairwise_inOrder.imp ?_)
    intro a b hle p hp q hq
    obtain ⟨x, _, rfl⟩ := Option.map_eq_some_iff.mp hp
    obtain ⟨y, _, rfl⟩ := Option.map_eq_some_iff.mp hq
    exact hle
  have hfrom : ∀ (rn : RowNumber (fun a b => key a ≤ key b) rows), ∀ p ∈ rn.inOrder.filterMap keyed,
      ∃ a ∈ rows, key a = p.1 ∧ p.2 ∈ f a := by
    intro rn p hp
    obtain ⟨a, ha, hp⟩ := List.mem_filterMap.mp hp
    obtain ⟨x, hx, rfl⟩ := Option.map_eq_some_iff.mp hp
    exact ⟨a, rn.inOrder_perm.mem_iff.mp ha, rfl, hx⟩
  rw [← hvalues, ← hvalues]
  congr 1
  refine List.Perm.eq_of_pairwise ?_ (hsorted rn) (hsorted rn')
    ((rn.inOrder_perm.trans rn'.inOrder_perm.symm).filterMap keyed)
  intro p q hp hq hle hge
  obtain ⟨a, ha, hakey, hx⟩ := hfrom rn p hp
  obtain ⟨b, hb, hbkey, hy⟩ := hfrom rn' q hq
  have hkey : p.1 = q.1 := le_antisymm hle hge
  exact Prod.ext hkey (h a ha b hb (by rw [hakey, hbkey, hkey]) _ hx _ hy)

/-- Lists that differ in one place and not before it differ in their values. -/
lemma filterMap_ofFn_ne {n : ℕ} {g g' : Fin n → α} {f : α → Option β} {p : Fin n}
    (hbefore : ∀ k < p, g k = g' k) {x y : β} (hx : f (g p) = some x) (hy : f (g' p) = some y)
    (hne : x ≠ y) : (List.ofFn g).filterMap f ≠ (List.ofFn g').filterMap f := by
  have hsplit : ∀ g : Fin n → α,
      List.ofFn g = (List.ofFn g).take p ++ g p :: (List.ofFn g).drop (p + 1) := by
    intro g
    have hp : (p : ℕ) < (List.ofFn g).length := by simp
    conv_lhs => rw [← List.take_append_drop p (List.ofFn g), List.drop_eq_getElem_cons hp]
    simp
  have hsame : (List.ofFn g).take p = (List.ofFn g').take p := by
    refine List.ext_getElem (by simp) fun k hk _ => ?_
    have hlt : k < (p : ℕ) := by
      rw [List.length_take] at hk
      omega
    simpa using hbefore ⟨k, hlt.trans p.2⟩ hlt
  intro heq
  rw [hsplit g, hsplit g', hsame, List.filterMap_append, List.filterMap_append,
    List.append_cancel_left_eq, List.filterMap_cons_some hx, List.filterMap_cons_some hy] at heq
  exact hne (List.cons.inj heq).1

/-- Two rows of equal key trade places. -/
def trade [LinearOrder κ] {key : α → κ} (rn : RowNumber (fun a b => key a ≤ key b) rows)
    (p q : Fin rows.length) (h : key (rows.get (rn.order p)) = key (rows.get (rn.order q))) :
    RowNumber (fun a b => key a ≤ key b) rows where
  order := (Equiv.swap p q).trans rn.order
  sorted := by
    have hkeys : ∀ k, key (rows.get (rn.order (Equiv.swap p q k)))
        = key (rows.get (rn.order k)) := by
      intro k
      by_cases hkp : k = p
      · rw [hkp, Equiv.swap_apply_left, h]
      · by_cases hkq : k = q
        · rw [hkq, Equiv.swap_apply_right, h]
        · rw [Equiv.swap_apply_of_ne_of_ne hkp hkq]
    intro k l hkl
    simp only [Equiv.trans_apply, hkeys]
    exact rn.sorted k l hkl

/-- Rows that trade places show if their values differ, at the first of the two places. -/
lemma filterMap_trade_ne [LinearOrder κ] {key : α → κ} {f : α → Option β}
    {rn : RowNumber (fun a b => key a ≤ key b) rows} {p q : Fin rows.length}
    (h : key (rows.get (rn.order p)) = key (rows.get (rn.order q))) {x y : β}
    (hx : f (rows.get (rn.order p)) = some x) (hy : f (rows.get (rn.order q)) = some y)
    (hne : x ≠ y) : rn.inOrder.filterMap f ≠ (rn.trade p q h).inOrder.filterMap f := by
  have hothers : ∀ k, k ≠ p → k ≠ q →
      rows.get (rn.order k) = rows.get ((rn.trade p q h).order k) := by
    intro k hkp hkq
    rw [trade, Equiv.trans_apply, Equiv.swap_apply_of_ne_of_ne hkp hkq]
  have hp : f (rows.get ((rn.trade p q h).order p)) = some y := by
    rw [trade, Equiv.trans_apply, Equiv.swap_apply_left, hy]
  have hq : f (rows.get ((rn.trade p q h).order q)) = some x := by
    rw [trade, Equiv.trans_apply, Equiv.swap_apply_right, hx]
  rcases lt_trichotomy p q with hlt | rfl | hlt
  · exact filterMap_ofFn_ne (fun k hk => hothers k hk.ne (hk.trans hlt).ne) hx hp hne
  · rw [hx, Option.some.injEq] at hy
    exact absurd hy hne
  · exact filterMap_ofFn_ne (fun k hk => hothers k (hk.trans hlt).ne hk.ne) hy hq hne.symm

/-- **Ties of two values do matter.** -/
theorem exists_filterMap_inOrder_ne [LinearOrder κ] {key : α → κ} {f : α → Option β} {a b : α}
    (ha : a ∈ rows) (hb : b ∈ rows) (hkey : key a = key b) {x y : β} (hx : f a = some x)
    (hy : f b = some y) (hne : x ≠ y) :
    ∃ rn rn' : RowNumber (fun a b => key a ≤ key b) rows,
      rn.inOrder.filterMap f ≠ rn'.inOrder.filterMap f := by
  obtain ⟨i, rfl⟩ := List.get_of_mem ha
  obtain ⟨j, rfl⟩ := List.get_of_mem hb
  have hplace : ∀ k, (ofKey key rows).order ((ofKey key rows).order.symm k) = k :=
    (ofKey key rows).order.apply_symm_apply
  rw [← hplace i] at hkey hx
  rw [← hplace j] at hkey hy
  exact ⟨ofKey key rows, _, filterMap_trade_ne hkey hx hy hne⟩

end RowNumber

/-! ## Joins -/

/-- `=` of nullable values. -/
def eq [DecidableEq α] (a b : Option α) : Bool := a.isSome && a = b

lemma eq_iff [DecidableEq α] {a b : Option α} : eq a b = true ↔ a = b ∧ a ≠ none := by
  rw [eq, Bool.and_eq_true, decide_eq_true_eq, Option.isSome_iff_ne_none, and_comm]

/-- `LEFT JOIN` -/
def leftJoin (on : α → β → Bool) (left : List α) (right : List β) : List (α × Option β) :=
  left.flatMap fun a =>
    if (right.filter (on a)).isEmpty then [(a, none)]
    else (right.filter (on a)).map fun b => (a, some b)

section LeftJoin

variable {on : α → β → Bool} {left : List α} {right : List β} {rightKey : β → κ}

/-- A row is found by its key. -/
lemma find?_of_key (leftKey : α → κ) (hkeys : (right.map rightKey).Nodup)
    (hon : ∀ a b, on a b = true → rightKey b = leftKey a) {a : α} {b : β} (hb : b ∈ right)
    (hab : on a b = true) : right.find? (on a) = some b := by
  cases hfind : right.find? (on a) with
  | none => exact absurd hab (List.find?_eq_none.mp hfind b hb)
  | some b' =>
      have hsame : rightKey b' = rightKey b := by
        rw [hon a b hab, hon a b' (List.find?_some hfind)]
      rw [List.inj_on_of_nodup_map hkeys (List.mem_of_find?_eq_some hfind) hb hsame]

/-- **A join by a key of the right side** has one row for each row of the left side. -/
theorem leftJoin_eq_map (leftKey : α → κ) (hkeys : (right.map rightKey).Nodup)
    (hon : ∀ a b, on a b = true → rightKey b = leftKey a) :
    leftJoin on left right = left.map fun a => (a, right.find? (on a)) := by
  rw [leftJoin, ← List.flatMap_singleton' (left.map _), List.flatMap_map]
  refine List.flatMap_congr fun a _ => ?_
  rcases hmatches : right.filter (on a) with _ | ⟨b, rest⟩
  · rw [← List.head?_filter, hmatches]
    rfl
  · have hmem : ∀ b' ∈ b :: rest, b' ∈ right ∧ on a b' = true := by
      intro b' hb'
      rwa [← hmatches, List.mem_filter] at hb'
    have hnodup : ((b :: rest).map rightKey).Nodup := by
      rw [← hmatches]
      exact hkeys.sublist (List.filter_sublist.map _)
    have hrest : rest = [] := by
      refine List.eq_nil_iff_forall_not_mem.mpr fun b' hb' => ?_
      rw [List.map_cons, List.nodup_cons] at hnodup
      refine hnodup.1 (List.mem_map.mpr ⟨b', hb', ?_⟩)
      rw [hon a b' (hmem b' (List.mem_cons_of_mem b hb')).2, hon a b (hmem b List.mem_cons_self).2]
    obtain ⟨hb, hab⟩ := hmem b List.mem_cons_self
    rw [hrest, find?_of_key leftKey hkeys hon hb hab]
    rfl

end LeftJoin

/-! ## Ordered results -/

/-- `ORDER BY`; rows with equal sort keys in any order. -/
def OrderBy (le : α → α → Prop) (rows result : List α) : Prop :=
  result.Perm rows ∧ result.Pairwise le

/-- `ORDER BY … LIMIT n` -/
def FirstRows (le : α → α → Prop) (n : ℕ) (rows result : List α) : Prop :=
  ∃ sorted, OrderBy le rows sorted ∧ result = sorted.take n

/-- `WHERE rn <= n`, where `rn` is the `ROW_NUMBER() OVER (PARTITION BY key ORDER BY …)`. -/
def FirstRowsPerKey [DecidableEq κ] (key : α → κ) (le : α → α → Prop) (n : ℕ)
    (rows result : List α) : Prop :=
  ∀ k, ∃ first, FirstRows le n (rows.filter (key · = k)) first ∧
    (result.filter (key · = k)).Perm first

section Ordered

variable {le : α → α → Prop} {rows result result' : List α}

lemma OrderBy.filter (h : OrderBy le rows result) (p : α → Bool) :
    OrderBy le (rows.filter p) (result.filter p) :=
  ⟨h.1.filter p, h.2.filter p⟩

/-- Rows whose order is determined have one result. -/
lemma OrderBy.unique (hle : ∀ a ∈ rows, ∀ b ∈ rows, le a b → le b a → a = b)
    (h : OrderBy le rows result) (h' : OrderBy le rows result') : result = result' := by
  refine List.Perm.eq_of_pairwise ?_ h.2 h'.2 (h.1.trans h'.1.symm)
  intro a b ha hb
  exact hle a (h.1.mem_iff.mp ha) b (h'.1.mem_iff.mp hb)

/-- A condition that holds from the beginning up to some row commutes with `LIMIT`. -/
lemma filter_take {p : α → Bool} (hp : result.Pairwise fun a b => p b → p a) (n : ℕ) :
    (result.take n).filter p = (result.filter p).take n := by
  induction result generalizing n with
  | nil => simp
  | cons a result ih =>
      rw [List.pairwise_cons] at hp
      cases n with
      | zero => simp
      | succ n =>
          by_cases ha : p a
          · simp [ha, ih hp.2]
          · have hnone : ∀ b ∈ result, ¬ p b := fun b hb hpb => ha (hp.1 b hb hpb)
            have hempty : ∀ l : List α, (∀ b ∈ l, ¬ p b) → l.filter p = [] := by
              intro l hl
              exact List.filter_eq_nil_iff.mpr hl
            rw [List.take_succ_cons, List.filter_cons_of_neg ha, List.filter_cons_of_neg ha,
              hempty result hnone, hempty (result.take n) fun b hb =>
                hnone b (List.mem_of_mem_take hb), List.take_nil]

end Ordered

/-! ## Partitioned tables -/

section Partitions

variable [DecidableEq κ]

/-- Dynamic partition overwrite: the partitions the frame has rows in are replaced. -/
def overwritePartitions (partition : α → κ) (table frame : List α) : List α :=
  table.filter (fun row => partition row ∉ frame.map partition) ++ frame

lemma mem_overwritePartitions {partition : α → κ} {table frame : List α} {row : α} :
    row ∈ overwritePartitions partition table frame ↔
      (row ∈ table ∧ partition row ∉ frame.map partition) ∨ row ∈ frame := by
  simp [overwritePartitions]

/-- Frames with the same partitions replace the same rows. -/
lemma survivors_congr {partition : α → κ} {frame frame' : List α}
    (h : ∀ p, p ∈ frame.map partition ↔ p ∈ frame'.map partition) (table : List α) :
    table.filter (fun row => partition row ∉ frame.map partition) =
      table.filter (fun row => partition row ∉ frame'.map partition) :=
  List.filter_congr fun row _ => decide_eq_decide.mpr (not_congr (h (partition row)))

/-- **A second overwrite** of the same partitions undoes the first. -/
theorem overwritePartitions_twice {partition : α → κ} {table frame frame' : List α}
    (h : ∀ p, p ∈ frame.map partition ↔ p ∈ frame'.map partition) :
    overwritePartitions partition (overwritePartitions partition table frame) frame' =
      overwritePartitions partition table frame' := by
  have hframe : frame.filter (fun row => partition row ∉ frame'.map partition) = [] := by
    refine List.filter_eq_nil_iff.mpr fun row hrow hnot => ?_
    exact of_decide_eq_true hnot ((h _).mp (List.mem_map_of_mem hrow))
  rw [overwritePartitions, overwritePartitions, overwritePartitions, List.filter_append, hframe,
    survivors_congr h, List.append_nil, List.filter_filter]
  simp only [Bool.and_self]

/-- **What survives an overwrite**: the rows of partitions that are not written. -/
theorem survives_iff {partition : α → κ} {table frame : List α} {row : α} (hrow : row ∈ table)
    (hframe : row ∉ frame) :
    row ∈ overwritePartitions partition table frame ↔ partition row ∉ frame.map partition := by
  rw [mem_overwritePartitions]
  constructor
  · intro h
    exact (h.resolve_right hframe).2
  · intro h
    exact Or.inl ⟨hrow, h⟩

end Partitions

end Sql
