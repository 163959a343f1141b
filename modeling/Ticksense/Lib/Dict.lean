import Mathlib.Data.List.Induction
import Mathlib.Data.List.Nodup
import Mathlib.Data.List.Sort
import Mathlib.Logic.Function.Basic

/-!
# Insertion-ordered dictionaries

A dictionary in the sense of a scripting language: a finite map that remembers the order in which
its keys were first inserted.  Assigning to a present key keeps the key's place, removing a key and
assigning it again moves it to the end.  The order is visible to anything that iterates over the
dictionary and decides ties between equal candidates, so it is part of the representation; the
map itself is `Dict.get?`.

* `Dict` — the items in insertion order, with the proof that no key occurs twice.
* `Dict.set`, `Dict.pop`, `Dict.ofList` — assignment, removal, construction from pairs.
* `Dict.get?_set`, `Dict.get?_pop` — on the map, each is one `Function.update`.  Everything a client
  proves about the *map* goes through these two and never looks at the items.
* `Dict.group` — the values of each key, collected in a list.
-/

/-- An insertion-ordered dictionary.  The field `nodup` is what makes `items` a map. -/
structure Dict (κ ν : Type*) where
  items : List (κ × ν)
  nodup : (items.map Prod.fst).Nodup
deriving DecidableEq, Repr

namespace Dict

variable {κ ν : Type*}

/-- The dictionary without items. -/
def empty : Dict κ ν := ⟨[], List.nodup_nil⟩

@[simp] lemma items_empty : (empty : Dict κ ν).items = [] := rfl

variable [DecidableEq κ]

/-- The value stored under a key. -/
def get? (d : Dict κ ν) (k : κ) : Option ν :=
  (d.items.find? fun kv => kv.1 = k).map Prod.snd

/-- Removal; an absent key is ignored. -/
def pop (d : Dict κ ν) (k : κ) : Dict κ ν where
  items := d.items.filter fun kv => kv.1 ≠ k
  nodup := d.nodup.sublist (List.filter_sublist.map Prod.fst)

/-- Assignment as an operation on the items: in place when the key is there, at the end
otherwise. -/
def setItems (items : List (κ × ν)) (k : κ) (v : ν) : List (κ × ν) :=
  if k ∈ items.map Prod.fst then items.map fun kv => if kv.1 = k then (k, v) else kv
  else items ++ [(k, v)]

/-- Assignment does not change the keys of a dictionary that already has the key. -/
lemma keys_setItems (items : List (κ × ν)) (k : κ) (v : ν) :
    (setItems items k v).map Prod.fst
      = if k ∈ items.map Prod.fst then items.map Prod.fst else items.map Prod.fst ++ [k] := by
  unfold setItems
  split_ifs with h
  · rw [List.map_map]
    refine List.map_congr_left fun kv _ => ?_
    by_cases hk : kv.1 = k <;> simp [hk]
  · simp

/-- Assignment. -/
def set (d : Dict κ ν) (k : κ) (v : ν) : Dict κ ν where
  items := setItems d.items k v
  nodup := by
    rw [keys_setItems]
    split_ifs with h
    · exact d.nodup
    · exact List.nodup_append.mpr
        ⟨d.nodup, List.nodup_singleton k, fun a ha b hb => by
          rw [List.mem_singleton] at hb; subst hb; exact fun hab => h (hab ▸ ha)⟩

/-- A dictionary built from pairs by assigning them one after the other, so that the last value
of a repeated key wins. -/
def ofList (kvs : List (κ × ν)) : Dict κ ν :=
  kvs.foldl (fun d kv => d.set kv.1 kv.2) empty

/-! ## The map -/

@[simp] lemma get?_empty (k : κ) : (empty : Dict κ ν).get? k = none := rfl

/-- Membership in the items is membership in the map. -/
lemma mem_items_iff {d : Dict κ ν} {k : κ} {v : ν} : (k, v) ∈ d.items ↔ d.get? k = some v := by
  constructor
  · intro h
    cases hf : d.items.find? fun kv => kv.1 = k with
    | none => simpa using List.find?_eq_none.mp hf _ h
    | some kv =>
        have hmem := List.mem_of_find?_eq_some hf
        have hkey : kv.1 = k := by simpa using List.find?_some hf
        have heq := List.inj_on_of_nodup_map d.nodup hmem h hkey
        simp [get?, hf, heq]
  · intro h
    obtain ⟨kv, hf, hv⟩ := Option.map_eq_some_iff.mp h
    have hkey : kv.1 = k := by simpa using List.find?_some hf
    have hmem := List.mem_of_find?_eq_some hf
    rwa [← hkey, ← hv]

/-- A key without a value occurs in no item. -/
lemma get?_eq_none_iff {d : Dict κ ν} {k : κ} : d.get? k = none ↔ k ∉ d.items.map Prod.fst := by
  simp only [get?, Option.map_eq_none_iff, List.find?_eq_none, decide_eq_true_eq, List.mem_map,
    Prod.exists, exists_and_right, exists_eq_right, not_exists, Prod.forall]
  exact ⟨fun h v hv => h k v hv rfl, fun h k' v hv hk => h v (hk ▸ hv)⟩

lemma get?_pop_self (d : Dict κ ν) (k : κ) : (d.pop k).get? k = none := by
  rw [get?_eq_none_iff]
  simp [pop]

lemma get?_pop_of_ne (d : Dict κ ν) {k k' : κ} (h : k' ≠ k) : (d.pop k).get? k' = d.get? k' := by
  refine Option.ext fun v => ?_
  rw [← mem_items_iff, ← mem_items_iff]
  simp [pop, h]

lemma get?_set_self (d : Dict κ ν) (k : κ) (v : ν) : (d.set k v).get? k = some v := by
  rw [← mem_items_iff]
  show (k, v) ∈ setItems d.items k v
  unfold setItems
  split_ifs with h
  · obtain ⟨kv, hkv, hk⟩ := List.mem_map.mp h
    exact List.mem_map.mpr ⟨kv, hkv, by rw [if_pos hk]⟩
  · simp

lemma get?_set_of_ne (d : Dict κ ν) {k k' : κ} (v : ν) (h : k' ≠ k) :
    (d.set k v).get? k' = d.get? k' := by
  refine Option.ext fun w => ?_
  rw [← mem_items_iff, ← mem_items_iff]
  show (k', w) ∈ setItems d.items k v ↔ _
  unfold setItems
  split_ifs with hk
  · constructor
    · intro hmem
      obtain ⟨kv, hkv, heq⟩ := List.mem_map.mp hmem
      split_ifs at heq with hkv'
      · exact absurd (congrArg Prod.fst heq).symm h
      · exact heq ▸ hkv
    · exact fun hmem => List.mem_map.mpr ⟨(k', w), hmem, by simp [h]⟩
  · simp [h]

/-- **Assignment is one point update of the map.** -/
theorem get?_set (d : Dict κ ν) (k : κ) (v : ν) :
    (d.set k v).get? = Function.update d.get? k (some v) := by
  funext k'
  by_cases h : k' = k
  · subst h
    rw [get?_set_self, Function.update_self]
  · rw [get?_set_of_ne d v h, Function.update_of_ne h]

/-- **Removal is one point update of the map.** -/
theorem get?_pop (d : Dict κ ν) (k : κ) : (d.pop k).get? = Function.update d.get? k none := by
  funext k'
  by_cases h : k' = k
  · subst h
    rw [get?_pop_self, Function.update_self]
  · rw [get?_pop_of_ne d h, Function.update_of_ne h]

omit [DecidableEq κ] in
/-- The items sorted by key are in strictly ascending order, since no key occurs twice. -/
lemma pairwise_sorted_items [LinearOrder κ] (d : Dict κ ν) :
    (d.items.insertionSort fun a b => a.1 ≤ b.1).Pairwise fun a b => a.1 < b.1 := by
  have hsorted := List.pairwise_insertionSort (fun a b : κ × ν => a.1 ≤ b.1) d.items
  have hperm := (List.perm_insertionSort (fun a b : κ × ν => a.1 ≤ b.1) d.items).map Prod.fst
  have hnodup := List.pairwise_map.mp (hperm.nodup_iff.mpr d.nodup)
  exact (hsorted.and hnodup).imp fun h => lt_of_le_of_ne h.1 h.2

/-! ## Construction from pairs -/

/-- Building from pairs that agree with a function `f` on their keys yields `f` on the listed keys
and keeps what was there elsewhere. -/
lemma get?_foldl_set (f : κ → ν) (kvs : List (κ × ν)) (hf : ∀ kv ∈ kvs, kv.2 = f kv.1)
    (d : Dict κ ν) (k : κ) :
    (kvs.foldl (fun d kv => d.set kv.1 kv.2) d).get? k
      = if k ∈ kvs.map Prod.fst then some (f k) else d.get? k := by
  induction kvs generalizing d with
  | nil => simp
  | cons kv kvs ih =>
      rw [List.foldl_cons, ih (fun kv' h => hf kv' (List.mem_cons_of_mem _ h))]
      by_cases hk : k ∈ kvs.map Prod.fst
      · rw [if_pos hk, if_pos (by simp only [List.map_cons, List.mem_cons]; exact Or.inr hk)]
      · rw [if_neg hk, get?_set]
        by_cases hkv : k = kv.1
        · subst hkv
          simp [hf kv List.mem_cons_self]
        · rw [Function.update_of_ne hkv, if_neg (by
            simp only [List.map_cons, List.mem_cons, not_or]; exact ⟨hkv, hk⟩)]

/-- Building from pairs leaves the keys that are not listed alone. -/
lemma get?_foldl_set_of_notMem (kvs : List (κ × ν)) {k : κ} (hk : k ∉ kvs.map Prod.fst)
    (d : Dict κ ν) : (kvs.foldl (fun d kv => d.set kv.1 kv.2) d).get? k = d.get? k := by
  induction kvs generalizing d with
  | nil => rfl
  | cons kv kvs ih =>
      simp only [List.map_cons, List.mem_cons, not_or] at hk
      rw [List.foldl_cons, ih hk.2, get?_set, Function.update_of_ne hk.1]

/-- **A complete listing builds the listed map.**  When the pairs are exactly the graph of a partial
map, in any order and with any repetitions, the dictionary is that map. -/
theorem get?_ofList {m : κ → Option ν} {kvs : List (κ × ν)}
    (h : ∀ k v, (k, v) ∈ kvs ↔ m k = some v) : (ofList kvs).get? = m := by
  funext k
  cases hm : m k with
  | none =>
      have habsent : k ∉ kvs.map Prod.fst := by
        intro hk
        obtain ⟨⟨k', v⟩, hkv, rfl⟩ := List.mem_map.mp hk
        rw [h, hm] at hkv
        cases hkv
      exact get?_foldl_set_of_notMem kvs habsent empty
  | some v =>
      have hlisted : k ∈ kvs.map Prod.fst := List.mem_map.mpr ⟨(k, v), (h k v).mpr hm, rfl⟩
      have hgraph : ∀ kv ∈ kvs, kv.2 = (m kv.1).getD v := by
        rintro ⟨k', v'⟩ hkv
        simp [(h k' v').mp hkv]
      rw [ofList, get?_foldl_set (fun k => (m k).getD v) kvs hgraph, if_pos hlisted]
      simp [hm]

/-! ## Grouping -/

/-- Collect the values of each key in a list, in order (`setdefault(key, []).append(value)`). -/
def group (kvs : List (κ × ν)) : Dict κ (List ν) :=
  kvs.foldl (fun d kv => d.set kv.1 ((d.get? kv.1).getD [] ++ [kv.2])) empty

/-- The values paired with a key. -/
def valuesOf (kvs : List (κ × ν)) (k : κ) : List ν := (kvs.filter fun kv => kv.1 = k).map Prod.snd

lemma mem_valuesOf {kvs : List (κ × ν)} {k : κ} {v : ν} : v ∈ valuesOf kvs k ↔ (k, v) ∈ kvs := by
  simp [valuesOf]

/-- **Grouping groups**: a key has the list of its values, and is absent when there is none. -/
theorem get?_group (kvs : List (κ × ν)) (k : κ) :
    (group kvs).get? k = if valuesOf kvs k = [] then none else some (valuesOf kvs k) := by
  induction kvs using List.reverseRecOn with
  | nil => rfl
  | append_singleton kvs kv ih =>
      have hlast : group (kvs ++ [kv])
          = (group kvs).set kv.1 (((group kvs).get? kv.1).getD [] ++ [kv.2]) := by
        simp [group]
      have hvalues : valuesOf (kvs ++ [kv]) k
          = if kv.1 = k then valuesOf kvs k ++ [kv.2] else valuesOf kvs k := by
        by_cases hk : kv.1 = k <;> simp [valuesOf, List.filter_append, hk]
      rw [hlast, get?_set, hvalues]
      by_cases hk : kv.1 = k
      · subst hk
        rw [Function.update_self, ih, if_pos rfl]
        by_cases hnil : valuesOf kvs kv.1 = [] <;> simp [hnil]
      · rw [Function.update_of_ne (Ne.symm hk), ih, if_neg hk]

end Dict
