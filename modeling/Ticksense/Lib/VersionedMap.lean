import Mathlib.Data.Int.Order.Basic
import Mathlib.Data.List.Chain
import Mathlib.Data.List.Induction
import Mathlib.Data.Set.Basic
import Mathlib.Logic.Function.Basic

/-!
# Replicating a versioned map from diffs

A *history* is a map under numbered point updates; `History.version h n` is the map after update
`n`.  A *diff* covers a range of updates: it claims to list every key those updates changed, with
the value the key has at the end of the range.  A *replica* holds a map and the number of the last
update it contains, and takes diffs one at a time under the usual rule

* a diff that ends at or before the replica's version is stale and changes nothing;
* a diff that begins after the next update leaves a gap and is refused;
* any other diff is patched in, and the replica moves to the end of its range.

**What the rule guarantees** (`Replica.offer_inSyncOn`).  If the replica agrees with the history on
a set of keys and knows nothing about the others, then after a truthful diff it agrees with the
history — at its new version — on the larger set that also contains the listed keys.  The whole map
is the case where the set is everything (`Replica.offerAll_inSync`): then no order, loss, overlap or
duplication of the diffs matters, because a loss that would matter is a gap.

A map into which diffs are written without the rule has a value for each key that was true once
(`patchAll_eq_some`), and is true as long as nothing has been missed since
(`version_eq_of_continues`).

The argument needs one fact about histories, `History.version_eq_of_unchanged`, and one about
patches, `patch_of_graph`.
-/

namespace VersionedMap

/-- A map under numbered point updates.  Update `n` is `update n`, for `n` from `1` on; setting a
key to `none` deletes it. -/
structure History (κ ν : Type*) where
  initial : κ → Option ν
  update : ℕ → κ × Option ν

/-- A listing of point values for the updates from `first` to `last`. -/
structure Diff (κ ν : Type*) where
  first : ℤ
  last : ℤ
  entries : List (κ × Option ν)

/-- A copy of the map, together with the number of the last update it contains. -/
structure Replica (κ ν : Type*) where
  last : ℤ
  map : κ → Option ν

variable {κ ν : Type*} [DecidableEq κ]

/-! ## Histories -/

/-- The map after update `n`. -/
def History.version (h : History κ ν) : ℕ → κ → Option ν
  | 0 => h.initial
  | n + 1 => Function.update (h.version n) (h.update (n + 1)).1 (h.update (n + 1)).2

/-- Update `n + 1` gives the key a different value. -/
def History.ChangedAt (h : History κ ν) (n : ℕ) (k : κ) : Prop :=
  h.version (n + 1) k ≠ h.version n k

/-- A key that no update of a range changes has the same value at both ends. -/
theorem History.version_eq_of_unchanged (h : History κ ν) (k : κ) {m n : ℕ} (hmn : m ≤ n)
    (hk : ∀ i, m ≤ i → i < n → ¬ h.ChangedAt i k) : h.version n k = h.version m k := by
  induction n, hmn using Nat.le_induction with
  | base => rfl
  | succ n hmn ih =>
      have hstep : h.version (n + 1) k = h.version n k :=
        not_not.mp (hk n hmn (Nat.lt_succ_self n))
      rw [hstep]
      exact ih fun i hmi hin => hk i hmi (Nat.lt_succ_of_lt hin)

/-! ## Diffs -/

/-- Write the listed values into a map, in order. -/
def patch (m : κ → Option ν) (entries : List (κ × Option ν)) : κ → Option ν :=
  entries.foldl (fun m e => Function.update m e.1 e.2) m

@[simp] lemma patch_nil (m : κ → Option ν) : patch m [] = m := rfl

@[simp] lemma patch_cons (m : κ → Option ν) (e : κ × Option ν) (entries : List (κ × Option ν)) :
    patch m (e :: entries) = patch (Function.update m e.1 e.2) entries := rfl

lemma patch_append (m : κ → Option ν) (xs ys : List (κ × Option ν)) :
    patch m (xs ++ ys) = patch (patch m xs) ys := List.foldl_append

/-- A property of the values in a map and of the listed values is one of the values after it. -/
lemma patch_forall {P : κ → ν → Prop} {entries : List (κ × Option ν)}
    (hentries : ∀ e ∈ entries, ∀ v, e.2 = some v → P e.1 v) {m : κ → Option ν}
    (hm : ∀ k v, m k = some v → P k v) {k : κ} {v : ν} (h : patch m entries k = some v) :
    P k v := by
  induction entries generalizing m with
  | nil => exact hm k v h
  | cons e entries ih =>
      rw [patch_cons] at h
      refine ih (fun e' he' => hentries e' (List.mem_cons_of_mem _ he')) ?_ h
      intro k' v' hv'
      rw [Function.update_apply] at hv'
      split_ifs at hv' with hk
      · subst hk
        exact hentries e List.mem_cons_self v' hv'
      · exact hm k' v' hv'

/-- Listing values of one function, however often and in whatever order, writes that function on
the listed keys. -/
theorem patch_of_graph (f : κ → Option ν) (entries : List (κ × Option ν))
    (hf : ∀ e ∈ entries, e.2 = f e.1) (m : κ → Option ν) (k : κ) :
    patch m entries k = if k ∈ entries.map Prod.fst then f k else m k := by
  induction entries generalizing m with
  | nil => simp
  | cons e entries ih =>
      rw [patch_cons, ih (fun e' he' => hf e' (List.mem_cons_of_mem _ he')), List.map_cons]
      by_cases hk : k ∈ entries.map Prod.fst
      · rw [if_pos hk, if_pos (List.mem_cons_of_mem _ hk)]
      · rw [if_neg hk]
        by_cases hke : k = e.1
        · subst hke
          rw [Function.update_self, if_pos List.mem_cons_self, hf e List.mem_cons_self]
        · rw [Function.update_of_ne hke, if_neg (by
            rw [List.mem_cons, not_or]; exact ⟨hke, hk⟩)]

/-- A map over pairs, seen as a family of maps: patching inside one member of the family is patching
that member. -/
lemma patch_member {α β ν : Type*} [DecidableEq α] [DecidableEq β] (a : α)
    (entries : List (β × Option ν)) (m : α × β → Option ν) (k : α × β) :
    patch m (entries.map fun e => ((a, e.1), e.2)) k
      = if k.1 = a then patch (fun b => m (a, b)) entries k.2 else m k := by
  obtain ⟨a', b'⟩ := k
  induction entries generalizing m with
  | nil =>
      split_ifs with h
      · subst h; rfl
      · rfl
  | cons e entries ih =>
      rw [List.map_cons, patch_cons, ih, patch_cons]
      split_ifs with h
      · congr 2
        funext b
        simp [Function.update_apply]
      · exact Function.update_of_ne (fun hk => h (congrArg Prod.fst hk)) _ _

/-- The keys a diff lists. -/
def Diff.keys (d : Diff κ ν) : Set κ := {k | k ∈ d.entries.map Prod.fst}

/-- A diff says the truth about a history: every value it lists is the one after its last update,
and it lists every key that one of its updates changed. -/
structure Diff.Truthful (h : History κ ν) (d : Diff κ ν) : Prop where
  first_le : d.first ≤ d.last
  last_nonneg : 0 ≤ d.last
  values : ∀ e ∈ d.entries, e.2 = h.version d.last.toNat e.1
  complete : ∀ (n : ℕ) (k : κ), d.first ≤ n + 1 → (n : ℤ) + 1 ≤ d.last → h.ChangedAt n k →
    k ∈ d.keys

/-! ## Replicas -/

namespace Replica

/-- The replica holds exactly the history's values on `S` at its version, and nothing else. -/
structure InSyncOn (h : History κ ν) (S : Set κ) (r : Replica κ ν) : Prop where
  last_nonneg : 0 ≤ r.last
  inside : ∀ k ∈ S, r.map k = h.version r.last.toNat k
  outside : ∀ k ∉ S, r.map k = none

/-- The rule by which a replica takes a diff; `none` is the refusal of a gap. -/
def offer (r : Replica κ ν) (d : Diff κ ν) : Option (Replica κ ν) :=
  if d.last ≤ r.last then some r
  else if r.last + 1 < d.first then none
  else some ⟨d.last, patch r.map d.entries⟩

/-- Taking diffs one after the other, up to the first refusal. -/
def offerAll (r : Replica κ ν) (ds : List (Diff κ ν)) : Option (Replica κ ν) :=
  ds.foldlM offer r

/-- Once some diffs have been taken, the rest is offered to the replica they lead to. -/
lemma offerAll_append {r r' : Replica κ ν} {ds : List (Diff κ ν)} (h : r.offerAll ds = some r')
    (rest : List (Diff κ ν)) : r.offerAll (ds ++ rest) = r'.offerAll rest := by
  rw [offerAll] at h
  rw [offerAll, List.foldlM_append, h]
  rfl

lemma offer_stale {r : Replica κ ν} {d : Diff κ ν} (h : d.last ≤ r.last) : r.offer d = some r :=
  if_pos h

lemma offer_gap {r : Replica κ ν} {d : Diff κ ν} (h : r.last < d.last) (hg : r.last + 1 < d.first) :
    r.offer d = none := by
  rw [offer, if_neg (not_le.mpr h), if_pos hg]

lemma offer_next {r : Replica κ ν} {d : Diff κ ν} (h : r.last < d.last)
    (hg : d.first ≤ r.last + 1) : r.offer d = some ⟨d.last, patch r.map d.entries⟩ := by
  rw [offer, if_neg (not_le.mpr h), if_neg (not_lt.mpr hg)]

/-- What one offer can do: nothing, or move to the end of the diff. -/
lemma offer_cases {r r' : Replica κ ν} {d : Diff κ ν} (h : r.offer d = some r') :
    (d.last ≤ r.last ∧ r' = r) ∨
    (r.last < d.last ∧ d.first ≤ r.last + 1 ∧ r' = ⟨d.last, patch r.map d.entries⟩) := by
  unfold offer at h
  split_ifs at h with hstale hgap
  · exact Or.inl ⟨hstale, (Option.some.inj h).symm⟩
  · exact Or.inr ⟨not_le.mp hstale, not_lt.mp hgap, (Option.some.inj h).symm⟩

/-- The version never goes back. -/
lemma offer_last_le {r r' : Replica κ ν} {d : Diff κ ν} (h : r.offer d = some r') :
    r.last ≤ r'.last := by
  rcases offer_cases h with ⟨_, rfl⟩ | ⟨hlt, _, rfl⟩
  · exact le_refl _
  · exact le_of_lt hlt

/-- **Patching a truthful diff** into a replica that is in sync on `S` puts it in sync, at the end
of the diff, on `S` and the listed keys.  A key of `S` that is not listed was changed by no update
of the diff, and the diff begins no later than the update after the replica's version, so the key
was not changed in between at all. -/
theorem patch_inSyncOn {h : History κ ν} {S : Set κ} {r : Replica κ ν} {d : Diff κ ν}
    (hr : r.InSyncOn h S) (hd : d.Truthful h) (hlt : r.last < d.last)
    (hgap : d.first ≤ r.last + 1) :
    InSyncOn h (S ∪ d.keys) ⟨d.last, patch r.map d.entries⟩ := by
  have hpatch := patch_of_graph (h.version d.last.toNat) d.entries hd.values r.map
  have hlast := hr.last_nonneg
  refine ⟨hd.last_nonneg, fun k hk => ?_, fun k hk => ?_⟩
  · show patch r.map d.entries k = h.version d.last.toNat k
    rw [hpatch]
    split_ifs with hlisted
    · rfl
    · have hkS : k ∈ S := hk.resolve_right hlisted
      have hfixed : h.version d.last.toNat k = h.version r.last.toNat k := by
        refine h.version_eq_of_unchanged k (by omega) fun i hmi hin hchanged => hlisted ?_
        exact hd.complete i k (by omega) (by omega) hchanged
      rw [hr.inside k hkS, hfixed]
  · rw [Set.mem_union, not_or] at hk
    have hlisted : k ∉ d.entries.map Prod.fst := hk.2
    show patch r.map d.entries k = none
    rw [hpatch, if_neg hlisted, hr.outside k hk.1]

/-- The first diff a blank copy takes puts it in sync on the listed keys. -/
theorem patch_blank_inSyncOn {h : History κ ν} {d : Diff κ ν} (hd : d.Truthful h) :
    InSyncOn h d.keys ⟨d.last, patch (fun _ => none) d.entries⟩ := by
  have hpatch := patch_of_graph (h.version d.last.toNat) d.entries hd.values fun _ => none
  refine ⟨hd.last_nonneg, fun k hk => ?_, fun k hk => ?_⟩
  · have hlisted : k ∈ d.entries.map Prod.fst := hk
    show patch (fun _ => none) d.entries k = h.version d.last.toNat k
    rw [hpatch, if_pos hlisted]
  · have hlisted : k ∉ d.entries.map Prod.fst := hk
    show patch (fun _ => none) d.entries k = none
    rw [hpatch, if_neg hlisted]

/-- **One offer keeps a replica in sync**, on the same keys when the diff was stale and on the
listed keys too when it was taken. -/
theorem offer_inSyncOn {h : History κ ν} {S : Set κ} {r r' : Replica κ ν} {d : Diff κ ν}
    (hr : r.InSyncOn h S) (hd : d.Truthful h) (ho : r.offer d = some r') :
    (r' = r ∧ d.last ≤ r.last) ∨ (r.last < d.last ∧ r'.last = d.last ∧
      r'.InSyncOn h (S ∪ d.keys)) := by
  rcases offer_cases ho with ⟨hstale, rfl⟩ | ⟨hlt, hgap, rfl⟩
  · exact Or.inl ⟨rfl, hstale⟩
  · exact Or.inr ⟨hlt, rfl, patch_inSyncOn hr hd hlt hgap⟩

/-- The replica holds the whole map. -/
def InSync (h : History κ ν) (r : Replica κ ν) : Prop := r.InSyncOn h Set.univ

theorem offer_inSync {h : History κ ν} {r r' : Replica κ ν} {d : Diff κ ν} (hr : r.InSync h)
    (hd : d.Truthful h) (ho : r.offer d = some r') : r'.InSync h := by
  rcases offer_inSyncOn hr hd ho with ⟨rfl, _⟩ | ⟨_, _, hr'⟩
  · exact hr
  · rwa [Set.univ_union] at hr'

/-- **Any sequence of truthful diffs.**  Whatever is lost, repeated, reordered or overlapping, the
replica holds the whole map at its version for as long as no gap has been refused, and its version
never goes back. -/
theorem offerAll_inSync {h : History κ ν} {ds : List (Diff κ ν)} (hds : ∀ d ∈ ds, d.Truthful h)
    {r r' : Replica κ ν} (hr : r.InSync h) (ho : r.offerAll ds = some r') :
    r'.InSync h ∧ r.last ≤ r'.last := by
  induction ds generalizing r with
  | nil =>
      cases ho
      exact ⟨hr, le_refl _⟩
  | cons d ds ih =>
      obtain ⟨q, hq, ho⟩ := Option.bind_eq_some_iff.mp ho
      have hsync := offer_inSync hr (hds d List.mem_cons_self) hq
      obtain ⟨hr', hle⟩ := ih (fun d' hd' => hds d' (List.mem_cons_of_mem _ hd')) hsync ho
      exact ⟨hr', le_trans (offer_last_le hq) hle⟩

end Replica

/-! ## Maps of diffs with gaps -/

/-- Diffs written into a blank map in their order, whether or not some are missing. -/
def patchAll (ds : List (Diff κ ν)) : κ → Option ν :=
  ds.foldl (fun m d => patch m d.entries) fun _ => none

lemma patchAll_append_singleton (ds : List (Diff κ ν)) (d : Diff κ ν) :
    patchAll (ds ++ [d]) = patch (patchAll ds) d.entries := by
  rw [patchAll, List.foldl_append]
  rfl

/-- Of these diffs, `d` is the last that lists the key; `after` are those behind it. -/
structure LastLists (ds : List (Diff κ ν)) (k : κ) (d : Diff κ ν) (after : List (Diff κ ν)) :
    Prop where
  split : ∃ before, ds = before ++ d :: after
  listed : k ∈ d.keys
  unlisted : ∀ e ∈ after, k ∉ e.keys

/-- A diff goes on where another ends. -/
def Diff.Continues (d e : Diff κ ν) : Prop := d.last < e.last ∧ e.first ≤ d.last + 1

/-- **Old truth.**  A value in the map was the value of its key after the last diff that lists it.
-/
theorem patchAll_eq_some {h : History κ ν} {ds : List (Diff κ ν)} (hds : ∀ d ∈ ds, d.Truthful h)
    {k : κ} {v : ν} (hv : patchAll ds k = some v) :
    ∃ d after, LastLists ds k d after ∧ h.version d.last.toNat k = some v := by
  induction ds using List.reverseRecOn with
  | nil => cases hv
  | append_singleton ds d ih =>
      have hd := hds d (List.mem_append_right _ (List.mem_singleton_self d))
      rw [patchAll_append_singleton,
        patch_of_graph (h.version d.last.toNat) d.entries hd.values] at hv
      split_ifs at hv with hlisted
      · exact ⟨d, [], ⟨⟨ds, rfl⟩, hlisted, by simp⟩, hv⟩
      · obtain ⟨e, after, ⟨⟨before, hsplit⟩, he, hafter⟩, hversion⟩ :=
          ih (fun d' hd' => hds d' (List.mem_append_left _ hd')) hv
        refine ⟨e, after ++ [d], ⟨⟨before, ?_⟩, he, ?_⟩, hversion⟩
        · rw [hsplit, List.append_assoc, List.cons_append]
        · intro d' hd'
          rcases List.mem_append.mp hd' with hd' | hd'
          · exact hafter d' hd'
          · rw [List.mem_singleton.mp hd']
            exact hlisted

/-- **It is still true** as long as nothing is missing behind that diff. -/
theorem version_eq_of_continues {h : History κ ν} {d : Diff κ ν} {after : List (Diff κ ν)}
    (hchain : List.IsChain Diff.Continues (d :: after)) (hafter : ∀ e ∈ after, e.Truthful h) {k : κ}
    (hunlisted : ∀ e ∈ after, k ∉ e.keys) (hlast : 0 ≤ d.last) :
    ∀ e ∈ (d :: after).getLast?, h.version e.last.toNat k = h.version d.last.toNat k := by
  induction after generalizing d with
  | nil =>
      rintro e ⟨⟩
      rfl
  | cons d' after ih =>
      rw [List.isChain_cons_cons] at hchain
      obtain ⟨⟨hlt, hgap⟩, hrest⟩ := hchain
      have htruth := hafter d' List.mem_cons_self
      have hsame : h.version d'.last.toNat k = h.version d.last.toNat k := by
        refine h.version_eq_of_unchanged k (by omega) fun n hle hlt' hchanged => ?_
        exact hunlisted d' List.mem_cons_self (htruth.complete n k (by omega) (by omega) hchanged)
      intro e he
      rw [List.getLast?_cons_cons] at he
      rw [ih hrest (fun e he => hafter e (List.mem_cons_of_mem _ he))
        (fun e he => hunlisted e (List.mem_cons_of_mem _ he)) htruth.last_nonneg e he, hsame]

end VersionedMap
