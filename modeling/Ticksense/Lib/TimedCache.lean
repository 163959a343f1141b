import Mathlib.Algebra.Order.Monoid.Defs
import Mathlib.Data.Set.Card
import Ticksense.Lib.Machine

/-!
# A cache whose entries live for some time

Requests are answered from a cache or, if it has nothing, by a query that takes time; its answer is
then put into the cache.  Queries of several requests run side by side, and an answer may come when
the cache already has a newer one.  Failures are not kept.

* `Handler` — the key of a request, the queries and their answers; `Handler.serve` is the handler as
  a program that asks the cache first.
* `Step` — what happens, in any order.
* `fresh_of_reaches` — every answer is one the request itself could have got, at some instant of a
  query that was done less than the lifetime of an entry before.
* `roomy_of_reaches` — as long as the cache has room for all keys, no query starts within that time
  of the end of another one with the same key.
-/

namespace TimedCache

variable {ρ κ ν ε β ω τ : Type*}

/-- Requests `ρ` with their keys `κ`; in a world `ω`, the query of a request gives some `β`, and the
handler makes a value `ν` of it or fails.  Requests with one key are alike. -/
structure Handler (ρ κ ν ε β ω : Type*) where
  key : ρ → κ
  Gives : ω → ρ → β → Prop
  answer : β → ρ → Except ε ν
  gives_congr : ∀ {w r r' b}, key r = key r' → Gives w r b → Gives w r' b
  answer_congr : ∀ {b r r'}, key r = key r' → answer b r = answer b r'

/-- The handler: the cache is asked first, and a new value is to be put into it under the key. -/
def Handler.serve (h : Handler ρ κ ν ε β ω) (cache : κ → Option ν) (b : β) (r : ρ) :
    Except ε (ν × Option κ) :=
  match cache (h.key r) with
  | some v => .ok (v, none)
  | none => (h.answer b r).map fun v => (v, some (h.key r))

/-- An answer: when the request came, when it was answered, and whether a query was made for it. -/
structure Answer (ρ ν ε τ : Type*) where
  request : ρ
  asked : τ
  outcome : Except ε ν
  given : τ
  queried : Bool

/-- The clock, the entries with the time they were put in, the requests whose query is under way.
`started` and `answers` are the history. -/
structure System (ρ κ ν ε τ : Type*) where
  now : τ
  entries : κ → Option (ν × τ)
  running : List (ρ × τ)
  started : List (ρ × τ)
  answers : List (Answer ρ ν ε τ)

/-- Nothing has been asked for. -/
def System.fresh (now : τ) : System ρ κ ν ε τ := ⟨now, fun _ => none, [], [], []⟩

section Steps

variable [LinearOrder τ] [Add τ] (ttl : τ)

/-- What the cache gives for a key. -/
def System.get (s : System ρ κ ν ε τ) (k : κ) : Option ν :=
  match s.entries k with
  | none => none
  | some (v, since) => if s.now < since + ttl then some v else none

/-- The key can be stored without dropping another one. -/
def System.Room (s : System ρ κ ν ε τ) (maxsize : ℕ) (k : κ) : Prop :=
  (s.get ttl k).isSome ∨ {k' | (s.get ttl k').isSome}.encard < maxsize

variable [DecidableEq κ]

/-- A value is put into the cache, and another key may be dropped. -/
def System.put (s : System ρ κ ν ε τ) (k : κ) (v : ν) (victim : Option κ) : κ → Option (ν × τ) :=
  Function.update (victim.elim s.entries fun k' => Function.update s.entries k' none) k
    (some (v, s.now))

/-- One event; `world` is the world as it is at each instant. -/
inductive Step (h : Handler ρ κ ν ε β ω) (world : τ → ω) (maxsize : ℕ) :
    System ρ κ ν ε τ → System ρ κ ν ε τ → Prop
  /-- time passes -/
  | pass {s : System ρ κ ν ε τ} {t : τ} (ht : s.now ≤ t) :
      Step h world maxsize s { s with now := t }
  /-- a request comes and is answered from the cache -/
  | hit {s : System ρ κ ν ε τ} {r : ρ} {v : ν} (hget : s.get ttl (h.key r) = some v) :
      Step h world maxsize s
        { s with answers := ⟨r, s.now, .ok v, s.now, false⟩ :: s.answers }
  /-- a request comes for which the cache has nothing -/
  | start {s : System ρ κ ν ε τ} {r : ρ} (hget : s.get ttl (h.key r) = none) :
      Step h world maxsize s
        { s with running := (r, s.now) :: s.running, started := (r, s.now) :: s.started }
  /-- its query has seen the world at some instant, and the value is put into the cache -/
  | succeed {s : System ρ κ ν ε τ} {before after : List (ρ × τ)} {r : ρ} {asked c : τ} {b : β}
      {v : ν} {victim : Option κ} (hrunning : s.running = before ++ (r, asked) :: after)
      (hasked : asked ≤ c) (hnow : c ≤ s.now) (hgives : h.Gives (world c) r b)
      (hanswer : h.answer b r = .ok v) (hvictim : victim.isSome ↔ ¬ s.Room ttl maxsize (h.key r)) :
      Step h world maxsize s
        { s with
          entries := s.put (h.key r) v victim
          running := before ++ after
          answers := ⟨r, asked, .ok v, s.now, true⟩ :: s.answers }
  /-- or the handler fails on what it gives -/
  | fail {s : System ρ κ ν ε τ} {before after : List (ρ × τ)} {r : ρ} {asked c : τ} {b : β} {e : ε}
      (hrunning : s.running = before ++ (r, asked) :: after) (hasked : asked ≤ c)
      (hnow : c ≤ s.now) (hgives : h.Gives (world c) r b) (hanswer : h.answer b r = .error e) :
      Step h world maxsize s
        { s with
          running := before ++ after
          answers := ⟨r, asked, .error e, s.now, true⟩ :: s.answers }
  /-- or the request is given up -/
  | cancel {s : System ρ κ ν ε τ} {before after : List (ρ × τ)} {x : ρ × τ}
      (hrunning : s.running = before ++ x :: after) :
      Step h world maxsize s { s with running := before ++ after }

variable {ttl} {h : Handler ρ κ ν ε β ω} {world : τ → ω} {maxsize : ℕ}

omit [DecidableEq κ] in
lemma get_eq_some {s : System ρ κ ν ε τ} {k : κ} {v : ν} :
    s.get ttl k = some v ↔ ∃ since, s.entries k = some (v, since) ∧ s.now < since + ttl := by
  rw [System.get]
  cases hentry : s.entries k with
  | none => simp
  | some entry =>
      obtain ⟨u, since⟩ := entry
      by_cases hlive : s.now < since + ttl
      · simp [hlive]
      · simp [hlive]

/-! ## How old an answer is -/

/-- The request got its answer from a query of its own: the handler makes it of what the query gives
at some instant in between. -/
def Answer.Own (a : Answer ρ ν ε τ) (h : Handler ρ κ ν ε β ω) (world : τ → ω) : Prop :=
  ∃ c b, a.asked ≤ c ∧ c ≤ a.given ∧ h.Gives (world c) a.request b ∧
    h.answer b a.request = a.outcome

/-- The answer of a query was put into the cache. -/
def Answer.Kept (a : Answer ρ ν ε τ) : Prop := a.queried = true ∧ ∃ v, a.outcome = .ok v

/-- The answer repeats one with its key that was put into the cache less than `ttl` before. -/
def Answer.Repeats (ttl : τ) (h : Handler ρ κ ν ε β ω) (a q : Answer ρ ν ε τ) : Prop :=
  q.Kept ∧ h.key q.request = h.key a.request ∧ q.outcome = a.outcome ∧ a.asked = a.given ∧
    q.given ≤ a.given ∧ a.given < q.given + ttl

/-- An answer by a query is one's own, another one repeats one of the answers. -/
structure Answer.Explained (ttl : τ) (h : Handler ρ κ ν ε β ω) (world : τ → ω)
    (answers : List (Answer ρ ν ε τ)) (a : Answer ρ ν ε τ) : Prop where
  own : a.queried = true → a.Own h world
  repeats : a.queried = false → ∃ q ∈ answers, a.Repeats ttl h q

/-- **What holds of the cache and the answers.** -/
structure Sound (ttl : τ) (h : Handler ρ κ ν ε β ω) (world : τ → ω) (s : System ρ κ ν ε τ) :
    Prop where
  entries : ∀ k v done, s.entries k = some (v, done) → done ≤ s.now ∧
    ∃ q ∈ s.answers, q.queried = true ∧ h.key q.request = k ∧ q.outcome = .ok v ∧ q.given = done
  answers : ∀ a ∈ s.answers, a.Explained ttl h world s.answers

omit [LinearOrder τ] [Add τ] in
lemma put_eq_some {s : System ρ κ ν ε τ} {k k' : κ} {v v' : ν} {victim : Option κ} {done : τ}
    (hput : s.put k v victim k' = some (v', done)) :
    k' = k ∧ v' = v ∧ done = s.now ∨ s.entries k' = some (v', done) := by
  rw [System.put] at hput
  by_cases hk : k' = k
  · subst hk
    rw [Function.update_self, Option.some.injEq, Prod.mk.injEq] at hput
    exact .inl ⟨rfl, hput.1.symm, hput.2.symm⟩
  · rw [Function.update_of_ne hk] at hput
    cases victim with
    | none => exact .inr hput
    | some dropped =>
        refine .inr ?_
        by_cases hdropped : k' = dropped
        · subst hdropped
          simp at hput
        · simpa [Function.update_of_ne hdropped] using hput

omit [DecidableEq κ] in
lemma Answer.Explained.cons {answers : List (Answer ρ ν ε τ)} {a : Answer ρ ν ε τ}
    (ha : a.Explained ttl h world answers) (new : Answer ρ ν ε τ) :
    a.Explained ttl h world (new :: answers) := by
  refine ⟨ha.own, fun hqueried => ?_⟩
  obtain ⟨q, hq, hrepeats⟩ := ha.repeats hqueried
  exact ⟨q, List.mem_cons_of_mem _ hq, hrepeats⟩

omit [DecidableEq κ] in
lemma Sound.answer {s : System ρ κ ν ε τ} (hsound : Sound ttl h world s) {new : Answer ρ ν ε τ}
    (hnew : new.Explained ttl h world s.answers) :
    ∀ a ∈ new :: s.answers, a.Explained ttl h world (new :: s.answers) :=
  List.forall_mem_cons.mpr ⟨hnew.cons _, fun a ha => (hsound.answers a ha).cons _⟩

lemma Sound.step {s s' : System ρ κ ν ε τ} (hsound : Sound ttl h world s)
    (hstep : Step ttl h world maxsize s s') : Sound ttl h world s' := by
  -- what is known of an entry stays known when there are more answers
  have hentries : ∀ {new : Answer ρ ν ε τ} k v done, s.entries k = some (v, done) →
      done ≤ s.now ∧ ∃ q ∈ new :: s.answers, q.queried = true ∧ h.key q.request = k ∧
        q.outcome = .ok v ∧ q.given = done := by
    intro new k v done hentry
    obtain ⟨hdone, q, hq, hfrom⟩ := hsound.entries k v done hentry
    exact ⟨hdone, q, List.mem_cons_of_mem _ hq, hfrom⟩
  cases hstep with
  | pass ht =>
      refine ⟨fun k v done hentry => ?_, hsound.answers⟩
      obtain ⟨hdone, hfrom⟩ := hsound.entries k v done hentry
      exact ⟨hdone.trans ht, hfrom⟩
  | hit hget =>
      obtain ⟨done, hentry, hlive⟩ := get_eq_some.mp hget
      obtain ⟨hdone, q, hq, hqueried, hkey, houtcome, rfl⟩ := hsound.entries _ _ _ hentry
      refine ⟨hentries, hsound.answer ⟨fun hown => absurd hown Bool.false_ne_true, fun _ => ?_⟩⟩
      exact ⟨q, hq, ⟨hqueried, _, houtcome⟩, hkey, houtcome, rfl, hdone, hlive⟩
  | start hget => exact ⟨hsound.entries, hsound.answers⟩
  | succeed hrunning hasked hnow hgives hanswer hvictim =>
      refine ⟨fun k v done hput => ?_, hsound.answer
        ⟨fun _ => ⟨_, _, hasked, hnow, hgives, hanswer⟩, fun hno => absurd hno.symm
          Bool.false_ne_true⟩⟩
      rcases put_eq_some hput with ⟨rfl, rfl, rfl⟩ | hentry
      · exact ⟨le_refl _, _, List.mem_cons_self, rfl, rfl, rfl, rfl⟩
      · exact hentries k v done hentry
  | fail hrunning hasked hnow hgives hanswer =>
      exact ⟨hentries, hsound.answer ⟨fun _ => ⟨_, _, hasked, hnow, hgives, hanswer⟩,
        fun hno => absurd hno.symm Bool.false_ne_true⟩⟩
  | cancel hrunning => exact ⟨hsound.entries, hsound.answers⟩

lemma sound_of_reaches {t : τ} {s : System ρ κ ν ε τ}
    (hreach : Machine.Reaches (Step ttl h world maxsize) (System.fresh t) s) :
    Sound ttl h world s :=
  Machine.invariant (fun _ _ hs hstep => hs.step hstep)
    ⟨by simp [System.fresh], by simp [System.fresh]⟩ hreach

/-- **How old an answer is.**  It is the request's own, or repeats one that was put into the cache
less than `ttl` before; either way the request itself could have got it, without a cache, at an
instant of the query. -/
theorem fresh_of_reaches {t : τ} {s : System ρ κ ν ε τ}
    (hreach : Machine.Reaches (Step ttl h world maxsize) (System.fresh t) s) {a : Answer ρ ν ε τ}
    (ha : a ∈ s.answers) :
    ∃ q ∈ s.answers, (q = a ∨ a.Repeats ttl h q) ∧ ∃ c b, q.asked ≤ c ∧ c ≤ q.given ∧
      h.Gives (world c) a.request b ∧ h.answer b a.request = a.outcome := by
  have hsound := sound_of_reaches hreach
  cases hqueried : a.queried with
  | true => exact ⟨a, ha, .inl rfl, (hsound.answers a ha).own hqueried⟩
  | false =>
      obtain ⟨q, hq, hrepeats⟩ := (hsound.answers a ha).repeats hqueried
      refine ⟨q, hq, .inr hrepeats, ?_⟩
      obtain ⟨⟨hown, _⟩, hkey, houtcome, _⟩ := hrepeats
      obtain ⟨c, b, hasked, hgiven, hgives, hanswer⟩ := (hsound.answers q hq).own hown
      refine ⟨c, b, hasked, hgiven, h.gives_congr hkey hgives, ?_⟩
      rw [← h.answer_congr hkey, hanswer, houtcome]

end Steps

/-! ## How many queries it saves -/

section Spared

variable [DecidableEq κ] [AddCommMonoid τ] [LinearOrder τ] [IsOrderedAddMonoid τ] {ttl : τ}
  {h : Handler ρ κ ν ε β ω} {world : τ → ω} {maxsize : ℕ}

/-- **What holds of a cache with room for all keys**, which are those in `K`. -/
structure Roomy (ttl : τ) (h : Handler ρ κ ν ε β ω) (K : Finset κ) (s : System ρ κ ν ε τ) :
    Prop where
  entries : ∀ k v done, s.entries k = some (v, done) → k ∈ K ∧ done ≤ s.now
  running : s.running ⊆ s.started
  past : ∀ x ∈ s.started, x.2 ≤ s.now
  kept : ∀ a ∈ s.answers, a.Kept →
    ∃ v done, s.entries (h.key a.request) = some (v, done) ∧ a.given ≤ done
  spared : ∀ x ∈ s.started, ∀ a ∈ s.answers, a.Kept → h.key a.request = h.key x.1 →
    a.given < x.2 → a.given + ttl ≤ x.2

omit [DecidableEq κ] [IsOrderedAddMonoid τ] in
lemma room_of_keys {s : System ρ κ ν ε τ} {K : Finset κ}
    (hK : ∀ k v done, s.entries k = some (v, done) → k ∈ K ∧ done ≤ s.now)
    (hcard : K.card ≤ maxsize) {k : κ} (hk : k ∈ K) : s.Room ttl maxsize k := by
  classical
  by_cases hlive : (s.get ttl k).isSome
  · exact .inl hlive
  · right
    have hsub : {k' | (s.get ttl k').isSome} ⊆ ↑(K.erase k) := by
      intro k' hk'
      obtain ⟨v, hv⟩ := Option.isSome_iff_exists.mp hk'
      obtain ⟨since, hentry, _⟩ := get_eq_some.mp hv
      refine Finset.mem_coe.mpr (Finset.mem_erase.mpr ⟨?_, (hK k' v since hentry).1⟩)
      rintro rfl
      exact hlive hk'
    calc {k' | (s.get ttl k').isSome}.encard
        ≤ (↑(K.erase k) : Set κ).encard := Set.encard_le_encard hsub
      _ = ((K.erase k).card : ℕ∞) := Set.encard_coe_eq_coe_finsetCard _
      _ < (K.card : ℕ∞) := by exact_mod_cast Finset.card_erase_lt_of_mem hk
      _ ≤ (maxsize : ℕ∞) := by exact_mod_cast hcard

omit [IsOrderedAddMonoid τ] in
lemma started_subset {s s' : System ρ κ ν ε τ} (hstep : Step ttl h world maxsize s s') :
    s.started ⊆ s'.started := by
  cases hstep with
  | start hget => exact List.subset_cons_self _ _
  | _ => exact List.Subset.refl _

lemma Roomy.step {K : Finset κ} (hcard : K.card ≤ maxsize) {s s' : System ρ κ ν ε τ}
    (hroomy : Roomy ttl h K s) (hstep : Step ttl h world maxsize s s')
    (hkeys : ∀ x ∈ s'.started, h.key x.1 ∈ K) : Roomy ttl h K s' := by
  have hrest : ∀ {before after : List (ρ × τ)} {x : ρ × τ}, s.running = before ++ x :: after →
      before ++ after ⊆ s.started := by
    intro before after x hrunning y hy
    refine hroomy.running (hrunning ▸ ?_)
    simp only [List.mem_append, List.mem_cons] at hy ⊢
    tauto
  cases hstep with
  | pass ht =>
      exact ⟨fun k v done hentry => (hroomy.entries k v done hentry).imp_right (·.trans ht),
        hroomy.running, fun x hx => (hroomy.past x hx).trans ht, hroomy.kept, hroomy.spared⟩
  | hit hget =>
      have hnot : ∀ {r : ρ} {o : Except ε ν}, ¬ (⟨r, s.now, o, s.now, false⟩ :
          Answer ρ ν ε τ).Kept := fun hkept => Bool.false_ne_true hkept.1
      exact ⟨hroomy.entries, hroomy.running, hroomy.past,
        List.forall_mem_cons.mpr ⟨fun hkept => absurd hkept hnot, hroomy.kept⟩,
        fun x hx => List.forall_mem_cons.mpr ⟨fun hkept => absurd hkept hnot, hroomy.spared x hx⟩⟩
  | @start r hget =>
      refine ⟨hroomy.entries, List.cons_subset_cons _ hroomy.running,
        List.forall_mem_cons.mpr ⟨le_refl _, hroomy.past⟩, hroomy.kept,
        List.forall_mem_cons.mpr ⟨?_, hroomy.spared⟩⟩
      -- the entry of the earlier answer, or a newer one, must have expired
      intro a ha hkept hkey hlt
      obtain ⟨v, done, hentry, hle⟩ := hroomy.kept a ha hkept
      rw [hkey] at hentry
      have hexpired : ¬ s.now < done + ttl := by
        intro hlive
        rw [get_eq_some.mpr ⟨done, hentry, hlive⟩] at hget
        cases hget
      exact (add_le_add_left hle ttl).trans (not_lt.mp hexpired)
  | @succeed before after r asked c b v victim hrunning hasked hnow hgives hanswer hvictim =>
      have hmem : (r, asked) ∈ s.started :=
        hroomy.running (hrunning ▸ List.mem_append_right _ List.mem_cons_self)
      have hnone : victim = none := by
        rw [← Option.not_isSome_iff_eq_none, hvictim, not_not]
        exact room_of_keys hroomy.entries hcard (hkeys _ hmem)
      subst hnone
      refine ⟨fun k v' done hput => ?_, hrest hrunning, hroomy.past,
        List.forall_mem_cons.mpr ⟨fun _ => ?_, fun a ha hkept => ?_⟩,
        fun x hx => List.forall_mem_cons.mpr ⟨fun _ _ hlt => ?_, hroomy.spared x hx⟩⟩
      · rcases put_eq_some hput with ⟨rfl, rfl, rfl⟩ | hentry
        · exact ⟨hkeys _ hmem, le_refl _⟩
        · exact hroomy.entries k v' done hentry
      · exact ⟨v, s.now, by simp [System.put], le_refl _⟩
      · obtain ⟨v', done, hentry, hle⟩ := hroomy.kept a ha hkept
        by_cases hkey : h.key a.request = h.key r
        · exact ⟨v, s.now, by simp [System.put, hkey],
            hle.trans (hroomy.entries _ _ _ hentry).2⟩
        · exact ⟨v', done, by simpa [System.put, Function.update_of_ne hkey] using hentry, hle⟩
      · exact absurd (hroomy.past x hx) (not_le.mpr hlt)
  | fail hrunning hasked hnow hgives hanswer =>
      have hnot : ∀ {r : ρ} {e : ε} {t : τ}, ¬ (⟨r, t, .error e, s.now, true⟩ :
          Answer ρ ν ε τ).Kept := by
        rintro r e t ⟨_, v, hv⟩
        cases hv
      exact ⟨hroomy.entries, hrest hrunning, hroomy.past,
        List.forall_mem_cons.mpr ⟨fun hkept => absurd hkept hnot, hroomy.kept⟩,
        fun x hx => List.forall_mem_cons.mpr ⟨fun hkept => absurd hkept hnot, hroomy.spared x hx⟩⟩
  | cancel hrunning =>
      exact ⟨hroomy.entries, hrest hrunning, hroomy.past, hroomy.kept, hroomy.spared⟩

/-- **The queries that are saved.**  If the cache has room for the keys of all queries, a query
starts no sooner than `ttl` after the end of an earlier one with its key that gave a value. -/
theorem roomy_of_reaches {t : τ} {s : System ρ κ ν ε τ}
    (hreach : Machine.Reaches (Step ttl h world maxsize) (System.fresh t) s) {K : Finset κ}
    (hcard : K.card ≤ maxsize) (hkeys : ∀ x ∈ s.started, h.key x.1 ∈ K) :
    Roomy ttl h K s := by
  induction hreach with
  | refl => exact ⟨by simp [System.fresh], by simp [System.fresh], by simp [System.fresh], by
      simp [System.fresh], by simp [System.fresh]⟩
  | tail _ hstep ih =>
      exact (ih fun x hx => hkeys x (started_subset hstep hx)).step hcard hstep hkeys

end Spared

end TimedCache
