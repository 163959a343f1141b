import Mathlib.Data.List.Pairwise
import Mathlib.Data.List.Basic
import Mathlib.Algebra.Order.Group.Int

/-!
# Logs with offsets

A log hands out offsets in increasing order; entries may have been removed, so there may be gaps,
but an entry never changes and a new one goes to the end.

* `since`, `within` — what lies at or after an offset, and between two of them; `fetch` — what a
  reader at a position gets next.
* `within_append_within`, `within_parts_iff` — when two stretches of a log make one.
* `append`, `appendAll` — more entries, and what a reader then gets.
* `find?_le_iff` — looking up the first entry of a kind.
* `unread` — all that lies before a reader; `Handed` — all that a reader of a range gets, in a log
  that may grow meanwhile.
* `Extends` — a log with later entries added.  A reader that is not past the old end sees the old
  entries first and in the same order (`Extends.since_eq`, `Extends.fetch_eq`).
-/

/-- A log of `ρ`.  The next entry goes to `logEnd`. -/
structure OffsetLog (ρ : Type*) where
  entries : List (ℤ × ρ)
  logEnd : ℤ
  sorted : entries.Pairwise (·.1 < ·.1)
  below : ∀ e ∈ entries, e.1 < logEnd

namespace OffsetLog

variable {ρ : Type*}

/-- A log without an entry. -/
def empty : OffsetLog ρ :=
  ⟨[], 0, .nil, by simp⟩

/-- One more entry. -/
def append (log : OffsetLog ρ) (r : ρ) : OffsetLog ρ where
  entries := log.entries ++ [(log.logEnd, r)]
  logEnd := log.logEnd + 1
  sorted := by
    refine List.pairwise_append.mpr ⟨log.sorted, List.pairwise_singleton _ _, ?_⟩
    intro e he e' he'
    rw [List.mem_singleton.mp he']
    exact log.below e he
  below := by
    intro e he
    rcases List.mem_append.mp he with hold | hnew
    · have := log.below e hold
      omega
    · rw [List.mem_singleton.mp hnew]
      omega

/-- The entries from an offset on. -/
def since (log : OffsetLog ρ) (position : ℤ) : List (ℤ × ρ) :=
  log.entries.filter (position ≤ ·.1)

/-- The entries from one offset up to before another. -/
def within (log : OffsetLog ρ) (start stop : ℤ) : List (ℤ × ρ) :=
  (log.since start).filter (·.1 < stop)

/-- The next entry for a reader at a position.  A position past the end is out of range, and the
reader starts over at the earliest entry. -/
def fetch (log : OffsetLog ρ) (position : ℤ) : Option (ℤ × ρ) :=
  if log.logEnd < position then log.entries.head? else (log.since position).head?

variable {log old new : OffsetLog ρ} {e : ℤ × ρ} {extra rest : List (ℤ × ρ)}
  {position start stop : ℤ}

lemma mem_since : e ∈ log.since position ↔ e ∈ log.entries ∧ position ≤ e.1 := by
  simp [since]

lemma mem_within : e ∈ log.within start stop ↔ e ∈ log.entries ∧ start ≤ e.1 ∧ e.1 < stop := by
  simp [within, mem_since, and_assoc]

lemma fetch_of_le (h : position ≤ log.logEnd) : log.fetch position = (log.since position).head? :=
  if_neg (by omega)

lemma since_sorted (log : OffsetLog ρ) (position : ℤ) :
    (log.since position).Pairwise (·.1 < ·.1) :=
  log.sorted.sublist List.filter_sublist

/-- The first entry from a position on, and what follows it. -/
lemma since_succ (h : log.since position = e :: rest) : log.since (e.1 + 1) = rest := by
  have hsorted := log.since_sorted position
  rw [h, List.pairwise_cons] at hsorted
  have hle : position ≤ e.1 := (mem_since.mp (h ▸ List.mem_cons_self)).2
  have hfilter : log.since (e.1 + 1) = (log.since position).filter (e.1 + 1 ≤ ·.1) := by
    rw [since, since, List.filter_filter]
    refine List.filter_congr fun e' _ => ?_
    have : e.1 + 1 ≤ e'.1 → position ≤ e'.1 := by omega
    by_cases hlt : e.1 + 1 ≤ e'.1 <;> simp [hlt, this]
  rw [hfilter, h, List.filter_cons_of_neg (by simp), List.filter_eq_self]
  intro e' he'
  have := hsorted.1 e' he'
  simp only [decide_eq_true_eq]
  omega

lemma within_eq_cons (h : log.since position = e :: rest) (hlt : e.1 < stop) :
    log.within position stop = e :: log.within (e.1 + 1) stop := by
  rw [within, within, since_succ h, h, List.filter_cons_of_pos (by simpa using hlt)]

lemma within_eq_nil (h : log.since position = e :: rest) (hle : stop ≤ e.1) :
    log.within position stop = [] := by
  have hsorted := log.since_sorted position
  rw [h, List.pairwise_cons] at hsorted
  rw [within, h, List.filter_eq_nil_iff]
  intro e' he'
  rcases List.mem_cons.mp he' with rfl | hrest
  · simpa using hle
  · have := hsorted.1 e' hrest
    simp only [decide_eq_true_eq]
    omega

lemma within_sorted (log : OffsetLog ρ) (start stop : ℤ) :
    (log.within start stop).Pairwise (·.1 < ·.1) :=
  (log.since_sorted start).sublist List.filter_sublist

/-- **Adjacent stretches** make one. -/
lemma within_append_within (log : OffsetLog ρ) {middle : ℤ} (hstart : start ≤ middle)
    (hstop : middle ≤ stop) :
    log.within start middle ++ log.within middle stop = log.within start stop := by
  have hsorted : (log.within start middle ++ log.within middle stop).Pairwise (·.1 < ·.1) := by
    refine List.pairwise_append.mpr ⟨log.within_sorted _ _, log.within_sorted _ _, ?_⟩
    intro x hx y hy
    have hbefore := (mem_within.mp hx).2.2
    have hafter := (mem_within.mp hy).2.1
    omega
  refine List.Perm.eq_of_pairwise (fun x y _ _ hxy hyx => ?_) hsorted (log.within_sorted _ _) ?_
  · omega
  refine (List.perm_ext_iff_of_nodup (hsorted.imp ?_) ((log.within_sorted _ _).imp ?_)).mpr ?_
  · rintro x y hlt rfl
    omega
  · rintro x y hlt rfl
    omega
  · intro x
    rw [List.mem_append, mem_within, mem_within, mem_within]
    constructor
    · rintro (⟨hx, hge, hlt⟩ | ⟨hx, hge, hlt⟩)
      · exact ⟨hx, hge, by omega⟩
      · exact ⟨hx, by omega, hlt⟩
    · rintro ⟨hx, hge, hlt⟩
      rcases lt_or_ge x.1 middle with hbefore | hafter
      · exact .inl ⟨hx, hge, hbefore⟩
      · exact .inr ⟨hx, hafter, hlt⟩

/-- **Two stretches make the one from the first beginning to the last end** if and only if the
second comes behind the first and nothing lies in between. -/
theorem within_parts_iff {lo₁ hi₁ lo₂ hi₂ : ℤ} (h₁ : lo₁ ≤ hi₁) (h₂ : lo₂ ≤ hi₂)
    (hhi : ∃ e ∈ log.entries, e.1 = hi₁) (hlo : ∃ e ∈ log.entries, e.1 = lo₂) :
    log.within (min lo₁ lo₂) (max hi₁ hi₂ + 1)
        = log.within lo₁ (hi₁ + 1) ++ log.within lo₂ (hi₂ + 1) ↔
      hi₁ < lo₂ ∧ ∀ e ∈ log.entries, e.1 ≤ hi₁ ∨ lo₂ ≤ e.1 := by
  constructor
  · intro heq
    have hsorted := log.within_sorted (min lo₁ lo₂) (max hi₁ hi₂ + 1)
    rw [heq, List.pairwise_append] at hsorted
    constructor
    · obtain ⟨x, hx, rfl⟩ := hhi
      obtain ⟨y, hy, rfl⟩ := hlo
      exact hsorted.2.2 x (mem_within.mpr ⟨hx, h₁, by omega⟩) y
        (mem_within.mpr ⟨hy, le_refl _, by omega⟩)
    · intro e he
      by_contra hbetween
      rw [not_or, not_le, not_le] at hbetween
      have hin : e ∈ log.within (min lo₁ lo₂) (max hi₁ hi₂ + 1) :=
        mem_within.mpr ⟨he, by omega, by omega⟩
      rw [heq, List.mem_append, mem_within, mem_within] at hin
      omega
  · rintro ⟨hlt, hnone⟩
    have hmiddle : log.within (hi₁ + 1) lo₂ = [] := by
      refine List.eq_nil_iff_forall_not_mem.mpr fun e he => ?_
      obtain ⟨hmem, hge, hbelow⟩ := mem_within.mp he
      have := hnone e hmem
      omega
    have hrest : log.within (hi₁ + 1) (hi₂ + 1) = log.within lo₂ (hi₂ + 1) := by
      rw [← log.within_append_within (show hi₁ + 1 ≤ lo₂ by omega) (by omega), hmiddle,
        List.nil_append]
    rw [min_eq_left (by omega), max_eq_right (by omega), ← hrest,
      log.within_append_within (by omega) (by omega)]

lemma since_ne_nil_mono (h : log.since stop ≠ []) (hle : start ≤ stop) : log.since start ≠ [] := by
  rcases List.exists_mem_of_ne_nil _ h with ⟨e, he⟩
  rcases mem_since.mp he with ⟨hmem, hge⟩
  exact List.ne_nil_of_mem (mem_since.mpr ⟨hmem, by omega⟩)

/-- **The first entry of a kind marks where the kind begins**, when an entry of the kind is followed
by no other entries. -/
theorem find?_le_iff {p : ℤ × ρ → Bool} (hmono : log.entries.Pairwise fun a b => p a → p b)
    {x : ℤ × ρ} (h : log.entries.find? p = some e) (hx : x ∈ log.entries) :
    p x = true ↔ e.1 ≤ x.1 := by
  obtain ⟨hpe, before, after, hentries, hbefore⟩ := List.find?_eq_some_iff_append.mp h
  have hsorted := log.sorted
  rw [hentries, List.pairwise_append] at hsorted hmono
  rw [hentries, List.mem_append, List.mem_cons] at hx
  rcases hx with hx | rfl | hx
  · have hlt := hsorted.2.2 x hx e List.mem_cons_self
    have hnot := hbefore x hx
    simp only [Bool.not_eq_true'] at hnot
    rw [hnot]
    constructor
    · intro htrue
      cases htrue
    · intro hle
      omega
  · simp [hpe]
  · have hlt := (List.pairwise_cons.mp hsorted.2.1).1 x hx
    have hkeeps := (List.pairwise_cons.mp hmono.2.1).1 x hx hpe
    simp only [hkeeps, true_iff]
    omega

/-! ## Later entries -/

/-- `new` is `old` with the entries `extra` added, one after the other. -/
structure Extends (old new : OffsetLog ρ) (extra : List (ℤ × ρ)) : Prop where
  entries : new.entries = old.entries ++ extra
  logEnd : new.logEnd = old.logEnd + extra.length
  first : ∀ e ∈ extra.head?, e.1 = old.logEnd
  above : ∀ e ∈ extra, old.logEnd ≤ e.1

namespace Extends

lemma refl (log : OffsetLog ρ) : Extends log log [] :=
  ⟨by simp, by simp, by simp, by simp⟩

lemma append (h : Extends old new extra) (r : ρ) :
    Extends old (new.append r) (extra ++ [(new.logEnd, r)]) := by
  have hend := h.logEnd
  refine ⟨?_, ?_, ?_, ?_⟩
  · simp [OffsetLog.append, h.entries]
  · simp only [OffsetLog.append, List.length_append, List.length_singleton]
    omega
  · cases hextra : extra with
    | nil =>
        rw [hextra] at hend
        simpa using hend
    | cons e rest => simpa [hextra] using h.first
  · intro e he
    rcases List.mem_append.mp he with hold | hnew
    · exact h.above e hold
    · rw [List.mem_singleton.mp hnew]
      omega

lemma since_eq (h : Extends old new extra) (hle : position ≤ old.logEnd) :
    new.since position = old.since position ++ extra := by
  rw [since, since, h.entries, List.filter_append, List.append_cancel_left_eq, List.filter_eq_self]
  intro e he
  have := h.above e he
  simp only [decide_eq_true_eq]
  omega

/-- A reader gets the old entries first, then the later ones. -/
theorem fetch_eq (h : Extends old new extra) (hle : position ≤ old.logEnd) :
    new.fetch position = (old.since position ++ extra).head? := by
  have hend := h.logEnd
  rw [fetch_of_le (by omega), h.since_eq hle]

/-- What lies before the old end stays. -/
lemma within_eq (h : Extends old new extra) (hle : stop ≤ old.logEnd) :
    new.within start stop = old.within start stop := by
  rw [within, within, since, since, h.entries, List.filter_append, List.filter_append,
    List.append_right_eq_self, List.filter_eq_nil_iff]
  intro e he
  have := h.above e (List.mem_of_mem_filter he)
  simp only [decide_eq_true_eq]
  omega

/-- Nothing was added. -/
lemma eq_of_nil (h : Extends old new []) : new = old := by
  obtain ⟨entries, logEnd, _, _⟩ := new
  obtain ⟨entries', logEnd', _, _⟩ := old
  have hentries : entries = entries' := by simpa using h.entries
  have hend : logEnd = logEnd' := by simpa using h.logEnd
  subst hentries hend
  rfl

end Extends

/-! ## One more entry -/

lemma since_append (log : OffsetLog ρ) (r : ρ) (h : position ≤ log.logEnd) :
    (log.append r).since position = log.since position ++ [(log.logEnd, r)] := by
  simp [since, append, List.filter_append, h]

lemma within_append (log : OffsetLog ρ) (r : ρ) (h : position ≤ log.logEnd) :
    (log.append r).within position stop =
      log.within position stop ++ if log.logEnd < stop then [(log.logEnd, r)] else [] := by
  rw [within, since_append log r h, List.filter_append, ← within]
  by_cases hlt : log.logEnd < stop <;> simp [hlt]

/-! ## More entries -/

/-- Several entries, one after the other. -/
def appendAll (log : OffsetLog ρ) : List ρ → OffsetLog ρ
  | [] => log
  | r :: rs => (log.append r).appendAll rs

lemma appendAll_append (log : OffsetLog ρ) (rs : List ρ) (r : ρ) :
    log.appendAll (rs ++ [r]) = (log.appendAll rs).append r := by
  induction rs generalizing log with
  | nil => rfl
  | cons r' rs ih => exact ih (log.append r')

lemma exists_extends_appendAll (log : OffsetLog ρ) (rs : List ρ) :
    ∃ extra, Extends log (log.appendAll rs) extra := by
  have hgrows : ∀ rs new extra, Extends log new extra →
      ∃ extra, Extends log (new.appendAll rs) extra := by
    intro rs
    induction rs with
    | nil => exact fun new extra h => ⟨extra, h⟩
    | cons r rs ih => exact fun new extra h => ih _ _ (h.append r)
  exact hgrows rs log [] (.refl log)

lemma logEnd_appendAll (log : OffsetLog ρ) (rs : List ρ) :
    (log.appendAll rs).logEnd = log.logEnd + rs.length := by
  induction rs generalizing log with
  | nil => simp [appendAll]
  | cons r rs ih =>
      rw [appendAll, ih, append, List.length_cons]
      push_cast
      omega

lemma le_logEnd_of_since (h : log.since position = e :: rest) : position ≤ log.logEnd := by
  obtain ⟨hmem, hle⟩ := mem_since.mp (h ▸ List.mem_cons_self)
  have := log.below e hmem
  omega

/-- A reader with old entries before it gets the first of them. -/
lemma fetch_appendAll_of_cons (h : log.since position = e :: rest) (rs : List ρ) :
    (log.appendAll rs).fetch position = some e := by
  obtain ⟨extra, hextends⟩ := log.exists_extends_appendAll rs
  rw [hextends.fetch_eq (le_logEnd_of_since h), h]
  rfl

/-- A reader past the old entries gets the later ones, which lie close together. -/
lemma fetch_appendAll_of_nil {rs : List ρ} (h : log.since position = [])
    (hle : position ≤ log.logEnd + rs.length) :
    (log.appendAll rs).fetch position =
      rs[(max position log.logEnd - log.logEnd).toNat]?.map
        fun r => (max position log.logEnd, r) := by
  induction rs generalizing log with
  | nil =>
      rw [appendAll, fetch_of_le (by simpa using hle), h]
      rfl
  | cons r rs ih =>
      rw [appendAll]
      by_cases hold : position ≤ log.logEnd
      · obtain ⟨extra, hextends⟩ := (log.append r).exists_extends_appendAll rs
        have hend : position ≤ (log.append r).logEnd := by
          rw [append]
          simp only
          omega
        rw [hextends.fetch_eq hend, log.since_append r hold, h, max_eq_right hold]
        simp
      · have hsince : (log.append r).since position = [] := by
          rw [since, append, List.filter_append, ← since, h]
          simpa using hold
        rw [List.length_cons] at hle
        rw [ih hsince (by rw [append]; push_cast at hle ⊢; omega)]
        have hnew : max position (log.append r).logEnd = max position log.logEnd := by
          rw [append]
          simp only
          omega
        have hindex : (max position log.logEnd - log.logEnd).toNat =
            (max position (log.append r).logEnd - (log.append r).logEnd).toNat + 1 := by
          rw [append]
          simp only
          omega
        rw [hindex, List.getElem?_cons_succ, hnew]

/-! ## Readers of a range -/

/-- What a reader at a position has before it. -/
def unread (log : OffsetLog ρ) (position : ℤ) : List (ℤ × ρ) :=
  if log.logEnd < position then log.entries else log.since position

lemma fetch_eq_head? (log : OffsetLog ρ) (position : ℤ) :
    log.fetch position = (log.unread position).head? := by
  rw [fetch, unread]
  split_ifs <;> rfl

lemma unread_sorted (log : OffsetLog ρ) (position : ℤ) :
    (log.unread position).Pairwise (·.1 < ·.1) := by
  rw [unread]
  split_ifs
  · exact log.sorted
  · exact log.since_sorted position

lemma mem_entries_of_unread (h : e ∈ log.unread position) : e ∈ log.entries := by
  rw [unread] at h
  split_ifs at h
  · exact h
  · exact (mem_since.mp h).1

/-- A reader that goes on behind an entry has before it what followed the entry. -/
lemma since_of_unread (h : log.unread position = e :: rest) : log.since (e.1 + 1) = rest := by
  rw [unread] at h
  split_ifs at h with hover
  · have hsorted := log.sorted
    rw [h, List.pairwise_cons] at hsorted
    have hfirst : log.since e.1 = e :: rest := by
      rw [since, h, List.filter_eq_self]
      intro e' he'
      rcases List.mem_cons.mp he' with rfl | hrest
      · simp
      · simpa using (hsorted.1 e' hrest).le
    exact since_succ hfirst
  · exact since_succ h

lemma unread_succ (h : log.unread position = e :: rest) : log.unread (e.1 + 1) = rest := by
  have hbelow := log.below e (mem_entries_of_unread (h ▸ List.mem_cons_self))
  rw [unread, if_neg (by omega), since_of_unread h]

/-- All that a reader of a range is handed, in a log that was `old` when the reading began: the
entries of the range, or, where the range begins past the end of the log, all entries before its
end, as the reader starts over at the earliest. -/
inductive Handed (old log : OffsetLog ρ) (start stop : ℤ) : List (ℤ × ρ) → Prop
  | range (h : start ≤ log.logEnd) : Handed old log start stop (log.within start stop)
  | beyond (h : old.logEnd < start) : Handed old log start stop (log.entries.filter (·.1 < stop))

lemma Handed.append {full : List (ℤ × ρ)} (h : Handed old log start stop full) (r : ρ) :
    Handed old (log.append r) start stop
      (full ++ if log.logEnd < stop then [(log.logEnd, r)] else []) := by
  cases h with
  | range h =>
      rw [← within_append log r h]
      refine .range ?_
      simp only [OffsetLog.append]
      omega
  | beyond h =>
      have hfull : (log.append r).entries.filter (·.1 < stop) =
          log.entries.filter (·.1 < stop)
            ++ if log.logEnd < stop then [(log.logEnd, r)] else [] := by
        rw [OffsetLog.append, List.filter_append]
        by_cases hlt : log.logEnd < stop <;> simp [hlt]
      rw [← hfull]
      exact .beyond h

end OffsetLog
