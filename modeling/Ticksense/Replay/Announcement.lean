import Ticksense.Replay.Accounting

/-!
# What a replay announces

The records a replay is to read, from its ranges and the log before it starts.

* `announced` — what a replay reads if nothing comes back: range by range, up to the first one that
  ends at or after the end of its partition.  There the consumer waits for one more record.
* `Harmless` — no copy gets in the way of a consumer that waits so.
* `announced_of_lt`, `announced_of_ge`, `announced_of_nil` and the same for `Harmless` — how both
  change with one pass of the consumer loop.
-/

namespace Ticksense

/-! ## The announcement -/

/-- No record lies at or after the end of the range. -/
def OpenEnded (topic : Topic) (range : OffsetRange) : Prop :=
  (topic.log range.partition).since range.endOffset = []

instance (topic : Topic) (range : OffsetRange) : Decidable (OpenEnded topic range) :=
  inferInstanceAs (Decidable ((topic.log range.partition).since range.endOffset = []))

/-- The records of a range. -/
def OffsetRange.records (topic : Topic) (range : OffsetRange) : List SourceRecord :=
  ((topic.log range.partition).within range.startOffset range.endOffset).map fun e =>
    ⟨range.partition, e.1, e.2⟩

/-- The records of the ranges, up to the first that is open-ended. -/
def announced (topic : Topic) : List OffsetRange → List SourceRecord
  | [] => []
  | range :: rest =>
      range.records topic ++ if OpenEnded topic range then [] else announced topic rest

/-- What is left of a list when `n` records have been read already. -/
def capped {α : Type*} (maxEvents : Option ℤ) (n : ℕ) (l : List α) : List α :=
  match maxEvents with
  | none => l
  | some maxEvents => l.take (maxEvents - n).toNat

section Capped

variable {α : Type*} {maxEvents : Option ℤ} {n : ℕ} {l : List α}

@[simp] lemma capped_nil : capped maxEvents n ([] : List α) = [] := by
  cases maxEvents <;> simp [capped]

lemma capped_of_spent (h : budgetSpent maxEvents n = true) : capped maxEvents n l = [] := by
  cases maxEvents with
  | none => simp [budgetSpent] at h
  | some m =>
      simp only [budgetSpent, Option.any_some, decide_eq_true_eq] at h
      have hzero : (m - n).toNat = 0 := by omega
      simp [capped, hzero]

lemma capped_cons {a : α} (h : budgetSpent maxEvents n = false) :
    capped maxEvents n (a :: l) = a :: capped maxEvents (n + 1) l := by
  cases maxEvents with
  | none => rfl
  | some m =>
      simp only [budgetSpent, Option.any_some, decide_eq_false_iff_not] at h
      have hsucc : (m - n).toNat = (m - (n + 1 : ℕ)).toNat + 1 := by omega
      simp [capped, hsucc]

end Capped

section Harmless

variable (out : Outside) (args : ReplayArgs) (dryRun : Bool)

/-- One of the first `n` sends goes to the partition of the source topic. -/
def ComesBack (n : ℕ) (partition : ℤ) : Prop :=
  dryRun = false ∧ loopsBack out args = true ∧ ∃ i < n, out.route i = partition

/-- **No copy gets in the way**, when `n` records have been read before these ranges.  At the end of
an open-ended range the consumer waits for one more record, unless the budget is used up.  If a copy
comes back to that partition, it must lie outside the range, and the ranges after it must have
nothing to read. -/
def Harmless (n : ℕ) : List OffsetRange → Prop
  | [] => True
  | range :: rest =>
      budgetSpent args.maxEvents (n + (range.records out.topic).length) = true ∨
        if OpenEnded out.topic range then
          ComesBack out args dryRun (n + (range.records out.topic).length) range.partition →
            range.endOffset ≤ (out.topic.log range.partition).logEnd ∧
              announced out.topic rest = [] ∧
              Harmless (n + (range.records out.topic).length) rest
        else Harmless (n + (range.records out.topic).length) rest

end Harmless

section Ranges

variable {out : Outside} {args : ReplayArgs} {dryRun : Bool} {range : OffsetRange}
  {rest : List OffsetRange} {n : ℕ} {e : ℤ × Record} {later : List (ℤ × Record)}

lemma harmless_of_spent {ranges : List OffsetRange} (h : budgetSpent args.maxEvents n = true) :
    Harmless out args dryRun n ranges := by
  cases ranges with
  | nil => trivial
  | cons range rest => exact Or.inl (budgetSpent_mono h (by omega))

/-- A dry run sends nothing. -/
lemma harmless_dryRun {ranges : List OffsetRange} : Harmless out args true n ranges := by
  induction ranges generalizing n with
  | nil => trivial
  | cons range rest ih =>
      refine Or.inr ?_
      split_ifs
      · rintro ⟨hlive, _⟩
        cases hlive
      · exact ih

/-! The first record from the start of a range on lies in the range, after it, or is missing. -/

lemma records_of_lt (range : OffsetRange)
    (h : (out.topic.log range.partition).since range.startOffset = e :: later)
    (hlt : e.1 < range.endOffset) :
    range.records out.topic =
      ⟨range.partition, e.1, e.2⟩ :: { range with startOffset := e.1 + 1 }.records out.topic := by
  simp only [OffsetRange.records, OffsetLog.within_eq_cons h hlt, List.map_cons]

/-- A record that is passed is one more that was read and one less to come. -/
lemma length_records_of_lt (range : OffsetRange)
    (h : (out.topic.log range.partition).since range.startOffset = e :: later)
    (hlt : e.1 < range.endOffset) :
    n + (range.records out.topic).length =
      n + 1 + ({ range with startOffset := e.1 + 1 }.records out.topic).length := by
  rw [records_of_lt range h hlt, List.length_cons]
  omega

lemma announced_of_lt (range : OffsetRange)
    (h : (out.topic.log range.partition).since range.startOffset = e :: later)
    (hlt : e.1 < range.endOffset) :
    announced out.topic (range :: rest) =
      ⟨range.partition, e.1, e.2⟩ ::
        announced out.topic ({ range with startOffset := e.1 + 1 } :: rest) := by
  simp only [announced, records_of_lt range h hlt, List.cons_append]
  rfl

lemma harmless_of_lt (range : OffsetRange)
    (h : (out.topic.log range.partition).since range.startOffset = e :: later)
    (hlt : e.1 < range.endOffset) :
    Harmless out args dryRun n (range :: rest) ↔
      Harmless out args dryRun (n + 1) ({ range with startOffset := e.1 + 1 } :: rest) := by
  have hlen := length_records_of_lt (n := n) range h hlt
  simp only [Harmless, hlen]
  rfl

lemma records_of_ge (range : OffsetRange)
    (h : (out.topic.log range.partition).since range.startOffset = e :: later)
    (hle : range.endOffset ≤ e.1) : range.records out.topic = [] := by
  rw [OffsetRange.records, OffsetLog.within_eq_nil h hle, List.map_nil]

lemma not_openEnded_of_ge (range : OffsetRange)
    (h : (out.topic.log range.partition).since range.startOffset = e :: later)
    (hle : range.endOffset ≤ e.1) : ¬ OpenEnded out.topic range := by
  have hmem := OffsetLog.mem_since.mp (h ▸ List.mem_cons_self (a := e))
  exact List.ne_nil_of_mem (OffsetLog.mem_since.mpr ⟨hmem.1, hle⟩)

lemma announced_of_ge (range : OffsetRange)
    (h : (out.topic.log range.partition).since range.startOffset = e :: later)
    (hle : range.endOffset ≤ e.1) :
    announced out.topic (range :: rest) = announced out.topic rest := by
  rw [announced, records_of_ge range h hle, if_neg (not_openEnded_of_ge range h hle),
    List.nil_append]

lemma harmless_of_ge (range : OffsetRange)
    (h : (out.topic.log range.partition).since range.startOffset = e :: later)
    (hle : range.endOffset ≤ e.1) :
    Harmless out args dryRun n (range :: rest) ↔ Harmless out args dryRun n rest := by
  simp only [Harmless, records_of_ge range h hle, List.length_nil, Nat.add_zero,
    if_neg (not_openEnded_of_ge range h hle)]
  constructor
  · rintro (hspent | hlater)
    · exact harmless_of_spent hspent
    · exact hlater
  · intro hlater
    exact Or.inr hlater

lemma records_of_nil (h : (out.topic.log range.partition).since range.startOffset = []) :
    range.records out.topic = [] := by
  simp [OffsetRange.records, OffsetLog.within, h]

lemma openEnded_of_nil (h : (out.topic.log range.partition).since range.startOffset = [])
    (hle : range.startOffset ≤ range.endOffset) : OpenEnded out.topic range := by
  by_contra hopen
  exact OffsetLog.since_ne_nil_mono hopen hle h

lemma announced_of_nil (h : (out.topic.log range.partition).since range.startOffset = [])
    (hle : range.startOffset ≤ range.endOffset) : announced out.topic (range :: rest) = [] := by
  rw [announced, records_of_nil h, if_pos (openEnded_of_nil h hle), List.append_nil]

lemma harmless_of_nil (h : (out.topic.log range.partition).since range.startOffset = [])
    (hle : range.startOffset ≤ range.endOffset) :
    Harmless out args dryRun n (range :: rest) ↔
      (budgetSpent args.maxEvents n = true ∨
        (ComesBack out args dryRun n range.partition →
          range.endOffset ≤ (out.topic.log range.partition).logEnd ∧
            announced out.topic rest = [] ∧ Harmless out args dryRun n rest)) := by
  simp only [Harmless, records_of_nil h, List.length_nil, Nat.add_zero,
    if_pos (openEnded_of_nil h hle)]

end Ranges

end Ticksense
