import Ticksense.Replay.Producer

/-!
# The time lookup

When the table has no ranges, `_kafka_time_offset_ranges` asks the broker for the first offset at or
after each end of the window.  On logs whose timestamps do not decrease the two answers cut out the
records of the window exactly.  It asks the consumer for the partitions first, with a method that a
consumer of the pinned client library does not have.

* `offsetsForTimes_le_iff`, `offsetsForTimes_eq_none_iff` — what an answer of the broker says.
* `timeRange_covers_iff`, `exists_timeRange_iff` — one partition: what its range covers, and when it
  has one.
* `kafka_time_exact_iff` — all partitions: the lookup is exact if and only if the consumer answers.
-/

namespace Ticksense

/-! ## The broker's answers -/

/-- The timestamps of a log do not decrease. -/
def InTimeOrder (log : OffsetLog Record) : Prop :=
  log.entries.Pairwise fun a b => a.2.timestamp ≤ b.2.timestamp

section Lookup

variable {log : OffsetLog Record} {ms startMs endMs o : ℤ}

/-- The answer separates the older records from the others. -/
lemma offsetsForTimes_le_iff (htime : InTimeOrder log) (h : offsetsForTimes log ms = some o)
    {e : ℤ × Record} (he : e ∈ log.entries) : o ≤ e.1 ↔ ms ≤ e.2.timestamp := by
  obtain ⟨first, hfirst, rfl⟩ := Option.map_eq_some_iff.mp h
  have hmono : log.entries.Pairwise fun a b =>
      decide (ms ≤ a.2.timestamp) = true → decide (ms ≤ b.2.timestamp) = true := by
    refine htime.imp ?_
    intro a b hle ha
    simp only [decide_eq_true_eq] at ha ⊢
    omega
  rw [← OffsetLog.find?_le_iff hmono hfirst he, decide_eq_true_eq]

lemma offsetsForTimes_eq_none_iff :
    offsetsForTimes log ms = none ↔ ∀ e ∈ log.entries, e.2.timestamp < ms := by
  simp [offsetsForTimes, List.find?_eq_none]

/-- The answer is the offset of a record. -/
lemma exists_of_offsetsForTimes (h : offsetsForTimes log ms = some o) :
    ∃ e ∈ log.entries, e.1 = o ∧ ms ≤ e.2.timestamp := by
  obtain ⟨e, he, rfl⟩ := Option.map_eq_some_iff.mp h
  refine ⟨e, List.mem_of_find?_eq_some he, rfl, ?_⟩
  simpa using List.find?_some he

/-- A missing answer for the end of the window stands for an offset above all records. -/
lemma endOffset_le_iff (htime : InTimeOrder log) (hoffset : ∀ e ∈ log.entries, e.1 < 2 ^ 63 - 1)
    (endMs : ℤ) {e : ℤ × Record} (he : e ∈ log.entries) :
    (offsetsForTimes log endMs).getD (2 ^ 63 - 1) ≤ e.1 ↔ endMs ≤ e.2.timestamp := by
  cases hend : offsetsForTimes log endMs with
  | some o =>
      rw [Option.getD_some]
      exact offsetsForTimes_le_iff htime hend he
  | none =>
      have hbelow := hoffset e he
      have holder := offsetsForTimes_eq_none_iff.mp hend e he
      rw [Option.getD_none]
      omega

/-! ## One partition -/

/-- A record of the window. -/
def InTimeWindow (startMs endMs : ℤ) (e : ℤ × Record) : Prop :=
  startMs ≤ e.2.timestamp ∧ e.2.timestamp < endMs

variable {range : OffsetRange} (partition : ℤ)

/-- The range of a partition, when it has one. -/
lemma timeRange_eq_some_iff {startResult endResult : Option ℤ} :
    timeRange partition startResult endResult = some range ↔
      ∃ o, startResult = some o ∧ o < endResult.getD (2 ^ 63 - 1) ∧
        range = ⟨partition, o, endResult.getD (2 ^ 63 - 1)⟩ := by
  cases startResult with
  | none => simp [timeRange]
  | some o =>
      simp only [timeRange, Option.some.injEq, exists_eq_left']
      split_ifs with hempty
      · simp only [false_iff, not_and]
        omega
      · constructor
        · intro h
          exact ⟨by omega, (Option.some.inj h).symm⟩
        · rintro ⟨_, rfl⟩
          rfl

section InOrder

variable (htime : InTimeOrder log) (hoffset : ∀ e ∈ log.entries, e.1 < 2 ^ 63 - 1)
include htime hoffset

/-- **What the range covers**: the records of the window. -/
lemma timeRange_covers_iff {e : ℤ × Record} (he : e ∈ log.entries) :
    (∃ range, timeRange partition (offsetsForTimes log startMs) (offsetsForTimes log endMs)
        = some range ∧ range.Covers partition e.1) ↔ InTimeWindow startMs endMs e := by
  have hend := endOffset_le_iff htime hoffset endMs he
  constructor
  · rintro ⟨range, hrange, hcovers⟩
    obtain ⟨o, hstart, _, rfl⟩ := (timeRange_eq_some_iff _).mp hrange
    obtain ⟨_, hlo, hhi⟩ := hcovers
    refine ⟨(offsetsForTimes_le_iff htime hstart he).mp hlo, ?_⟩
    by_contra hlate
    exact absurd hhi (not_lt.mpr (hend.mpr (not_lt.mp hlate)))
  · rintro ⟨hlo, hhi⟩
    have hbefore := mt hend.mp (not_le.mpr hhi)
    cases hstart : offsetsForTimes log startMs with
    | none =>
        have := offsetsForTimes_eq_none_iff.mp hstart e he
        omega
    | some o =>
        have hle := (offsetsForTimes_le_iff htime hstart he).mpr hlo
        refine ⟨_, (timeRange_eq_some_iff partition).mpr ⟨o, rfl, by omega, rfl⟩, rfl, hle, ?_⟩
        simpa using hbefore

/-- **When there is a range**: when the window has a record, its first being where the range starts.
-/
lemma exists_timeRange_iff :
    (∃ range, timeRange partition (offsetsForTimes log startMs) (offsetsForTimes log endMs)
        = some range) ↔ ∃ e ∈ log.entries, InTimeWindow startMs endMs e := by
  constructor
  · rintro ⟨range, hrange⟩
    obtain ⟨o, hstart, hlt, rfl⟩ := (timeRange_eq_some_iff _).mp hrange
    obtain ⟨e, he, rfl, _⟩ := exists_of_offsetsForTimes hstart
    refine ⟨e, he, (timeRange_covers_iff partition htime hoffset he).mp ?_⟩
    exact ⟨_, hrange, rfl, le_refl _, hlt⟩
  · rintro ⟨e, he, hwindow⟩
    obtain ⟨range, hrange, _⟩ :=
      (timeRange_covers_iff partition htime hoffset he).mpr hwindow
    exact ⟨range, hrange⟩

end InOrder

end Lookup

/-! ## All partitions -/

section AllPartitions

variable {topic : Topic} {partitionsFor : Except PyError (Option (List ℤ))} {startTs endTs : ℤ}
  {ranges : List OffsetRange} {range : OffsetRange}

lemma kafkaTimeOffsetRanges_ok_iff :
    kafkaTimeOffsetRanges partitionsFor topic startTs endTs = .ok ranges ↔
      ∃ answer, partitionsFor = .ok answer ∧
        ranges = ((answer.getD []).insertionSort (· ≤ ·)).filterMap fun p =>
          timeRange p (offsetsForTimes (topic.log p) (epochMs startTs))
            (offsetsForTimes (topic.log p) (epochMs endTs)) := by
  cases partitionsFor with
  | error e => simp [kafkaTimeOffsetRanges, partitionsForTopic]
  | ok answer => simp [kafkaTimeOffsetRanges, partitionsForTopic, eq_comm]

/-- Where a range of the lookup comes from. -/
lemma exists_timeRange_of_mem
    (h : kafkaTimeOffsetRanges partitionsFor topic startTs endTs = .ok ranges)
    (hrange : range ∈ ranges) :
    ∃ p, timeRange p (offsetsForTimes (topic.log p) (epochMs startTs))
      (offsetsForTimes (topic.log p) (epochMs endTs)) = some range := by
  obtain ⟨answer, _, rfl⟩ := kafkaTimeOffsetRanges_ok_iff.mp h
  obtain ⟨p, _, hp⟩ := List.mem_filterMap.mp hrange
  exact ⟨p, hp⟩

lemma partition_of_timeRange {p : ℤ} {startResult endResult : Option ℤ}
    (h : timeRange p startResult endResult = some range) : range.partition = p := by
  obtain ⟨o, _, _, rfl⟩ := (timeRange_eq_some_iff _).mp h
  rfl

/-- The ranges are exact: they contain the offset of a record if and only if it lies in the window; a
partition occurs at most once, in ascending order, and if and only if it has a record in the window.
-/
structure ExactRanges (topic : Topic) (startMs endMs : ℤ) (ranges : List OffsetRange) : Prop where
  covers : ∀ p ∈ topic.partitions, ∀ e ∈ (topic.log p).entries,
    (∃ range ∈ ranges, range.Covers p e.1) ↔ InTimeWindow startMs endMs e
  ascending : (ranges.map OffsetRange.partition).Pairwise (· < ·)
  present : ∀ p, p ∈ ranges.map OffsetRange.partition ↔
    p ∈ topic.partitions ∧ ∃ e ∈ (topic.log p).entries, InTimeWindow startMs endMs e

/-- The ranges of the topic's partitions are exact. -/
lemma exactRanges_of_perm {partitions : List ℤ} (hperm : partitions.Perm topic.partitions)
    (htime : ∀ p ∈ topic.partitions, InTimeOrder (topic.log p))
    (hoffset : ∀ p ∈ topic.partitions, ∀ e ∈ (topic.log p).entries, e.1 < 2 ^ 63 - 1)
    (startMs endMs : ℤ) :
    ExactRanges topic startMs endMs ((partitions.insertionSort (· ≤ ·)).filterMap fun p =>
      timeRange p (offsetsForTimes (topic.log p) startMs) (offsetsForTimes (topic.log p) endMs)) := by
  have hmem : ∀ p, p ∈ partitions.insertionSort (· ≤ ·) ↔ p ∈ topic.partitions := fun p =>
    ((List.perm_insertionSort _ _).trans hperm).mem_iff
  constructor
  · intro p hp e he
    rw [← timeRange_covers_iff p (htime p hp) (hoffset p hp) he]
    constructor
    · rintro ⟨range, hrange, hcovers⟩
      obtain ⟨q, _, hq⟩ := List.mem_filterMap.mp hrange
      have hsame : q = p := (partition_of_timeRange hq).symm.trans hcovers.1
      subst hsame
      exact ⟨range, hq, hcovers⟩
    · rintro ⟨range, hrange, hcovers⟩
      exact ⟨range, List.mem_filterMap.mpr ⟨p, (hmem p).mpr hp, hrange⟩, hcovers⟩
  · have hnodup : (partitions.insertionSort (· ≤ ·)).Nodup :=
      ((List.perm_insertionSort _ _).trans hperm).nodup_iff.mpr topic.distinct
    have hstrict : (partitions.insertionSort (· ≤ ·)).Pairwise (· < ·) := by
      refine ((List.pairwise_insertionSort (· ≤ ·) partitions).and hnodup).imp ?_
      rintro p q ⟨hle, hne⟩
      exact lt_of_le_of_ne hle hne
    rw [List.pairwise_map, List.pairwise_filterMap]
    refine hstrict.imp ?_
    intro p q hlt r hr r' hr'
    rw [partition_of_timeRange hr, partition_of_timeRange hr']
    exact hlt
  · intro p
    rw [List.mem_map]
    constructor
    · rintro ⟨range, hrange, rfl⟩
      obtain ⟨q, hq, htimeRange⟩ := List.mem_filterMap.mp hrange
      rw [hmem] at hq
      rw [partition_of_timeRange htimeRange]
      exact ⟨hq, (exists_timeRange_iff q (htime q hq) (hoffset q hq)).mp ⟨range, htimeRange⟩⟩
    · rintro ⟨hp, hwindow⟩
      obtain ⟨range, hrange⟩ :=
        (exists_timeRange_iff p (htime p hp) (hoffset p hp)).mpr hwindow
      exact ⟨range, List.mem_filterMap.mpr ⟨p, (hmem p).mpr hp, hrange⟩,
        partition_of_timeRange hrange⟩

/-- **When the time lookup is exact**, for timestamps that do not decrease along a partition and
offsets below the one that stands for the end of all offsets.  Where `consumer.partitions_for`
answers, it gives the partitions of the topic.  The lookup returns exact ranges if and only if it
does answer. -/
theorem kafka_time_exact_iff (topic : Topic) (partitionsFor : Except PyError (Option (List ℤ)))
    (hanswer : ∀ answer, partitionsFor = .ok answer → (answer.getD []).Perm topic.partitions)
    (startTs endTs : Datetime) (htime : ∀ p ∈ topic.partitions, InTimeOrder (topic.log p))
    (hoffset : ∀ p ∈ topic.partitions, ∀ e ∈ (topic.log p).entries, e.1 < 2 ^ 63 - 1) :
    (∃ ranges, kafkaTimeOffsetRanges partitionsFor topic startTs.instant endTs.instant = .ok ranges ∧
        ExactRanges topic (epochMs startTs.instant) (epochMs endTs.instant) ranges) ↔
      ∃ answer, partitionsFor = .ok answer := by
  constructor
  · rintro ⟨ranges, hranges, _⟩
    obtain ⟨answer, hok, _⟩ := kafkaTimeOffsetRanges_ok_iff.mp hranges
    exact ⟨answer, hok⟩
  · rintro ⟨answer, hok⟩
    exact ⟨_, kafkaTimeOffsetRanges_ok_iff.mpr ⟨answer, hok, rfl⟩,
      exactRanges_of_perm (hanswer answer hok) htime hoffset _ _⟩

/-- One partition with a gap in its offsets and three records, two of the same time. -/
def gappedTopic : Topic where
  partitions := [3]
  distinct := List.nodup_singleton 3
  log := fun _ => ⟨[(3, ⟨none, none, 1000⟩), (5, ⟨none, none, 2000⟩), (6, ⟨none, none, 2000⟩)], 7,
    by decide, by decide⟩

lemma gappedTopic_inTimeOrder : ∀ p ∈ gappedTopic.partitions, InTimeOrder (gappedTopic.log p) := by
  intro p _
  have htime : (gappedTopic.log 3).entries.Pairwise fun a b =>
      a.2.timestamp ≤ b.2.timestamp := by decide
  exact htime

lemma gappedTopic_offsets :
    ∀ p ∈ gappedTopic.partitions, ∀ e ∈ (gappedTopic.log p).entries, e.1 < 2 ^ 63 - 1 := by
  intro p _
  have hbelow : ∀ e ∈ (gappedTopic.log 3).entries, e.1 < 2 ^ 63 - 1 := by decide
  exact hbelow

/-- The consumer has no such method; one that had it would give the range of the first record. -/
theorem kafka_time_exact_iff_sample :
    (¬ ∃ ranges, kafkaTimeOffsetRanges (.error .attributeError) gappedTopic
        (Datetime.mk 1000000 none).instant (Datetime.mk 3602000000 (some 3600000000)).instant
          = .ok ranges ∧ ExactRanges gappedTopic 1000 2000 ranges) ∧
      ∃ ranges, kafkaTimeOffsetRanges (.ok (some [3])) gappedTopic
        (Datetime.mk 1000000 none).instant (Datetime.mk 3602000000 (some 3600000000)).instant
          = .ok ranges ∧ ExactRanges gappedTopic 1000 2000 ranges := by
  constructor
  · refine mt (kafka_time_exact_iff gappedTopic (.error .attributeError) ?_ ⟨1000000, none⟩
      ⟨3602000000, some 3600000000⟩ gappedTopic_inTimeOrder gappedTopic_offsets).mp ?_
    · rintro answer ⟨⟩
    · rintro ⟨answer, ⟨⟩⟩
  · refine (kafka_time_exact_iff gappedTopic (.ok (some [3])) ?_ ⟨1000000, none⟩
      ⟨3602000000, some 3600000000⟩ gappedTopic_inTimeOrder gappedTopic_offsets).mpr ⟨_, rfl⟩
    rintro answer ⟨⟩
    exact List.Perm.refl _

/-- **The time lookup raises.**  A consumer has no `partitions_for`. -/
theorem time_lookup_raises :
    ¬ ∀ (topic : Topic) (partitionsFor : Except PyError (Option (List ℤ))) (startTs endTs : Datetime),
      (∀ answer, partitionsFor = .ok answer → (answer.getD []).Perm topic.partitions) →
      (∀ p ∈ topic.partitions, InTimeOrder (topic.log p)) →
      (∀ p ∈ topic.partitions, ∀ e ∈ (topic.log p).entries, e.1 < 2 ^ 63 - 1) →
      ∃ ranges, kafkaTimeOffsetRanges partitionsFor topic startTs.instant endTs.instant = .ok ranges ∧
        ExactRanges topic (epochMs startTs.instant) (epochMs endTs.instant) ranges := by
  intro h
  obtain ⟨ranges, hranges, _⟩ := h gappedTopic (.error .attributeError) ⟨1000000, none⟩
    ⟨3602000000, some 3600000000⟩ (by rintro answer ⟨⟩) gappedTopic_inTimeOrder gappedTopic_offsets
  cases hranges

end AllPartitions

end Ticksense
