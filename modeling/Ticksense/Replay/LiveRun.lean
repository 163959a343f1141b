import Ticksense.Replay.Plan
import Ticksense.Replay.TimeLookup

/-!
# Dry run and live run

A dry run only reads.  A live run sends as it reads, and when the target topic is the source topic
the log it iterates over grows with every send.

* `doomed_step`, `overrun_step` — a live run that is not harmless reads a copy, or goes on to ranges
  that the dry run never reached.
* `LiveMatches` — what a live run owes to the records the dry run reads.
* `live_matches_dry_iff` — it does so if and only if it is harmless.  With the default settings it
  need not be (`live_run_goes_further`).
-/

namespace Ticksense

section Machine

variable {out : Outside} {args : ReplayArgs} {dryRun : Bool} {R : List SourceRecord}
  {s t : ReplayState}

/-! ## A copy in the way -/

/-- The replay has read everything that was announced, but not everything there is to read. -/
structure Overrun (out : Outside) (args : ReplayArgs) (R : List SourceRecord) (s : ReplayState) :
    Prop where
  read : s.read = R
  budget : budgetSpent args.maxEvents s.read.length = false
  more : announced out.topic s.ahead ≠ []
  placed : ∀ range ∈ s.ahead, range.Placed out.topic

/-- A live run heading for a copy. -/
structure Doomed (out : Outside) (args : ReplayArgs) (R : List SourceRecord) (s : ReplayState) :
    Prop where
  onPlan : OnPlan out args R s
  harmful : ¬ Harmless out args false s.read.length s.ahead

lemma not_initial_of_count {r : SourceRecord} (hread : s.read = R) (ht : t.read = s.read ++ [r]) :
    ¬ t.read <+: R := by
  intro h
  have hlen := h.length_le
  rw [ht, hread, List.length_append, List.length_singleton] at hlen
  omega

/-- Before a range there is a next pass as long as ranges and budget last. -/
lemma enter_of_ahead (hbooks : Books out args dryRun s) (hcontrol : s.control = .next)
    (hahead : s.ahead ≠ []) (hbudget : budgetSpent args.maxEvents s.read.length = false) :
    ∃ t, Advanced args dryRun s t ∧ t.ahead = s.ahead ∧ t.read = s.read ∧
      t.distance R < s.distance R := by
  rw [ahead_of_next hcontrol] at hahead ⊢
  cases hranges : s.ranges with
  | nil => exact absurd hranges hahead
  | cons range rest =>
      refine ⟨_, .enter range rest hcontrol hranges ?_, rfl, rfl, ?_⟩
      · rw [hbooks.read_of_next hcontrol]
        exact hbudget
      · simp only [ReplayState.distance, hcontrol, hranges, List.length_cons]
        omega

/-- What one step of a doomed run can lead to: a record too many, or a state nearer to it. -/
def Worse (out : Outside) (args : ReplayArgs) (R : List SourceRecord) (s : ReplayState) : Prop :=
  ∃ t, ReplayStep out args false s t ∧ (¬ t.read <+: R ∨
    (Doomed out args R t ∨ Overrun out args R t) ∧ t.distance R < s.distance R)

lemma Doomed.budget (h : Doomed out args R s) :
    budgetSpent args.maxEvents s.read.length = false :=
  Bool.eq_false_iff.mpr fun hspent => h.harmful (harmless_of_spent hspent)

lemma Doomed.ahead_ne_nil (h : Doomed out args R s) : s.ahead ≠ [] := by
  intro hnil
  exact h.harmful (by rw [hnil]; trivial)

/-- A doomed run inside a range, with the rest of that range spelled out. -/
lemma Doomed.reading (h : Doomed out args R s) {loop : PartitionReplay}
    (hcontrol : s.control = .reading loop) :
    loop.rest.Placed out.topic ∧ (∀ range ∈ s.ranges, range.Placed out.topic) ∧
      s.read ++ capped args.maxEvents s.read.length
        (announced out.topic (loop.rest :: s.ranges)) = R ∧
      ¬ Harmless out args false s.read.length (loop.rest :: s.ranges) := by
  obtain ⟨hhere, hrest, hplan⟩ := h.onPlan.reading hcontrol
  have hharmful := h.harmful
  rw [ahead_of_reading hcontrol] at hharmful
  exact ⟨hhere, hrest, hplan, hharmful⟩

section Doomed

variable (hbooks : Books out args false s) (h : Doomed out args R s)
include hbooks h

/-- Before a range, the run enters it. -/
lemma Doomed.enter (hcontrol : s.control = .next) : Worse out args R s := by
  rcases enter_of_ahead (R := R) hbooks hcontrol h.ahead_ne_nil h.budget with
    ⟨t, hpass, hsame, hread, hlt⟩
  refine ⟨t, .advance (advance_eq_some_iff.mpr hpass), Or.inr ⟨Or.inl ⟨⟨?_, ?_⟩, ?_⟩, hlt⟩⟩
  · rw [hread, hsame]
    exact h.onPlan.plan
  · rw [hsame]
    exact h.onPlan.placed
  · rw [hread, hsame]
    exact h.harmful

/-- A record from before the replay is counted, or ends the range, as announced. -/
lemma Doomed.record {loop : PartitionReplay} {e : ℤ × Record} {later : List (ℤ × Record)}
    (hcontrol : s.control = .reading loop)
    (hsince : (out.topic.log loop.range.partition).since loop.position = e :: later)
    (hfetch : (s.log loop.range.partition).fetch loop.position = some e) : Worse out args R s := by
  obtain ⟨_, hrest, hplan, hharmful⟩ := h.reading hcontrol
  by_cases hlt : e.1 < loop.range.endOffset
  · obtain ⟨honPlan, hmore⟩ := h.onPlan.count false hcontrol hsince hlt h.budget
    refine ⟨_, .advance (advance_eq_some_iff.mpr
      (.count loop e.1 e.2 hcontrol hfetch (hbooks.goes_on hcontrol hlt h.budget))),
      Or.inr ⟨Or.inl ⟨honPlan, ?_⟩, distance_count s hcontrol e.1 e.2 hmore⟩⟩
    rw [read_count, List.length_append, ahead_count]
    exact mt (harmless_of_lt loop.rest hsince hlt).mpr hharmful
  · have hge := not_lt.mp hlt
    have hstops := (hbooks.stops_iff hcontrol e.1).mpr (Or.inl hge)
    rw [announced_of_ge loop.rest hsince hge] at hplan
    refine ⟨_, .advance (advance_eq_some_iff.mpr (.leave loop e.1 e.2 hcontrol hfetch hstops)),
      Or.inr ⟨Or.inl ⟨⟨hplan, hrest⟩, ?_⟩, distance_leave s hcontrol⟩⟩
    exact mt (harmless_of_ge loop.rest hsince hge).mpr hharmful

/-- A copy in the range is read; one after the range lets the run go on to the ranges behind it. -/
lemma Doomed.copy {loop : PartitionReplay} {copy : Record} (hcontrol : s.control = .reading loop)
    (hsince : (out.topic.log loop.range.partition).since loop.position = [])
    (hfetch : (s.log loop.range.partition).fetch loop.position
      = some ((out.topic.log loop.range.partition).logEnd, copy)) : Worse out args R s := by
  obtain ⟨hhere, hrest, _, hharmful⟩ := h.reading hcontrol
  have hread : s.read = R := by
    refine h.onPlan.read_eq (Or.inr ?_)
    rw [ahead_of_reading hcontrol]
    exact announced_of_nil hsince hhere.2
  by_cases hlt : (out.topic.log loop.range.partition).logEnd < loop.range.endOffset
  · exact ⟨_, .advance (advance_eq_some_iff.mpr
      (.count loop _ copy hcontrol hfetch (hbooks.goes_on hcontrol hlt h.budget))),
      Or.inl (not_initial_of_count hread (read_count s loop _ copy))⟩
  · have hge := not_lt.mp hlt
    have hstops := (hbooks.stops_iff hcontrol _).mpr (Or.inl hge)
    refine ⟨_, .advance (advance_eq_some_iff.mpr (.leave loop _ copy hcontrol hfetch hstops)),
      Or.inr ⟨?_, distance_leave s hcontrol⟩⟩
    by_cases hmore : announced out.topic s.ranges = []
    · refine Or.inl ⟨.of_read_eq hread (Or.inr hmore) hrest, fun hlater => hharmful ?_⟩
      exact (harmless_of_nil hsince hhere.2).mpr (Or.inr fun _ => ⟨hge, hmore, hlater⟩)
    · exact Or.inr ⟨hread, h.budget, hmore, hrest⟩

end Doomed

end Machine

/-! ## The ranges -/

section Ranges

variable {out : Outside} {args : ReplayArgs}

/-- A planned range is one of the table, or one of the time lookup. -/
lemma mem_plannedRanges {range : OffsetRange} (h : range ∈ plannedRanges out args) :
    range ∈ readOffsetRange out.table args.symbol args.startTs args.endTs ∨
      ∃ ranges, kafkaTimeOffsetRanges out.partitionsFor out.topic args.startTs args.endTs
        = .ok ranges ∧ range ∈ ranges := by
  simp only [plannedRanges, resolveRanges] at h
  split_ifs at h with htable
  · exact Or.inl h
  · cases hlookup : kafkaTimeOffsetRanges out.partitionsFor out.topic args.startTs args.endTs with
    | error e => simp [hlookup] at h
    | ok ranges =>
        refine Or.inr ⟨ranges, rfl, ?_⟩
        simpa [hlookup] using h

lemma offset_of_offsetsForTimes {log : OffsetLog Record} {ms o : ℤ}
    (h : offsetsForTimes log ms = some o) : o < log.logEnd := by
  rw [offsetsForTimes, Option.map_eq_some_iff] at h
  obtain ⟨e, he, rfl⟩ := h
  exact log.below e (List.mem_of_find?_eq_some he)

/-- The known places of the table are places the source topic has had. -/
def KnownPlaces (out : Outside) : Prop :=
  ∀ rows, out.table = .ok rows → ∀ row ∈ rows, row.kafkaPartition ≠ -1 → row.kafkaOffset ≠ -1 →
    row.kafkaOffset < (out.topic.log row.kafkaPartition).logEnd

lemma placed_of_readOffsetRange (hplaces : KnownPlaces out) {range : OffsetRange}
    (h : range ∈ readOffsetRange out.table args.symbol args.startTs args.endTs) :
    range.Placed out.topic := by
  cases htable : out.table with
  | error e => simp [readOffsetRange, htable] at h
  | ok rows =>
      simp only [readOffsetRange, htable] at h
      obtain ⟨p, hne, rfl⟩ := mem_offsetRanges.mp h
      generalize hknown : knownOffsets _ _ p = known at hne
      cases hmin : known.min? with
      | none => exact absurd (List.min?_eq_none_iff.mp hmin) hne
      | some lo =>
          cases hmax : known.max? with
          | none => exact absurd (List.max?_eq_none_iff.mp hmax) hne
          | some hi =>
              have hlo : lo ∈ known := List.min?_mem hmin
              have hle : lo ≤ hi := (List.max?_eq_some_iff.mp hmax).2 lo hlo
              rw [← hknown, mem_knownOffsets, List.zip_map', List.mem_map] at hlo
              obtain ⟨⟨row, hrow, hplace⟩, hp, ho⟩ := hlo
              obtain ⟨rfl, rfl⟩ := Prod.mk.inj hplace
              have hbelow := hplaces rows htable row (List.mem_filter.mp hrow).1 hp ho
              refine ⟨?_, ?_⟩
              · simp only [Option.getD_some]
                omega
              · simp only [Option.getD_some]
                omega

lemma placed_of_kafkaTime {ranges : List OffsetRange} {range : OffsetRange}
    (h : kafkaTimeOffsetRanges out.partitionsFor out.topic args.startTs args.endTs = .ok ranges)
    (hmem : range ∈ ranges) : range.Placed out.topic := by
  obtain ⟨p, hrange⟩ := exists_timeRange_of_mem h hmem
  cases hstart : offsetsForTimes (out.topic.log p) (epochMs args.startTs) with
  | none => simp [timeRange, hstart] at hrange
  | some startOff =>
      have hbelow := offset_of_offsetsForTimes hstart
      simp only [timeRange, hstart] at hrange
      split_ifs at hrange with hempty
      rw [← Option.some.inj hrange]
      exact ⟨by simp only; omega, by simp only; omega⟩

lemma placed_of_resolved (hplaces : KnownPlaces out) :
    ∀ range ∈ plannedRanges out args, range.Placed out.topic := by
  intro range hrange
  rcases mem_plannedRanges hrange with htable | ⟨ranges, hlookup, hmem⟩
  · exact placed_of_readOffsetRange hplaces htable
  · exact placed_of_kafkaTime hlookup hmem

end Ranges

/-! ## The two runs -/

section Runs

variable (out : Outside) (args : ReplayArgs)

/-- The dry run ends here: it has returned or raised, or waits for a record that does not come. -/
def DryRunEnds (d : ReplayState) : Prop :=
  ReplayReaches out args true d ∧ Machine.Stopped (ReplayStep out args true) d

variable {out : Outside} {args : ReplayArgs}

lemma ongoing_start {dryRun : Bool} (hplaces : KnownPlaces out)
    (hharmless : Harmless out args dryRun 0 (plannedRanges out args)) :
    Ongoing out args dryRun (announcement out args) (replayStart out args dryRun) :=
  ⟨Books.start, Grown.start, onPlan_start (placed_of_resolved hplaces), by
    rw [ahead_start, replayStart_read]
    exact hharmless⟩

/-- A dry run reads what was announced. -/
lemma DryRunEnds.read_eq (hplaces : KnownPlaces out) {d : ReplayState} (h : DryRunEnds out args d) :
    d.read = announcement out args :=
  ((ongoing_start hplaces harmless_dryRun).reaches h.1).read_of_stopped h.2

lemma exists_dryRunEnds (hplaces : KnownPlaces out) : ∃ d, DryRunEnds out args d :=
  Machine.exists_stopped (P := Ongoing out args true (announcement out args))
    (fun _ _ hs hstep => ongoing_step hs hstep) (ongoing_start hplaces harmless_dryRun)

end Runs

/-! ## The default settings -/

/-- A topic with one partition and one record in it. -/
def sampleTopic : Topic where
  partitions := [0]
  distinct := List.nodup_singleton 0
  log := fun p => if p = 0 then OffsetLog.empty.append ⟨none, some [1], 1000⟩ else OffsetLog.empty

/-- A table with a row of that record, and a broker that handles every send and puts it in
partition 0. -/
def sampleOutside : Outside where
  table := .ok [⟨2000000, .str "BTCUSDT", 0, 0⟩]
  partitionsFor := .error .attributeError
  topic := sampleTopic
  cluster := fun _ => 0
  route := fun _ => 0
  clock := fun _ => 2000
  delivered := fun _ => true

/-- From the first to the tenth second, with the default settings. -/
def sampleArgs : ReplayArgs where
  settings := {}
  startTs := 1000000
  endTs := 10000000
  symbol := none
  maxEvents := none

end Ticksense
