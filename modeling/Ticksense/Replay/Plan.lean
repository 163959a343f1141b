import Ticksense.Replay.Announcement

/-!
# A replay on its plan

A replay keeps to what was announced as long as no copy gets in the way of its consumer.  Dry runs
and live runs are treated alike; a dry run just sends nothing.

* `OnPlan` — the invariant: what has been read, followed by what is announced from here on, is what
  was announced at the start.
* `ongoing_step` — one step of a harmless replay keeps to the plan and brings it nearer to its end.
* `Ongoing.read_of_stopped` — where it stops, everything announced has been read.
-/

namespace Ticksense

/-! ## Keeping to the plan -/

/-- A range from the consumer's position on. -/
def PartitionReplay.rest (loop : PartitionReplay) : OffsetRange :=
  { loop.range with startOffset := loop.position }

@[simp] lemma rest_partition (loop : PartitionReplay) :
    loop.rest.partition = loop.range.partition := rfl

@[simp] lemma rest_startOffset (loop : PartitionReplay) :
    loop.rest.startOffset = loop.position := rfl

@[simp] lemma rest_endOffset (loop : PartitionReplay) :
    loop.rest.endOffset = loop.range.endOffset := rfl

/-- The ranges from where the replay is. -/
def ReplayState.ahead (s : ReplayState) : List OffsetRange :=
  match s.control with
  | .next => s.ranges
  | .reading loop => loop.rest :: s.ranges
  | _ => []

/-- The range neither begins past the end of its partition, nor past its own. -/
def OffsetRange.Placed (topic : Topic) (range : OffsetRange) : Prop :=
  range.startOffset ≤ (topic.log range.partition).logEnd ∧ range.startOffset ≤ range.endOffset

/-- The replay is on the way to reading `R`. -/
structure OnPlan (out : Outside) (args : ReplayArgs) (R : List SourceRecord) (s : ReplayState) :
    Prop where
  plan : s.read ++ capped args.maxEvents s.read.length (announced out.topic s.ahead) = R
  placed : ∀ range ∈ s.ahead, range.Placed out.topic

/-- How far the replay is from its end. -/
def ReplayState.distance (R : List SourceRecord) (s : ReplayState) : ℕ :=
  4 * s.ranges.length + 2 * (R.length - s.read.length) + s.pending.length +
    match s.control with
    | .next => 2
    | .reading _ => 3
    | .stopping => 1
    | .returned => 0
    | .raised _ => 0

section Machine

variable {out : Outside} {args : ReplayArgs} {dryRun : Bool} {R : List SourceRecord}
  {s t : ReplayState}

lemma Books.read_of_next (h : Books out args dryRun s) (hcontrol : s.control = .next) :
    s.stats.eventsRead = s.read.length := by
  have := h.read
  rwa [hcontrol] at this

lemma OnPlan.initial (h : OnPlan out args R s) : s.read <+: R :=
  ⟨_, h.plan⟩

lemma OnPlan.length_le (h : OnPlan out args R s) : s.read.length ≤ R.length := by
  rw [← h.plan, List.length_append]
  omega

/-- With the budget used up or nothing announced any more, the replay has read everything. -/
lemma OnPlan.read_eq (h : OnPlan out args R s)
    (hdone : budgetSpent args.maxEvents s.read.length = true ∨ announced out.topic s.ahead = []) :
    s.read = R := by
  rcases hdone with hspent | hnil
  · simpa [capped_of_spent hspent] using h.plan
  · simpa [hnil] using h.plan

lemma OnPlan.of_read_eq {R : List SourceRecord} (hread : s.read = R)
    (hdone : budgetSpent args.maxEvents s.read.length = true ∨ announced out.topic s.ahead = [])
    (hplaced : ∀ range ∈ s.ahead, range.Placed out.topic) : OnPlan out args R s := by
  refine ⟨?_, hplaced⟩
  rcases hdone with hspent | hnil
  · rw [capped_of_spent hspent, List.append_nil, hread]
  · rw [hnil, capped_nil, List.append_nil, hread]

/-- What the consumer gets next: a record from before the replay, or a copy that came back. -/
lemma Grown.fetch_cases (h : Grown out args s) {loop : PartitionReplay}
    (hplaced : loop.rest.Placed out.topic) :
    (∃ e later, (out.topic.log loop.range.partition).since loop.position = e :: later ∧
        (s.log loop.range.partition).fetch loop.position = some e) ∨
      ((out.topic.log loop.range.partition).since loop.position = [] ∧
        CopyIn out args s loop.range.partition ∧
        ∃ record, (s.log loop.range.partition).fetch loop.position =
          some ((out.topic.log loop.range.partition).logEnd, record)) ∨
      ((out.topic.log loop.range.partition).since loop.position = [] ∧
        ¬ CopyIn out args s loop.range.partition ∧
        (s.log loop.range.partition).fetch loop.position = none) := by
  obtain ⟨extra, hextends, hextra⟩ := h loop.range.partition
  have hfetch := hextends.fetch_eq hplaced.1
  rw [rest_startOffset] at hfetch
  cases hsince : (out.topic.log loop.range.partition).since loop.position with
  | cons e later =>
      rw [hsince] at hfetch
      exact Or.inl ⟨e, later, rfl, hfetch⟩
  | nil =>
      rw [hsince, List.nil_append] at hfetch
      refine Or.inr ?_
      cases hcopies : extra with
      | nil =>
          rw [hcopies] at hfetch hextra
          exact Or.inr ⟨rfl, fun hcopy => hextra.mpr hcopy rfl, hfetch⟩
      | cons c copies =>
          rw [hcopies] at hfetch hextra hextends
          have hfirst : c.1 = (out.topic.log loop.range.partition).logEnd := hextends.first c rfl
          refine Or.inl ⟨rfl, hextra.mp (by simp), c.2, ?_⟩
          rw [hfetch, ← hfirst]
          rfl

/-- The number of a send is one of the numbers given so far. -/
lemma Books.index_lt (h : Books out args dryRun s) {m : Send} (hm : m ∈ s.sent) :
    m.index < s.sent.length := by
  have hmem : m.index ∈ s.sent.map (·.index) := List.mem_map_of_mem hm
  rw [h.numbered] at hmem
  exact List.mem_range.mp hmem

lemma Books.sent_length (h : Books out args dryRun s) :
    s.sent.length = if dryRun then 0 else s.read.length := by
  have hlen := congrArg List.length h.sent
  rw [List.length_map] at hlen
  rw [hlen]
  cases dryRun <;> simp

/-- With budget left, a record inside the range is counted. -/
lemma Books.goes_on (h : Books out args dryRun s) {loop : PartitionReplay}
    (hcontrol : s.control = .reading loop) {offset : ℤ} (hlt : offset < loop.range.endOffset)
    (hbudget : budgetSpent args.maxEvents s.read.length = false) : loop.stops offset = false := by
  refine Bool.eq_false_iff.mpr fun hstops => ?_
  rcases (h.stops_iff hcontrol offset).mp hstops with hge | hspent
  · omega
  · simp [hbudget] at hspent

/-- A copy in a partition is one of the sends so far. -/
lemma Books.comesBack (h : Books out args dryRun s) {p : ℤ} (hcopy : CopyIn out args s p) :
    ComesBack out args dryRun s.read.length p := by
  obtain ⟨hback, m, hm, hroute⟩ := hcopy
  have hlt := h.index_lt (h.enqueued m (Or.inr hm))
  have hlen := h.sent_length
  cases dryRun with
  | true =>
      rw [if_pos rfl] at hlen
      omega
  | false =>
      rw [if_neg (by simp)] at hlen
      exact ⟨rfl, hback, m.index, by omega, hroute⟩

/-! ## One step -/

/-- Everything the run lemmas carry along. -/
structure Ongoing (out : Outside) (args : ReplayArgs) (dryRun : Bool) (R : List SourceRecord)
    (s : ReplayState) : Prop where
  books : Books out args dryRun s
  grown : Grown out args s
  onPlan : OnPlan out args R s
  harmless : Harmless out args dryRun s.read.length s.ahead

@[simp] lemma ahead_leave (s : ReplayState) (loop : PartitionReplay) :
    (s.leave loop).ahead = s.ranges := rfl

@[simp] lemma ranges_count (s : ReplayState) (loop : PartitionReplay) (offset : ℤ)
    (record : Record) : (s.count dryRun loop offset record).ranges = s.ranges := by
  cases dryRun <;> rfl

@[simp] lemma read_count (s : ReplayState) (loop : PartitionReplay) (offset : ℤ) (record : Record) :
    (s.count dryRun loop offset record).read =
      s.read ++ [⟨loop.range.partition, offset, record⟩] := by
  cases dryRun <;> rfl

@[simp] lemma ahead_count (s : ReplayState) (loop : PartitionReplay) (offset : ℤ)
    (record : Record) : (s.count dryRun loop offset record).ahead =
      { loop.rest with startOffset := offset + 1 } :: s.ranges := by
  cases dryRun <;> rfl

@[simp] lemma log_count (s : ReplayState) (loop : PartitionReplay) (offset : ℤ)
    (record : Record) : (s.count dryRun loop offset record).log = s.log := by
  cases dryRun <;> rfl

/-- The replay stays in its range, behind the record it has counted. -/
lemma control_count (dryRun : Bool) (s : ReplayState) (loop : PartitionReplay) (offset : ℤ)
    (record : Record) :
    ∃ loop', (s.count dryRun loop offset record).control = .reading loop' ∧
      loop'.range = loop.range ∧ loop'.maxEvents = loop.maxEvents ∧
      loop'.position = offset + 1 ∧ loop'.eventsRead = loop.eventsRead + 1 := by
  cases dryRun <;> exact ⟨_, rfl, rfl, rfl, rfl, rfl⟩

lemma pending_count (dryRun : Bool) (s : ReplayState) (loop : PartitionReplay) (offset : ℤ)
    (record : Record) :
    (s.count dryRun loop offset record).pending.length ≤ s.pending.length + 1 := by
  cases dryRun <;> simp [ReplayState.count, ReplayState.send]

/-- The broker changes neither where the replay is nor what it has read. -/
lemma handled_frame (out : Outside) (args : ReplayArgs) (s : ReplayState) (m : Send) :
    (s.handled out args m).control = s.control ∧ (s.handled out args m).ranges = s.ranges ∧
      (s.handled out args m).read = s.read ∧
      (s.handled out args m).pending = s.pending.erase m := by
  rw [ReplayState.handled]
  split_ifs <;> exact ⟨rfl, rfl, rfl, rfl⟩

lemma ahead_handled (m : Send) : (s.handled out args m).ahead = s.ahead := by
  obtain ⟨hcontrol, hranges, _, _⟩ := handled_frame out args s m
  rw [ReplayState.ahead, ReplayState.ahead, hcontrol, hranges]

lemma distance_handled (s : ReplayState) {m : Send} (hm : m ∈ s.pending) :
    (s.handled out args m).distance R < s.distance R := by
  obtain ⟨hcontrol, hranges, hread, hpending⟩ := handled_frame out args s m
  have hlen := List.length_erase_of_mem hm
  have hpos := List.length_pos_of_mem hm
  simp only [ReplayState.distance, hcontrol, hranges, hread, hpending]
  omega

lemma distance_leave (s : ReplayState) {loop : PartitionReplay}
    (hcontrol : s.control = .reading loop) : (s.leave loop).distance R < s.distance R := by
  simp only [ReplayState.distance, ReplayState.leave, hcontrol]
  omega

lemma distance_count (s : ReplayState) {loop : PartitionReplay}
    (hcontrol : s.control = .reading loop) (offset : ℤ) (record : Record)
    (hlt : s.read.length < R.length) :
    (s.count dryRun loop offset record).distance R < s.distance R := by
  have hpending := pending_count dryRun s loop offset record
  obtain ⟨loop', hloop', _⟩ := control_count dryRun s loop offset record
  simp only [ReplayState.distance, hcontrol, hloop', ranges_count, read_count, List.length_append,
    List.length_singleton]
  omega

/-- The range a replay is in is the first ahead of it. -/
lemma ahead_of_reading {loop : PartitionReplay} (hcontrol : s.control = .reading loop) :
    s.ahead = loop.rest :: s.ranges := by
  rw [ReplayState.ahead, hcontrol]

lemma ahead_of_next (hcontrol : s.control = .next) : s.ahead = s.ranges := by
  rw [ReplayState.ahead, hcontrol]

/-- The plan inside a range, with the rest of that range spelled out. -/
lemma OnPlan.reading (h : OnPlan out args R s) {loop : PartitionReplay}
    (hcontrol : s.control = .reading loop) :
    loop.rest.Placed out.topic ∧ (∀ range ∈ s.ranges, range.Placed out.topic) ∧
      s.read ++ capped args.maxEvents s.read.length
        (announced out.topic (loop.rest :: s.ranges)) = R := by
  have hplaced := h.placed
  have hplan := h.plan
  rw [ahead_of_reading hcontrol] at hplaced hplan
  exact ⟨hplaced _ List.mem_cons_self,
    fun range hrange => hplaced range (List.mem_cons_of_mem _ hrange), hplan⟩

/-- A record from before the replay is counted as announced. -/
lemma OnPlan.count (h : OnPlan out args R s) (dryRun : Bool) {loop : PartitionReplay}
    (hcontrol : s.control = .reading loop) {e : ℤ × Record} {later : List (ℤ × Record)}
    (hsince : (out.topic.log loop.range.partition).since loop.position = e :: later)
    (hlt : e.1 < loop.range.endOffset)
    (hbudget : budgetSpent args.maxEvents s.read.length = false) :
    OnPlan out args R (s.count dryRun loop e.1 e.2) ∧ s.read.length < R.length := by
  obtain ⟨_, hplaced, hplan⟩ := h.reading hcontrol
  rw [announced_of_lt loop.rest hsince hlt, capped_cons hbudget] at hplan
  refine ⟨⟨?_, ?_⟩, ?_⟩
  · simpa using hplan
  · intro range hrange
    rw [ahead_count, List.mem_cons] at hrange
    rcases hrange with rfl | hrest
    · have hmem := OffsetLog.mem_since.mp (hsince ▸ List.mem_cons_self (a := e))
      have hbelow := (out.topic.log loop.range.partition).below e hmem.1
      refine ⟨?_, ?_⟩
      · simp only [rest_partition]
        omega
      · simp only [rest_endOffset]
        omega
    · exact hplaced range hrest
  · rw [← hplan, List.length_append, List.length_cons]
    omega

/-- The same for an ongoing replay, which is harmless. -/
lemma Ongoing.reading (h : Ongoing out args dryRun R s) {loop : PartitionReplay}
    (hcontrol : s.control = .reading loop) :
    loop.rest.Placed out.topic ∧ (∀ range ∈ s.ranges, range.Placed out.topic) ∧
      s.read ++ capped args.maxEvents s.read.length
        (announced out.topic (loop.rest :: s.ranges)) = R ∧
      Harmless out args dryRun s.read.length (loop.rest :: s.ranges) := by
  obtain ⟨hhere, hrest, hplan⟩ := h.onPlan.reading hcontrol
  have hharmless := h.harmless
  rw [ahead_of_reading hcontrol] at hharmless
  exact ⟨hhere, hrest, hplan, hharmless⟩

/-- Leaving a range keeps to the plan: the budget is used up, the record lies after the range, or it
is a copy and nothing more is announced. -/
lemma Ongoing.left (h : Ongoing out args dryRun R s) {loop : PartitionReplay} {offset : ℤ}
    {record : Record} (hcontrol : s.control = .reading loop)
    (hfetch : (s.log loop.range.partition).fetch loop.position = some (offset, record))
    (hstops : loop.stops offset = true) :
    OnPlan out args R (s.leave loop) ∧ Harmless out args dryRun s.read.length s.ranges := by
  obtain ⟨hhere, hrest, hplan, hharmless⟩ := h.reading hcontrol
  by_cases hspent : budgetSpent args.maxEvents s.read.length = true
  · exact ⟨.of_read_eq (h.onPlan.read_eq (Or.inl hspent)) (Or.inl hspent) hrest,
      harmless_of_spent hspent⟩
  · have hge := ((h.books.stops_iff hcontrol offset).mp hstops).resolve_right hspent
    rcases h.grown.fetch_cases hhere with
      ⟨e, later, hsince, hnext⟩ | ⟨hsince, hcopy, copy, hnext⟩ | ⟨_, _, hnext⟩
    · rw [hfetch, Option.some.injEq] at hnext
      subst hnext
      rw [announced_of_ge loop.rest hsince hge] at hplan
      exact ⟨⟨hplan, hrest⟩, (harmless_of_ge loop.rest hsince hge).mp hharmless⟩
    · have hback := h.books.comesBack hcopy
      rcases ((harmless_of_nil hsince hhere.2).mp hharmless).resolve_left hspent hback with
        ⟨_, hnone, hlater⟩
      refine ⟨.of_read_eq (h.onPlan.read_eq (Or.inr ?_)) (Or.inr hnone) hrest, hlater⟩
      rw [ahead_of_reading hcontrol]
      exact announced_of_nil hsince hhere.2
    · rw [hfetch] at hnext
      cases hnext

/-- Counting a record keeps to the plan: a harmless replay does not count a copy. -/
lemma Ongoing.counted (h : Ongoing out args dryRun R s) {loop : PartitionReplay} {offset : ℤ}
    {record : Record} (hcontrol : s.control = .reading loop)
    (hfetch : (s.log loop.range.partition).fetch loop.position = some (offset, record))
    (hstops : loop.stops offset = false) :
    (OnPlan out args R (s.count dryRun loop offset record) ∧
      Harmless out args dryRun (s.read.length + 1)
        ({ loop.rest with startOffset := offset + 1 } :: s.ranges)) ∧
      s.read.length < R.length := by
  obtain ⟨hhere, _, _, hharmless⟩ := h.reading hcontrol
  have hgoes := mt (h.books.stops_iff hcontrol offset).mpr (by simp [hstops])
  rw [not_or, not_le, Bool.not_eq_true] at hgoes
  obtain ⟨hlt, hbudget⟩ := hgoes
  rcases h.grown.fetch_cases hhere with
    ⟨e, later, hsince, hnext⟩ | ⟨hsince, hcopy, copy, hnext⟩ | ⟨_, _, hnext⟩
  · rw [hfetch, Option.some.injEq] at hnext
    subst hnext
    obtain ⟨hplan, hmore⟩ := h.onPlan.count dryRun hcontrol hsince hlt hbudget
    exact ⟨⟨hplan, (harmless_of_lt loop.rest hsince hlt).mp hharmless⟩, hmore⟩
  · rw [hfetch, Option.some.injEq, Prod.mk.injEq] at hnext
    have hback := h.books.comesBack hcopy
    have hout : loop.range.endOffset ≤ (out.topic.log loop.range.partition).logEnd :=
      (((harmless_of_nil hsince hhere.2).mp hharmless).resolve_left (by simp [hbudget]) hback).1
    have hoffset : offset = (out.topic.log loop.range.partition).logEnd := hnext.1
    omega
  · rw [hfetch] at hnext
    cases hnext

/-- **One pass of a harmless replay** keeps to the plan. -/
lemma Ongoing.advanced (h : Ongoing out args dryRun R s) (hstep : Advanced args dryRun s t) :
    (OnPlan out args R t ∧ Harmless out args dryRun t.read.length t.ahead) ∧
      t.distance R < s.distance R := by
  cases hstep with
  | halt hcontrol hdone =>
      refine ⟨⟨.of_read_eq (h.onPlan.read_eq ?_) (Or.inr rfl) (by simp [ReplayState.ahead]),
        trivial⟩, ?_⟩
      · rw [ahead_of_next hcontrol]
        rcases hdone with hnil | hspent
        · exact Or.inr (by simp [hnil, announced])
        · exact Or.inl (h.books.read_of_next hcontrol ▸ hspent)
      · simp only [ReplayState.distance, hcontrol]
        omega
  | enter range rest hcontrol hranges hbudget =>
      have hplan := h.onPlan.plan
      have hplaced := h.onPlan.placed
      have hharmless := h.harmless
      rw [ahead_of_next hcontrol, hranges] at hplan hplaced hharmless
      refine ⟨⟨⟨hplan, hplaced⟩, hharmless⟩, ?_⟩
      simp only [ReplayState.distance, hcontrol, hranges, List.length_cons]
      omega
  | finish hcontrol hpending =>
      refine ⟨⟨.of_read_eq (h.onPlan.read_eq (Or.inr ?_)) (Or.inr rfl)
        (by simp [ReplayState.ahead]), trivial⟩, ?_⟩
      · simp [ReplayState.ahead, hcontrol, announced]
      · simp only [ReplayState.distance, hcontrol]
        omega
  | leave loop offset record hcontrol hfetch hstops =>
      exact ⟨h.left hcontrol hfetch hstops, distance_leave s hcontrol⟩
  | count loop offset record hcontrol hfetch hstops =>
      obtain ⟨⟨hplan, hharmless⟩, hmore⟩ := h.counted hcontrol hfetch hstops
      refine ⟨⟨hplan, ?_⟩, distance_count s hcontrol offset record hmore⟩
      rw [read_count, List.length_append, ahead_count]
      exact hharmless

/-- **One step of a harmless replay**, the broker's steps included. -/
lemma ongoing_step (h : Ongoing out args dryRun R s) (hstep : ReplayStep out args dryRun s t) :
    Ongoing out args dryRun R t ∧ t.distance R < s.distance R := by
  cases hkind : hstep with
  | advance hadvance =>
      have hpass := advance_eq_some_iff.mp hadvance
      obtain ⟨⟨honPlan, hharmless⟩, hlt⟩ := h.advanced hpass
      exact ⟨⟨h.books.step hstep, h.grown.step hstep, honPlan, hharmless⟩, hlt⟩
  | deliver m hdeliver =>
      obtain ⟨hm, _, rfl⟩ := deliver_eq_some_iff.mp hdeliver
      have hread := (handled_frame out args s m).2.2.1
      have hahead : (s.handled out args m).ahead = s.ahead := ahead_handled m
      refine ⟨⟨h.books.step hstep, h.grown.step hstep, ⟨?_, ?_⟩, ?_⟩, distance_handled s hm⟩
      · rw [hread, hahead]
        exact h.onPlan.plan
      · rw [hahead]
        exact h.onPlan.placed
      · rw [hread, hahead]
        exact h.harmless

/-! ## Whole runs -/

lemma ahead_from (source : String) (ranges : List OffsetRange) :
    (replayFrom out args dryRun source ranges).ahead = ranges := by
  simp only [ReplayState.ahead, replayFrom]
  split_ifs with hnone
  · exact hnone.symm
  · rfl

lemma ahead_start : (replayStart out args dryRun).ahead = plannedRanges out args := by
  rcases replayStart_cases out args dryRun with ⟨e, heq, hnone⟩ | ⟨source, heq⟩
  · rw [heq, hnone]
    rfl
  · rw [heq, ahead_from]

/-- What a replay announces. -/
def announcement (out : Outside) (args : ReplayArgs) : List SourceRecord :=
  capped args.maxEvents 0 (announced out.topic (plannedRanges out args))

lemma onPlan_start (hplaced : ∀ range ∈ plannedRanges out args, range.Placed out.topic) :
    OnPlan out args (announcement out args) (replayStart out args dryRun) := by
  refine ⟨?_, ?_⟩
  · rw [ahead_start, replayStart_read]
    rfl
  · rw [ahead_start]
    exact hplaced

/-- Of the pending sends of a kind, one was sent first. -/
lemma exists_first {pending : List Send} {P : Send → Prop} (h : ∃ m ∈ pending, P m) :
    ∃ m ∈ pending, P m ∧ ∀ m' ∈ pending, m'.index < m.index → ¬ P m' := by
  obtain ⟨m, ⟨hm, hP⟩, hmin⟩ := (measure Send.index).wf.has_min {m | m ∈ pending ∧ P m} h
  exact ⟨m, hm, hP, fun m' hm' hlt hP' => hmin m' ⟨hm', hP'⟩ hlt⟩

/-- A replay without a further step has returned or raised, or waits for a record. -/
lemma stopped_cases (hstopped : Machine.Stopped (ReplayStep out args dryRun) s) :
    (s.control = .returned ∨ ∃ e, s.control = .raised e) ∨ ∃ loop, s.control = .reading loop ∧
      (s.log loop.range.partition).fetch loop.position = none := by
  have hpass : ∀ t, ¬ Advanced args dryRun s t := by
    intro t ht
    exact hstopped t (.advance (advance_eq_some_iff.mpr ht))
  cases hcontrol : s.control with
  | next =>
      exfalso
      cases hranges : s.ranges with
      | nil => exact hpass _ (.halt hcontrol (Or.inl hranges))
      | cons range rest =>
          cases hbudget : budgetSpent args.maxEvents s.stats.eventsRead with
          | true => exact hpass _ (.halt hcontrol (Or.inr hbudget))
          | false => exact hpass _ (.enter range rest hcontrol hranges hbudget)
  | reading loop =>
      refine Or.inr ⟨loop, rfl, ?_⟩
      cases hfetch : (s.log loop.range.partition).fetch loop.position with
      | none => rfl
      | some e =>
          exfalso
          cases hstops : loop.stops e.1 with
          | true => exact hpass _ (.leave loop e.1 e.2 hcontrol hfetch hstops)
          | false => exact hpass _ (.count loop e.1 e.2 hcontrol hfetch hstops)
  | stopping =>
      exfalso
      by_cases hpending : s.pending = []
      · exact hpass _ (.finish hcontrol hpending)
      · obtain ⟨m, hm⟩ := List.exists_mem_of_ne_nil _ hpending
        obtain ⟨m, hm, _, hfirst⟩ := exists_first (P := fun _ => True) ⟨m, hm, trivial⟩
        refine hstopped _ (.deliver m (deliver_eq_some_iff.mpr ⟨hm, ?_, rfl⟩))
        intro m' hm' hlt
        exact absurd trivial (hfirst m' hm' hlt)
  | returned => exact Or.inl (Or.inl rfl)
  | raised e => exact Or.inl (Or.inr ⟨e, rfl⟩)

/-- A harmless replay that has stopped has read what was announced. -/
lemma Ongoing.read_of_stopped (h : Ongoing out args dryRun R s)
    (hstopped : Machine.Stopped (ReplayStep out args dryRun) s) : s.read = R := by
  refine h.onPlan.read_eq (Or.inr ?_)
  rcases stopped_cases hstopped with (hreturned | ⟨e, hraised⟩) | ⟨loop, hcontrol, hwaits⟩
  · simp [ReplayState.ahead, hreturned, announced]
  · simp [ReplayState.ahead, hraised, announced]
  · obtain ⟨hhere, _⟩ := h.reading hcontrol
    rw [ahead_of_reading hcontrol]
    rcases h.grown.fetch_cases hhere with ⟨e, later, _, hnext⟩ | ⟨_, _, copy, hnext⟩ | ⟨hsince, _⟩
    · rw [hwaits] at hnext
      cases hnext
    · rw [hwaits] at hnext
      cases hnext
    · exact announced_of_nil hsince hhere.2

lemma Ongoing.reaches (h : Ongoing out args dryRun R s)
    (hreach : Machine.Reaches (ReplayStep out args dryRun) s t) : Ongoing out args dryRun R t :=
  Machine.invariant (P := Ongoing out args dryRun R) (fun _ _ hs hstep => (ongoing_step hs hstep).1)
    h hreach

end Machine

end Ticksense
