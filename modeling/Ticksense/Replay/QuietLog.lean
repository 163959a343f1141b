import Ticksense.Replay.Budget
import Ticksense.Replay.LiveRun

/-!
# A replay of a quiet log

`_replay_partition` tests both its stop conditions on a record that it has already been handed.  On
a log that receives no further records there need not be such a record, and it waits for ever.

* `Called` — `_replay_partition` has just been called, on any range and with any `max_events`.
* `HasStop` — the log has a record to stop at.
* `Inside` — the invariant of the call: what has been read and what lies ahead is what lay ahead at
  the start.
* `replay_partition_ends_iff` — the call returns, in every run, if and only if there is a record to
  stop at.  `iceberg_range_never_ends` is a range of the table without one.
-/

namespace Ticksense

section Call

variable (out : Outside) (args : ReplayArgs) (dryRun : Bool) (log : OffsetLog Record)
  (range : OffsetRange) (maxEvents : Option ℤ)

/-! ## The call -/

/-- The consumer is at the start of the range, and a dry run has sent nothing. -/
structure Called (s : ReplayState) : Prop where
  control : s.control = .reading ⟨range, maxEvents, range.startOffset, 0, 0⟩
  idle : dryRun = true → s.pending = []

/-- A step of the replay or of the broker while `_replay_partition` runs. -/
def PartitionStep (s t : ReplayState) : Prop :=
  (∃ loop, s.control = .reading loop) ∧ ReplayStep out args dryRun s t

/-- The records of the range that lie before its reader. -/
def OffsetRange.unreadIn : List (ℤ × Record) :=
  (log.unread range.startOffset).filter (·.1 < range.endOffset)

/-- All records of the range have been read, or `max_events` of them, and the consumer is asked for
another one that is not there. -/
def Starved (s : ReplayState) : Prop :=
  ∃ loop, s.control = .reading loop ∧
    (s.log loop.range.partition).fetch loop.position = none ∧
    (loop.eventsRead = (loop.range.unreadIn (s.log loop.range.partition)).length ∨
      ∃ m, loop.maxEvents = some m ∧ m ≤ loop.eventsRead)

/-- `_replay_partition` returns, whatever the broker does, and never starves. -/
structure Ends (s : ReplayState) : Prop where
  returns : ∀ t, Machine.Reaches (PartitionStep out args dryRun) s t →
    Machine.Stopped (PartitionStep out args dryRun) t → t.control = .next
  finite : ∀ run : ℕ → ReplayState, run 0 = s →
    ¬ ∀ n, PartitionStep out args dryRun (run n) (run (n + 1))
  fed : ∀ t, Machine.Reaches (PartitionStep out args dryRun) s t → ¬ Starved t

/-- **There is a record to stop at**: one at or after the end of the range, or one of the range that
`max_events` leaves unread. -/
def HasStop : Prop :=
  (∃ e ∈ log.unread range.startOffset, range.endOffset ≤ e.1) ∨
    ∃ m, maxEvents = some m ∧ max 0 m < ((range.unreadIn log).length : ℤ)

/-! ## Inside the call -/

/-- The consumer has read the records `before`, all of the range and within the budget. -/
structure Consumed (loop : PartitionReplay) (before : List (ℤ × Record)) : Prop where
  sameRange : loop.range = range
  sameMax : loop.maxEvents = maxEvents
  split : log.unread range.startOffset = before ++ log.unread loop.position
  counted : before.length = loop.eventsRead
  inRange : ∀ e ∈ before, e.1 < range.endOffset
  budget : ∀ m ∈ maxEvents, (before.length : ℤ) ≤ max 0 m

/-- The call is under way, or has returned at a record to stop at. -/
structure Inside (s : ReplayState) : Prop where
  quiet : s.log range.partition = log
  idle : dryRun = true → s.pending = []
  place : (∃ loop before, s.control = .reading loop ∧ Consumed log range maxEvents loop before) ∨
    s.control = .next ∧ HasStop log range maxEvents

/-- How many steps are left at most. -/
def ReplayState.left (s : ReplayState) : ℕ :=
  s.pending.length +
    match s.control with
    | .reading loop => 2 * (log.unread loop.position).length + 1
    | _ => 0

end Call

section Steps

variable {out : Outside} {args : ReplayArgs} {dryRun : Bool} {log : OffsetLog Record}
  {range : OffsetRange} {maxEvents : Option ℤ} {s t : ReplayState} {loop : PartitionReplay}
  {before rest : List (ℤ × Record)} {e : ℤ × Record}

/-- The record a call stops at is one to stop at. -/
lemma Consumed.hasStop (h : Consumed log range maxEvents loop before)
    (hunread : log.unread loop.position = e :: rest) (hstops : loop.stops e.1 = true) :
    HasStop log range maxEvents := by
  have hsplit := h.split
  rw [hunread] at hsplit
  rw [loop.stops_iff, h.sameRange, h.sameMax, ← h.counted] at hstops
  rcases hstops with hge | ⟨m, hm, hspent⟩
  · exact Or.inl ⟨e, by simp [hsplit], hge⟩
  · by_cases hge : range.endOffset ≤ e.1
    · exact Or.inl ⟨e, by simp [hsplit], hge⟩
    · refine Or.inr ⟨m, hm, ?_⟩
      have hbefore : before.filter (·.1 < range.endOffset) = before := by
        rw [List.filter_eq_self]
        intro x hx
        simpa using h.inRange x hx
      rw [OffsetRange.unreadIn, hsplit, List.filter_append, hbefore,
        List.filter_cons_of_pos (by simpa using hge), List.length_append, List.length_cons]
      push_cast
      omega

/-- Another record read. -/
lemma Consumed.count (h : Consumed log range maxEvents loop before)
    (hunread : log.unread loop.position = e :: rest) (hstops : loop.stops e.1 = false)
    {loop' : PartitionReplay} (hrange : loop'.range = loop.range)
    (hmax : loop'.maxEvents = loop.maxEvents) (hposition : loop'.position = e.1 + 1)
    (hread : loop'.eventsRead = loop.eventsRead + 1) :
    Consumed log range maxEvents loop' (before ++ [e]) := by
  have hgoes := mt (loop.stops_iff e.1).mpr (by simp [hstops])
  rw [h.sameRange, h.sameMax, ← h.counted, not_or, not_le, not_exists] at hgoes
  refine ⟨hrange.trans h.sameRange, hmax.trans h.sameMax, ?_, ?_, ?_, ?_⟩
  · rw [hposition, OffsetLog.unread_succ hunread, List.append_assoc, List.singleton_append,
      ← hunread, h.split]
  · rw [List.length_append, List.length_singleton, h.counted, hread]
  · intro x hx
    rcases List.mem_append.mp hx with hx | hx
    · exact h.inRange x hx
    · rw [List.mem_singleton.mp hx]
      exact hgoes.1
  · intro m hm
    have hleft := hgoes.2 m
    rw [not_and, not_le] at hleft
    have hlt := hleft hm
    rw [List.length_append, List.length_singleton]
    push_cast
    omega

/-- Where nothing lies ahead, there is no record to stop at. -/
lemma Consumed.not_hasStop (h : Consumed log range maxEvents loop before)
    (hunread : log.unread loop.position = []) : ¬ HasStop log range maxEvents := by
  have hsplit := h.split
  rw [hunread, List.append_nil] at hsplit
  rintro (⟨e, he, hge⟩ | ⟨m, hm, hlt⟩)
  · rw [hsplit] at he
    have := h.inRange e he
    omega
  · have hbudget := h.budget m hm
    have hle : (range.unreadIn log).length ≤ before.length := by
      rw [OffsetRange.unreadIn, hsplit]
      exact List.length_filter_le _ _
    omega

/-- Sends that do not come back leave the logs as they are. -/
lemma log_handled (hback : loopsBack out args = false) (m : Send) :
    (s.handled out args m).log = s.log := by
  rw [ReplayState.handled]
  split_ifs with _ hloops
  · simp [hback] at hloops
  · rfl
  · rfl

section Inside

variable (h : Inside dryRun log range maxEvents s) (hcontrol : s.control = .reading loop)
  (hconsumed : Consumed log range maxEvents loop before)
include h hcontrol hconsumed

/-- The call returns at a record to stop at. -/
lemma Inside.leave (hunread : log.unread loop.position = e :: rest)
    (hstops : loop.stops e.1 = true) :
    Inside dryRun log range maxEvents (s.leave loop) ∧ (s.leave loop).left log < s.left log := by
  refine ⟨⟨h.quiet, h.idle, Or.inr ⟨rfl, hconsumed.hasStop hunread hstops⟩⟩, ?_⟩
  simp only [ReplayState.left, ReplayState.leave, hcontrol]
  omega

/-- The call counts a record. -/
lemma Inside.count (hunread : log.unread loop.position = e :: rest)
    (hstops : loop.stops e.1 = false) :
    Inside dryRun log range maxEvents (s.count dryRun loop e.1 e.2) ∧
      (s.count dryRun loop e.1 e.2).left log < s.left log := by
  have hpending := pending_count dryRun s loop e.1 e.2
  obtain ⟨loop', hcontrol', hrange, hmax, hposition, hread⟩ :=
    control_count dryRun s loop e.1 e.2
  refine ⟨⟨?_, ?_, Or.inl ⟨loop', _, hcontrol',
    hconsumed.count hunread hstops hrange hmax hposition hread⟩⟩, ?_⟩
  · rw [log_count, h.quiet]
  · rintro rfl
    exact h.idle rfl
  · simp only [ReplayState.left, hcontrol, hcontrol', hposition, hunread,
      OffsetLog.unread_succ hunread, List.length_cons]
    omega

/-- The broker handles a send, which a dry run does not have. -/
lemma Inside.handled (hquiet : Quiet out args dryRun) {m : Send} (hm : m ∈ s.pending) :
    Inside dryRun log range maxEvents (s.handled out args m) ∧
      (s.handled out args m).left log < s.left log := by
  obtain ⟨hcontrol', _, _, hpending⟩ := handled_frame out args s m
  have hlive : dryRun ≠ true := by
    intro hdry
    rw [h.idle hdry] at hm
    cases hm
  refine ⟨⟨?_, fun hdry => absurd hdry hlive, ?_⟩, ?_⟩
  · rw [log_handled (hquiet.resolve_left hlive), h.quiet]
  · exact Or.inl ⟨loop, before, hcontrol'.trans hcontrol, hconsumed⟩
  · have hlength := List.length_erase_of_mem hm
    have hpos := List.length_pos_of_mem hm
    simp only [ReplayState.left, hcontrol', hpending]
    omega

end Inside

/-- **One step inside the call.** -/
lemma Inside.step (hquiet : Quiet out args dryRun) (h : Inside dryRun log range maxEvents s)
    (hstep : PartitionStep out args dryRun s t) :
    Inside dryRun log range maxEvents t ∧ t.left log < s.left log := by
  obtain ⟨⟨loop, hcontrol⟩, hstep⟩ := hstep
  have hplace := h.place
  simp only [hcontrol, reduceCtorEq, false_and, or_false, Control.reading.injEq] at hplace
  obtain ⟨_, before, rfl, hconsumed⟩ := hplace
  cases hstep with
  | advance hadvance =>
      cases advance_eq_some_iff.mp hadvance with
      | halt hnext => simp [hcontrol] at hnext
      | enter _ _ hnext => simp [hcontrol] at hnext
      | finish hnext => simp [hcontrol] at hnext
      | leave loop' offset record hcontrol' hfetch hstops =>
          rw [hcontrol, Control.reading.injEq] at hcontrol'
          subst hcontrol'
          obtain ⟨rest, hunread⟩ := unread_of_fetch hfetch
          rw [hconsumed.sameRange, h.quiet] at hunread
          exact h.leave hcontrol hconsumed hunread hstops
      | count loop' offset record hcontrol' hfetch hstops =>
          rw [hcontrol, Control.reading.injEq] at hcontrol'
          subst hcontrol'
          obtain ⟨rest, hunread⟩ := unread_of_fetch hfetch
          rw [hconsumed.sameRange, h.quiet] at hunread
          exact h.count hcontrol hconsumed hunread hstops
  | deliver m hdeliver =>
      obtain ⟨hm, _, rfl⟩ := deliver_eq_some_iff.mp hdeliver
      exact h.handled hcontrol hconsumed hquiet hm

/-- `run_replay` calls `_replay_partition` so, whatever it has done before. -/
lemma Called.of_enter (hbooks : Books out args dryRun s) (hadvance : s.advance args dryRun = some t)
    (hcontrol : s.control = .next) (hloop : t.control = .reading loop) :
    Called dryRun loop.range loop.maxEvents t := by
  have hidle : dryRun = true → s.pending = [] := by
    rintro rfl
    have hlength := hbooks.sent_length
    rw [if_pos rfl] at hlength
    have hsent := List.eq_nil_of_length_eq_zero hlength
    refine List.eq_nil_iff_forall_not_mem.mpr fun m hm => ?_
    have := hbooks.enqueued m (Or.inl hm)
    rw [hsent] at this
    cases this
  cases advance_eq_some_iff.mp hadvance with
  | halt _ _ => cases hloop
  | enter range rest _ _ _ =>
      obtain rfl := Control.reading.inj hloop
      exact ⟨rfl, hidle⟩
  | leave loop' _ _ hreading => simp [hcontrol] at hreading
  | count loop' _ _ hreading => simp [hcontrol] at hreading
  | finish hstopping => simp [hcontrol] at hstopping

lemma Called.inside (h : Called dryRun range maxEvents s) :
    Inside dryRun (s.log range.partition) range maxEvents s := by
  refine ⟨rfl, h.idle, Or.inl ⟨_, [], h.control, rfl, rfl, rfl, rfl, by simp, ?_⟩⟩
  intro m _
  exact le_max_left 0 m

/-- With a record to stop at, the consumer is never kept waiting. -/
lemma Inside.fetch_ne_none (h : Inside dryRun log range maxEvents s)
    (hstop : HasStop log range maxEvents) (hcontrol : s.control = .reading loop) :
    (s.log loop.range.partition).fetch loop.position ≠ none := by
  have hplace := h.place
  simp only [hcontrol, reduceCtorEq, false_and, or_false, Control.reading.injEq] at hplace
  obtain ⟨_, before, rfl, hconsumed⟩ := hplace
  intro hnone
  rw [OffsetLog.fetch_eq_head?, List.head?_eq_none_iff, hconsumed.sameRange, h.quiet] at hnone
  exact hconsumed.not_hasStop hnone hstop

/-- A call that is handed another record goes on. -/
lemma not_stopped_of_fetch (hcontrol : s.control = .reading loop)
    (hfetch : (s.log loop.range.partition).fetch loop.position ≠ none) :
    ¬ Machine.Stopped (PartitionStep out args dryRun) s := by
  intro hstopped
  obtain ⟨e, he⟩ := Option.ne_none_iff_exists'.mp hfetch
  have hpass : ∃ t, Advanced args dryRun s t := by
    cases hstops : loop.stops e.1 with
    | true => exact ⟨_, .leave loop e.1 e.2 hcontrol he hstops⟩
    | false => exact ⟨_, .count loop e.1 e.2 hcontrol he hstops⟩
  obtain ⟨t, hpass⟩ := hpass
  exact hstopped t ⟨⟨loop, hcontrol⟩, .advance (advance_eq_some_iff.mpr hpass)⟩

/-! ## Whole calls -/

section Runs

variable (hquiet : Quiet out args dryRun) (hcalled : Called dryRun range maxEvents s)
include hquiet hcalled

lemma Called.reaches (hreach : Machine.Reaches (PartitionStep out args dryRun) s t) :
    Inside dryRun (s.log range.partition) range maxEvents t :=
  Machine.invariant (P := Inside dryRun (s.log range.partition) range maxEvents)
    (fun _ _ hinside hstep => (hinside.step hquiet hstep).1) hcalled.inside hreach

/-- A call that returns has a record to stop at. -/
lemma Called.hasStop_of_ends (hends : Ends out args dryRun s) :
    HasStop (s.log range.partition) range maxEvents := by
  obtain ⟨t, hreach, hstopped⟩ : ∃ t, Machine.Reaches (PartitionStep out args dryRun) s t ∧
      Machine.Stopped (PartitionStep out args dryRun) t :=
    Machine.exists_stopped (fun _ _ hinside hstep => Inside.step hquiet hinside hstep)
      hcalled.inside
  have hnext := hends.returns t hreach hstopped
  have hplace := (hcalled.reaches hquiet hreach).place
  simp only [hnext, reduceCtorEq, false_and, exists_false, true_and, false_or] at hplace
  exact hplace

/-- With a record to stop at, a call returns. -/
lemma Called.ends_of_hasStop (hstop : HasStop (s.log range.partition) range maxEvents) :
    Ends out args dryRun s := by
  refine ⟨?_, ?_, ?_⟩
  · intro t hreach hstopped
    have hinside := hcalled.reaches hquiet hreach
    rcases hinside.place with ⟨loop, before, hcontrol, _⟩ | ⟨hnext, _⟩
    · have hfetch := hinside.fetch_ne_none hstop hcontrol
      exact absurd hstopped (not_stopped_of_fetch hcontrol hfetch)
    · exact hnext
  · rintro run rfl
    exact Machine.not_forever (fun _ _ hinside hstep => Inside.step hquiet hinside hstep)
      hcalled.inside
  · rintro t hreach ⟨loop, hcontrol, hnone, _⟩
    exact (hcalled.reaches hquiet hreach).fetch_ne_none hstop hcontrol hnone

end Runs

end Steps

/-- **When a replay of a quiet log ends.**  On a log that receives no further records, a call of
`_replay_partition` returns in every run, without waiting for a record that is not there, if and
only if the log has a record at or after the end of the range or `max_events` leaves a record of the
range unread. -/
theorem replay_partition_ends_iff (out : Outside) (args : ReplayArgs) (dryRun : Bool)
    (range : OffsetRange) (maxEvents : Option ℤ) (s : ReplayState)
    (hquiet : Quiet out args dryRun) (hcalled : Called dryRun range maxEvents s) :
    Ends out args dryRun s ↔ HasStop (s.log range.partition) range maxEvents := by
  constructor
  · exact hcalled.hasStop_of_ends hquiet
  · exact hcalled.ends_of_hasStop hquiet

/-- A call on the first range, in a replay of it alone. -/
def calledFor (out : Outside) (args : ReplayArgs) (dryRun : Bool) (range : OffsetRange) :
    ReplayState :=
  { replayFrom out args dryRun "iceberg" [] with
    control := .reading ⟨range, args.maxEvents, range.startOffset, 0, 0⟩ }

/-- One record of two, sent to a topic of its own: the other one ends the call. -/
theorem replay_partition_ends_iff_sample :
    Ends evenOutside twoEvents false (calledFor evenOutside twoEvents false ⟨0, 0, 1⟩) := by
  refine (replay_partition_ends_iff evenOutside twoEvents false ⟨0, 0, 1⟩ (some 2) _ (Or.inr rfl)
    ⟨rfl, fun h => by cases h⟩).mpr (Or.inl ⟨(1, ⟨none, none, 2000⟩), ?_, ?_⟩)
  · decide
  · decide

/-- The table names the last record of its partition. -/
def lastRecordOutside : Outside :=
  { evenOutside with table := .ok [⟨2000000, .str "BTCUSDT", 0, 1⟩] }

/-- **A range of the table that never ends.**  It reaches up to the last record of its partition, so
the consumer is asked for one more; and no `max_events` is given. -/
theorem iceberg_range_never_ends :
    ¬ ∀ (out : Outside) (args : ReplayArgs) (dryRun : Bool) (range : OffsetRange)
      (maxEvents : Option ℤ) (s : ReplayState), KnownPlaces out →
      (range ∈ readOffsetRange out.table args.symbol args.startTs args.endTs ∨
        ∃ ranges, kafkaTimeOffsetRanges out.partitionsFor out.topic args.startTs args.endTs
          = .ok ranges ∧ range ∈ ranges) →
      Quiet out args dryRun → s.log = out.topic.log → Called dryRun range maxEvents s →
      Ends out args dryRun s := by
  intro h
  have hplaces : KnownPlaces lastRecordOutside := by
    intro rows hrows row hrow _ _
    rw [← Except.ok.inj hrows, List.mem_singleton] at hrow
    rw [hrow]
    decide
  have hcalled : Called true ⟨0, 1, 2⟩ none
      (calledFor lastRecordOutside sampleArgs true ⟨0, 1, 2⟩) := ⟨rfl, fun _ => rfl⟩
  have hends := h lastRecordOutside sampleArgs true ⟨0, 1, 2⟩ none
    (calledFor lastRecordOutside sampleArgs true ⟨0, 1, 2⟩) hplaces (Or.inl (by decide +kernel))
    (Or.inl rfl) rfl hcalled
  rcases hcalled.hasStop_of_ends (Or.inl rfl) hends with ⟨e, he, hge⟩ | ⟨m, hm, _⟩
  · have hbelow : ∀ e ∈ (lastRecordOutside.topic.log 0).unread 1, e.1 < 2 := by decide
    have := hbelow e he
    simp only at hge
    omega
  · cases hm

end Ticksense
