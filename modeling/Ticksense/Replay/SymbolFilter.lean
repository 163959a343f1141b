import Ticksense.Replay.Copies
import Ticksense.Replay.LiveRun

/-!
# The symbol filter

`_replay_partition` takes a `symbol_filter` and never looks at it.  The symbol selects rows of the
table, but their ranges contain the records in between, and the time lookup takes no symbol.

* `OnlyWanted` — the records that the replay can reach are wanted ones.
* `onlyWanted_of_lt`, `onlyWanted_of_ge`, `onlyWanted_of_nil` — how this changes with one pass of
  the consumer loop.
* `Filtered`, `Leaking` — the invariant of a replay that reads wanted records only, and the way of
  any other to a record that is not wanted.
* `symbol_filter_iff` — a replay with a symbol keeps to it if and only if the records it can reach
  do.  `other_symbol_is_replayed` is one that does not.
-/

namespace Ticksense

/-- The key and the value of a record. -/
abbrev KeyValue := Option (List UInt8) × Option (List UInt8)

/-! ## What the replay can reach -/

/-- How many copies the range has room for, behind the first that its reader can get. -/
def OffsetRange.room (topic : Topic) (range : OffsetRange) : ℕ :=
  (range.endOffset - range.base topic).toNat

section Reach

variable (out : Outside) (args : ReplayArgs) (dryRun : Bool) (wanted : KeyValue → Prop)

/-- Copies carry the reader of an open-ended range past its end, when `n` records have been read
before: each copy that fits in, and one more to stop at, is sent before it is needed. -/
def Passes (n : ℕ) (range : OffsetRange) : Prop :=
  ∀ i ≤ range.room out.topic,
    range.skipped out.topic + i < copiesTo out args dryRun range.partition (n + i)

/-- **All records that a replay of the ranges can reach are wanted**, when `n` records have been
read before: those of the first range that the budget allows, and, if its reader can get past the
end of the range, those of the others. -/
def OnlyWanted (n : ℕ) : List OffsetRange → Prop
  | [] => True
  | range :: rest =>
      (∀ r ∈ capped args.maxEvents n (range.records out.topic), wanted r.payload) ∧
        if OpenEnded out.topic range then
          Passes out args dryRun (n + (range.records out.topic).length) range →
            OnlyWanted (n + (range.records out.topic).length + range.room out.topic) rest
        else OnlyWanted (n + (range.records out.topic).length) rest

end Reach

section Ranges

variable {out : Outside} {args : ReplayArgs} {dryRun : Bool} {wanted : KeyValue → Prop}
  {range : OffsetRange} {rest : List OffsetRange} {n : ℕ} {e : ℤ × Record}
  {later : List (ℤ × Record)}

lemma onlyWanted_of_spent {ranges : List OffsetRange}
    (h : budgetSpent args.maxEvents n = true) : OnlyWanted out args dryRun wanted n ranges := by
  induction ranges generalizing n with
  | nil => trivial
  | cons range rest ih =>
      refine ⟨by simp [capped_of_spent h], ?_⟩
      split_ifs
      · intro _
        exact ih (budgetSpent_mono h (by omega))
      · exact ih (budgetSpent_mono h (by omega))

/-- Where old records lie ahead, the copies are still far. -/
lemma base_of_cons (h : (out.topic.log range.partition).since range.startOffset = e :: later) :
    range.base out.topic = (out.topic.log range.partition).logEnd :=
  max_eq_right (OffsetLog.le_logEnd_of_since h)

lemma base_succ_of_cons
    (h : (out.topic.log range.partition).since range.startOffset = e :: later) :
    ({ range with startOffset := e.1 + 1 } : OffsetRange).base out.topic =
      (out.topic.log range.partition).logEnd := by
  have hmem := OffsetLog.mem_since.mp (h ▸ List.mem_cons_self (a := e))
  have hbelow := (out.topic.log range.partition).below e hmem.1
  rw [OffsetRange.base]
  exact max_eq_right (by simpa using Int.add_one_le_of_lt hbelow)

lemma onlyWanted_of_lt (range : OffsetRange)
    (h : (out.topic.log range.partition).since range.startOffset = e :: later)
    (hlt : e.1 < range.endOffset) (hbudget : budgetSpent args.maxEvents n = false) :
    OnlyWanted out args dryRun wanted n (range :: rest) ↔
      wanted (e.2.key, e.2.value) ∧ OnlyWanted out args dryRun wanted (n + 1)
        ({ range with startOffset := e.1 + 1 } :: rest) := by
  have hbase := base_of_cons h
  have hbase' := base_succ_of_cons h
  have hlen := length_records_of_lt (n := n) range h hlt
  have hroom : range.room out.topic =
      ({ range with startOffset := e.1 + 1 } : OffsetRange).room out.topic := by
    rw [OffsetRange.room, OffsetRange.room, hbase, hbase']
  have hskipped : range.skipped out.topic =
      ({ range with startOffset := e.1 + 1 } : OffsetRange).skipped out.topic := by
    rw [OffsetRange.skipped, OffsetRange.skipped, hbase, hbase']
  simp only [OnlyWanted, Passes, hlen, hroom, hskipped]
  rw [records_of_lt range h hlt, capped_cons hbudget, List.forall_mem_cons, and_assoc]
  rfl

lemma onlyWanted_of_ge (range : OffsetRange)
    (h : (out.topic.log range.partition).since range.startOffset = e :: later)
    (hle : range.endOffset ≤ e.1) :
    OnlyWanted out args dryRun wanted n (range :: rest) ↔
      OnlyWanted out args dryRun wanted n rest := by
  simp only [OnlyWanted, records_of_ge range h hle, List.length_nil, Nat.add_zero, capped_nil,
    List.not_mem_nil, false_imp_iff, implies_true, true_and, if_neg (not_openEnded_of_ge range h hle)]

lemma onlyWanted_of_nil (h : (out.topic.log range.partition).since range.startOffset = [])
    (hle : range.startOffset ≤ range.endOffset) :
    OnlyWanted out args dryRun wanted n (range :: rest) ↔
      (Passes out args dryRun n range →
        OnlyWanted out args dryRun wanted (n + range.room out.topic) rest) := by
  simp only [OnlyWanted, records_of_nil h, List.length_nil, Nat.add_zero, capped_nil,
    List.not_mem_nil, false_imp_iff, implies_true, true_and, if_pos (openEnded_of_nil h hle)]

/-! Behind the old records a copy lies in the range, after it, or has not come back yet. -/

/-- The range from behind its next copy on. -/
def OffsetRange.behindCopy (topic : Topic) (range : OffsetRange) : OffsetRange :=
  { range with startOffset := range.base topic + 1 }

lemma since_behindCopy :
    (out.topic.log range.partition).since (range.behindCopy out.topic).startOffset = [] := by
  rw [List.eq_nil_iff_forall_not_mem]
  intro e he
  obtain ⟨hmem, hle⟩ := OffsetLog.mem_since.mp he
  have hbelow := (out.topic.log range.partition).below e hmem
  have hbase := le_max_right range.startOffset (out.topic.log range.partition).logEnd
  simp only [OffsetRange.behindCopy, OffsetRange.base] at hle
  omega

lemma base_behindCopy (range : OffsetRange) (topic : Topic) :
    (range.behindCopy topic).base topic = range.base topic + 1 := by
  simp only [OffsetRange.behindCopy, OffsetRange.base]
  omega

lemma skipped_behindCopy (range : OffsetRange) (topic : Topic) :
    (range.behindCopy topic).skipped topic = range.skipped topic + 1 := by
  have hbase := le_max_right range.startOffset (topic.log range.partition).logEnd
  rw [OffsetRange.skipped, base_behindCopy, OffsetRange.skipped, OffsetRange.base]
  simp only [OffsetRange.behindCopy]
  omega

lemma room_behindCopy {topic : Topic} (hlt : range.base topic < range.endOffset) :
    range.room topic = (range.behindCopy topic).room topic + 1 := by
  rw [OffsetRange.room, OffsetRange.room, base_behindCopy]
  simp only [OffsetRange.behindCopy]
  omega

lemma passes_of_lt (hlt : range.base out.topic < range.endOffset) :
    Passes out args dryRun n range ↔
      range.skipped out.topic < copiesTo out args dryRun range.partition n ∧
        Passes out args dryRun (n + 1) (range.behindCopy out.topic) := by
  simp only [Passes, skipped_behindCopy, room_behindCopy hlt]
  constructor
  · intro h
    refine ⟨h 0 (by omega), fun i hi => ?_⟩
    have := h (i + 1) (by omega)
    rwa [show range.skipped out.topic + (i + 1) = range.skipped out.topic + 1 + i by omega,
      show n + (i + 1) = n + 1 + i by omega] at this
  · rintro ⟨hzero, hlater⟩ i hi
    cases i with
    | zero => exact hzero
    | succ i =>
        have := hlater i (by omega)
        rwa [show range.skipped out.topic + (i + 1) = range.skipped out.topic + 1 + i by omega,
          show n + (i + 1) = n + 1 + i by omega]

lemma room_of_le {topic : Topic} (hle : range.endOffset ≤ range.base topic) :
    range.room topic = 0 := by
  rw [OffsetRange.room]
  omega

lemma passes_of_le (hle : range.endOffset ≤ range.base out.topic) :
    Passes out args dryRun n range ↔
      range.skipped out.topic < copiesTo out args dryRun range.partition n := by
  simp [Passes, room_of_le hle]

/-- A copy in the range. -/
lemma onlyWanted_of_copy_lt (h : (out.topic.log range.partition).since range.startOffset = [])
    (hle : range.startOffset ≤ range.endOffset) (hlt : range.base out.topic < range.endOffset)
    (hcopy : range.skipped out.topic < copiesTo out args dryRun range.partition n) :
    OnlyWanted out args dryRun wanted n (range :: rest) ↔
      OnlyWanted out args dryRun wanted (n + 1) (range.behindCopy out.topic :: rest) := by
  have hplace : (range.behindCopy out.topic).startOffset ≤
      (range.behindCopy out.topic).endOffset := by
    simpa only [OffsetRange.behindCopy] using Int.add_one_le_of_lt hlt
  rw [onlyWanted_of_nil h hle, onlyWanted_of_nil since_behindCopy hplace, passes_of_lt hlt,
    room_behindCopy hlt]
  simp only [hcopy, true_and]
  rw [Nat.add_right_comm, Nat.add_assoc]

/-- A copy after the range. -/
lemma onlyWanted_of_copy_le (h : (out.topic.log range.partition).since range.startOffset = [])
    (hle : range.startOffset ≤ range.endOffset) (hge : range.endOffset ≤ range.base out.topic)
    (hcopy : range.skipped out.topic < copiesTo out args dryRun range.partition n) :
    OnlyWanted out args dryRun wanted n (range :: rest) ↔
      OnlyWanted out args dryRun wanted n rest := by
  rw [onlyWanted_of_nil h hle, passes_of_le hge, room_of_le hge]
  simp only [hcopy, true_imp_iff, Nat.add_zero]

end Ranges

section Machine

variable {out : Outside} {args : ReplayArgs} {dryRun : Bool} {wanted : KeyValue → Prop}
  {s t : ReplayState} {loop : PartitionReplay}

/-! ## Where the consumer is -/

/-- The consumer is neither past its range nor past its log. -/
structure Located (out : Outside) (args : ReplayArgs) (dryRun : Bool) (s : ReplayState) : Prop where
  tracked : Tracked out args dryRun s
  inside : ∀ loop, s.control = .reading loop → loop.position ≤ loop.range.endOffset ∧
    loop.position ≤ (s.log loop.range.partition).logEnd
  placed : ∀ range ∈ s.ranges, range.Placed out.topic

lemma Located.advanced (h : Located out args dryRun s) (ht : Tracked out args dryRun t)
    (hstep : Advanced args dryRun s t) : Located out args dryRun t := by
  have hplaced := h.placed
  cases hstep with
  | halt => exact ⟨ht, by simp, hplaced⟩
  | enter range rest _ hranges _ =>
      rw [hranges] at hplaced
      refine ⟨ht, ?_, fun range' hrange' => hplaced range' (List.mem_cons_of_mem _ hrange')⟩
      intro loop hloop
      obtain ⟨hbelow, hle⟩ := hplaced range List.mem_cons_self
      rw [← Control.reading.inj hloop]
      refine ⟨hle, ?_⟩
      rw [h.tracked.logs, OffsetLog.logEnd_appendAll]
      simp only
      omega
  | leave => exact ⟨ht, by simp [ReplayState.leave], hplaced⟩
  | count loop offset record hcontrol hfetch hstops =>
      have hgoes := mt (loop.stops_iff offset).mpr (by simp [hstops])
      rw [not_or, not_le] at hgoes
      obtain ⟨rest, hunread⟩ := unread_of_fetch hfetch
      have hbelow := (s.log loop.range.partition).below (offset, record)
        (OffsetLog.mem_entries_of_unread (hunread ▸ List.mem_cons_self))
      obtain ⟨counted, hcounted, hrange, _, hposition, _⟩ :=
        control_count dryRun s loop offset record
      refine ⟨ht, ?_, by simpa using hplaced⟩
      intro loop' hloop'
      rw [hcounted, Control.reading.injEq] at hloop'
      rw [← hloop', hrange, hposition, log_count]
      exact ⟨by omega, by omega⟩
  | finish => exact ⟨ht, by simp, hplaced⟩

lemma Located.step (h : Located out args dryRun s) (hstep : ReplayStep out args dryRun s t) :
    Located out args dryRun t := by
  have ht := h.tracked.step hstep
  cases hstep with
  | advance hadvance => exact h.advanced ht (advance_eq_some_iff.mp hadvance)
  | deliver m hdeliver =>
      obtain ⟨_, _, rfl⟩ := deliver_eq_some_iff.mp hdeliver
      obtain ⟨hcontrol, hranges, _, _⟩ := handled_frame out args s m
      refine ⟨ht, ?_, hranges ▸ h.placed⟩
      intro loop hloop
      rw [hcontrol] at hloop
      obtain ⟨hle, hend⟩ := h.inside loop hloop
      refine ⟨hle, ?_⟩
      rw [log_handled_apply]
      split_ifs
      · rw [OffsetLog.append]
        simp only
        omega
      · exact hend

lemma Located.start (hplaces : KnownPlaces out) :
    Located out args dryRun (replayStart out args dryRun) := by
  refine ⟨.start, ?_, ?_⟩
  · intro loop hloop
    exact absurd hloop (replayStart_control out args dryRun loop)
  · rw [replayStart_ranges]
    exact placed_of_resolved hplaces

/-- What the consumer gets next, behind the old records. -/
lemma Located.copy_of_fetch (h : Located out args dryRun s) (hcontrol : s.control = .reading loop)
    (hsince : (out.topic.log loop.range.partition).since loop.position = []) {e : ℤ × Record}
    (hfetch : (s.log loop.range.partition).fetch loop.position = some e) :
    e.1 = loop.rest.base out.topic ∧ e.2 ∈ copies out args s loop.range.partition ∧
      loop.rest.skipped out.topic <
        copiesTo out args dryRun loop.range.partition s.read.length := by
  rw [h.tracked.fetch_of_nil hsince (h.inside loop hcontrol).2, Option.map_eq_some_iff] at hfetch
  obtain ⟨copy, hcopy, rfl⟩ := hfetch
  have hlength := h.tracked.copies_length_le loop.range.partition
  obtain ⟨hlt, _⟩ := List.getElem?_eq_some_iff.mp hcopy
  exact ⟨rfl, List.mem_of_getElem? hcopy, by omega⟩

/-! ## Wanted records only -/

/-- The replay has read, and will read, wanted records only. -/
structure Filtered (out : Outside) (args : ReplayArgs) (dryRun : Bool) (wanted : KeyValue → Prop)
    (s : ReplayState) : Prop where
  clean : ∀ r ∈ s.read, wanted r.payload
  ahead : OnlyWanted out args dryRun wanted s.read.length s.ahead

/-- Leaving a range, with wanted records only in what can be reached from there. -/
lemma Filtered.leave (h : Filtered out args dryRun wanted s) (hlocated : Located out args dryRun s)
    (hcontrol : s.control = .reading loop) {e : ℤ × Record}
    (hfetch : (s.log loop.range.partition).fetch loop.position = some e)
    (hstops : loop.stops e.1 = true) : Filtered out args dryRun wanted (s.leave loop) := by
  refine ⟨h.clean, ?_⟩
  have hahead := h.ahead
  rw [ahead_of_reading hcontrol] at hahead
  rw [ahead_leave]
  rcases (hlocated.tracked.books.stops_iff hcontrol e.1).mp hstops with hge | hspent
  · cases hsince : (out.topic.log loop.range.partition).since loop.position with
    | cons e' later =>
        rw [hlocated.tracked.fetch_of_cons hsince, Option.some.injEq] at hfetch
        subst hfetch
        exact (onlyWanted_of_ge loop.rest hsince hge).mp hahead
    | nil =>
        obtain ⟨hbase, _, hcopy⟩ := hlocated.copy_of_fetch hcontrol hsince hfetch
        rw [hbase] at hge
        exact (onlyWanted_of_copy_le hsince (hlocated.inside loop hcontrol).1 hge hcopy).mp hahead
  · exact onlyWanted_of_spent hspent

/-- Counting a record: an old one is wanted, and a copy has the payload of a wanted one. -/
lemma Filtered.count (h : Filtered out args dryRun wanted s) (hlocated : Located out args dryRun s)
    (hcontrol : s.control = .reading loop) {e : ℤ × Record}
    (hfetch : (s.log loop.range.partition).fetch loop.position = some e)
    (hstops : loop.stops e.1 = false) :
    Filtered out args dryRun wanted (s.count dryRun loop e.1 e.2) := by
  have hgoes := mt (hlocated.tracked.books.stops_iff hcontrol e.1).mpr (by simp [hstops])
  rw [not_or, not_le, Bool.not_eq_true] at hgoes
  obtain ⟨hlt, hbudget⟩ := hgoes
  have hahead := h.ahead
  rw [ahead_of_reading hcontrol] at hahead
  have hnext : wanted (e.2.key, e.2.value) ∧ OnlyWanted out args dryRun wanted
      (s.read.length + 1) ({ loop.rest with startOffset := e.1 + 1 } :: s.ranges) := by
    cases hsince : (out.topic.log loop.range.partition).since loop.position with
    | cons e' later =>
        rw [hlocated.tracked.fetch_of_cons hsince, Option.some.injEq] at hfetch
        subst hfetch
        exact (onlyWanted_of_lt loop.rest hsince hlt hbudget).mp hahead
    | nil =>
        obtain ⟨hbase, hmem, hcopy⟩ := hlocated.copy_of_fetch hcontrol hsince hfetch
        refine ⟨?_, ?_⟩
        · obtain ⟨r, hr, hpayload⟩ := List.mem_map.mp (hlocated.tracked.payload_of_copy hmem)
          exact hpayload ▸ h.clean r hr
        · rw [hbase] at hlt ⊢
          exact (onlyWanted_of_copy_lt hsince (hlocated.inside loop hcontrol).1 hlt hcopy).mp hahead
  refine ⟨?_, ?_⟩
  · intro r hr
    rw [read_count, List.mem_append, List.mem_singleton] at hr
    rcases hr with hr | rfl
    · exact h.clean r hr
    · exact hnext.1
  · rw [read_count, List.length_append, List.length_singleton, ahead_count]
    exact hnext.2

/-- **One step** keeps to the wanted records. -/
lemma Filtered.step (h : Filtered out args dryRun wanted s) (hlocated : Located out args dryRun s)
    (hstep : ReplayStep out args dryRun s t) : Filtered out args dryRun wanted t := by
  have hahead := h.ahead
  cases hstep with
  | advance hadvance =>
      cases advance_eq_some_iff.mp hadvance with
      | halt => exact ⟨h.clean, trivial⟩
      | enter range rest hcontrol hranges =>
          rw [ahead_of_next hcontrol, hranges] at hahead
          exact ⟨h.clean, hahead⟩
      | leave loop offset record hcontrol hfetch hstops =>
          exact h.leave hlocated hcontrol hfetch hstops
      | count loop offset record hcontrol hfetch hstops =>
          exact h.count hlocated hcontrol hfetch hstops
      | finish => exact ⟨h.clean, trivial⟩
  | deliver m hdeliver =>
      obtain ⟨_, _, rfl⟩ := deliver_eq_some_iff.mp hdeliver
      have hread := (handled_frame out args s m).2.2.1
      refine ⟨?_, ?_⟩
      · rw [hread]
        exact h.clean
      · rw [hread, ahead_handled]
        exact hahead

/-! ## The way to another record -/

/-- How much there is to read of a range at most. -/
def OffsetRange.work (topic : Topic) (range : OffsetRange) : ℕ :=
  (range.records topic).length + range.room topic

lemma work_of_lt (range : OffsetRange) {e : ℤ × Record} {later : List (ℤ × Record)}
    (h : (out.topic.log range.partition).since range.startOffset = e :: later)
    (hlt : e.1 < range.endOffset) :
    OffsetRange.work out.topic ⟨range.partition, e.1 + 1, range.endOffset⟩ <
      range.work out.topic := by
  have hbase : OffsetRange.base out.topic ⟨range.partition, e.1 + 1, range.endOffset⟩ =
      (out.topic.log range.partition).logEnd := base_succ_of_cons h
  simp only [OffsetRange.work, OffsetRange.room, records_of_lt range h hlt, List.length_cons,
    base_of_cons h, hbase]
  omega

lemma work_behindCopy (range : OffsetRange)
    (h : (out.topic.log range.partition).since range.startOffset = [])
    (hlt : range.base out.topic < range.endOffset) :
    (range.behindCopy out.topic).work out.topic < range.work out.topic := by
  rw [OffsetRange.work, OffsetRange.work, records_of_nil h, records_of_nil since_behindCopy,
    room_behindCopy hlt]
  omega

/-- How much the replay can still do. -/
def ReplayState.effort (topic : Topic) (s : ReplayState) : ℕ :=
  4 * s.ranges.length + 2 * (s.ahead.map (OffsetRange.work topic)).sum + s.pending.length +
    match s.control with
    | .next => 2
    | .reading _ => 3
    | .stopping => 1
    | .returned => 0
    | .raised _ => 0

/-- A replay that can reach a record that is not wanted. -/
def Leaking (out : Outside) (args : ReplayArgs) (dryRun : Bool) (wanted : KeyValue → Prop)
    (s : ReplayState) : Prop :=
  ¬ OnlyWanted out args dryRun wanted s.read.length s.ahead

/-- What one step of a leaking replay can lead to: a record that is not wanted, or a state nearer to
it. -/
def LeaksOn (out : Outside) (args : ReplayArgs) (dryRun : Bool) (wanted : KeyValue → Prop)
    (s : ReplayState) : Prop :=
  ∃ t, ReplayStep out args dryRun s t ∧ ((∃ r ∈ t.read, ¬ wanted r.payload) ∨
    Leaking out args dryRun wanted t ∧ t.effort out.topic < s.effort out.topic)

lemma effort_handled (s : ReplayState) {m : Send} (hm : m ∈ s.pending) (topic : Topic) :
    (s.handled out args m).effort topic < s.effort topic := by
  obtain ⟨hcontrol, hranges, _, hpending⟩ := handled_frame out args s m
  have hlen := List.length_erase_of_mem hm
  have hpos := List.length_pos_of_mem hm
  simp only [ReplayState.effort, hcontrol, hranges, hpending, ahead_handled]
  omega

lemma effort_leave (s : ReplayState) (hcontrol : s.control = .reading loop) (topic : Topic) :
    (s.leave loop).effort topic < s.effort topic := by
  simp only [ReplayState.effort, ahead_leave, ahead_of_reading hcontrol, hcontrol, List.map_cons,
    List.sum_cons]
  simp only [ReplayState.leave]
  omega

lemma effort_count (s : ReplayState) (hcontrol : s.control = .reading loop) (topic : Topic)
    (offset : ℤ) (record : Record)
    (hless : OffsetRange.work topic ⟨loop.range.partition, offset + 1, loop.range.endOffset⟩ <
      loop.rest.work topic) :
    (s.count dryRun loop offset record).effort topic < s.effort topic := by
  have hpending := pending_count dryRun s loop offset record
  obtain ⟨loop', hloop', _⟩ := control_count dryRun s loop offset record
  simp only [ReplayState.effort, ahead_count, ahead_of_reading hcontrol, hcontrol, hloop',
    ranges_count, List.map_cons, List.sum_cons, rest_partition, rest_endOffset]
  omega

lemma Leaking.budget (h : Leaking out args dryRun wanted s) :
    budgetSpent args.maxEvents s.read.length = false :=
  Bool.eq_false_iff.mpr fun hspent => h (onlyWanted_of_spent hspent)

/-- At a record behind the range, the run leaves it; the ranges after it leak. -/
lemma leaksOn_leave (hlocated : Located out args dryRun s) (hcontrol : s.control = .reading loop)
    {e : ℤ × Record} (hfetch : (s.log loop.range.partition).fetch loop.position = some e)
    (hge : loop.range.endOffset ≤ e.1)
    (hranges : ¬ OnlyWanted out args dryRun wanted s.read.length s.ranges) :
    LeaksOn out args dryRun wanted s := by
  have hstops := (hlocated.tracked.books.stops_iff hcontrol e.1).mpr (Or.inl hge)
  refine ⟨_, .advance (advance_eq_some_iff.mpr (.leave loop e.1 e.2 hcontrol hfetch hstops)),
    Or.inr ⟨?_, effort_leave s hcontrol _⟩⟩
  rw [Leaking, ahead_leave]
  exact hranges

section Leaking

variable (hlocated : Located out args dryRun s) (h : Leaking out args dryRun wanted s)
include hlocated h

/-- Before a range, the run enters it. -/
lemma Leaking.enter (hcontrol : s.control = .next) : LeaksOn out args dryRun wanted s := by
  have hbudget := h.budget
  rw [← hlocated.tracked.books.read_of_next hcontrol] at hbudget
  cases hranges : s.ranges with
  | nil =>
      exfalso
      refine h ?_
      rw [ahead_of_next hcontrol, hranges]
      trivial
  | cons range rest =>
      refine ⟨_, .advance (advance_eq_some_iff.mpr (.enter range rest hcontrol hranges hbudget)),
        Or.inr ⟨?_, ?_⟩⟩
      · rw [Leaking, ahead_of_next hcontrol, hranges] at h
        exact h
      · have hsame : ∀ maxEvents, (PartitionReplay.mk range maxEvents range.startOffset 0 0).rest =
            range := fun _ => rfl
        simp only [ReplayState.effort, ReplayState.ahead, hcontrol, hranges, hsame,
          List.length_cons]
        omega

/-- An old record is counted, or ends the range. -/
lemma Leaking.record (hcontrol : s.control = .reading loop) {e : ℤ × Record}
    {later : List (ℤ × Record)}
    (hsince : (out.topic.log loop.range.partition).since loop.position = e :: later) :
    LeaksOn out args dryRun wanted s := by
  have hbudget := h.budget
  have hfetch := hlocated.tracked.fetch_of_cons hsince
  rw [Leaking, ahead_of_reading hcontrol] at h
  by_cases hlt : e.1 < loop.range.endOffset
  · refine ⟨_, .advance (advance_eq_some_iff.mpr (.count loop e.1 e.2 hcontrol hfetch
      (hlocated.tracked.books.goes_on hcontrol hlt hbudget))), ?_⟩
    rw [onlyWanted_of_lt loop.rest hsince hlt hbudget, not_and_or] at h
    rcases h with hother | hlater
    · refine Or.inl ⟨⟨loop.range.partition, e.1, e.2⟩, ?_, hother⟩
      rw [read_count]
      exact List.mem_append_right _ (List.mem_singleton_self _)
    · refine Or.inr ⟨?_, effort_count s hcontrol _ _ _ ?_⟩
      · rw [Leaking, read_count, List.length_append, List.length_singleton, ahead_count]
        exact hlater
      · exact work_of_lt loop.rest hsince hlt
  · have hge := not_lt.mp hlt
    rw [onlyWanted_of_ge loop.rest hsince hge] at h
    exact leaksOn_leave hlocated hcontrol hfetch hge h

/-- Behind the old records the copies carry the run on; the broker handles one if there is none. -/
lemma Leaking.copy (hcontrol : s.control = .reading loop)
    (hsince : (out.topic.log loop.range.partition).since loop.position = []) :
    LeaksOn out args dryRun wanted s := by
  have hbudget := h.budget
  have hplace := (hlocated.inside loop hcontrol).1
  have hahead := ahead_of_reading hcontrol
  have hleaks := h
  rw [Leaking, hahead] at hleaks
  have hpasses : Passes out args dryRun s.read.length loop.rest := by
    by_contra hnever
    exact hleaks ((onlyWanted_of_nil hsince hplace).mpr fun hpasses => absurd hpasses hnever)
  have hcopy := hpasses 0 (Nat.zero_le _)
  rw [Nat.add_zero, Nat.add_zero, rest_partition] at hcopy
  cases hfetch : (s.log loop.range.partition).fetch loop.position with
  | none =>
      rw [hlocated.tracked.fetch_of_nil hsince (hlocated.inside loop hcontrol).2,
        Option.map_eq_none_iff, List.getElem?_eq_none_iff] at hfetch
      obtain ⟨m, hm, hroute, hfirst⟩ :=
        hlocated.tracked.exists_pending_copy (lt_of_le_of_lt hfetch hcopy)
      refine ⟨_, .deliver m (deliver_eq_some_iff.mpr ⟨hm, ?_, rfl⟩),
        Or.inr ⟨?_, effort_handled s hm _⟩⟩
      · intro m' hm' hlt
        rw [hroute]
        exact hfirst m' hm' hlt
      · rw [Leaking, (handled_frame out args s m).2.2.1, ahead_handled]
        exact h
  | some e =>
      obtain ⟨hbase, _, _⟩ := hlocated.copy_of_fetch hcontrol hsince hfetch
      by_cases hlt : e.1 < loop.range.endOffset
      · refine ⟨_, .advance (advance_eq_some_iff.mpr (.count loop e.1 e.2 hcontrol hfetch
          (hlocated.tracked.books.goes_on hcontrol hlt hbudget))), Or.inr ⟨?_, ?_⟩⟩
        · rw [hbase] at hlt
          rw [Leaking, read_count, List.length_append, List.length_singleton, ahead_count, hbase]
          exact mt (onlyWanted_of_copy_lt hsince hplace hlt hcopy).mpr hleaks
        · refine effort_count s hcontrol _ _ _ ?_
          rw [hbase] at hlt ⊢
          exact work_behindCopy loop.rest hsince hlt
      · have hge := not_lt.mp hlt
        refine leaksOn_leave hlocated hcontrol hfetch hge ?_
        rw [hbase] at hge
        exact mt (onlyWanted_of_copy_le hsince hplace hge hcopy).mpr hleaks

end Leaking

/-! ## Whole replays -/

end Machine

end Ticksense
