import Ticksense.Replay.Plan

/-!
# Budget and accounting

What `run_replay` has read when it returns its stats, over any list of ranges and any logs, dry or
live, and whether or not copies come back to the source topic.

* `StreamStep` — the steps of a replay, with one more: where the log does not grow, the consumer may
  also come to the end of what it iterates over.  Without that step it waits there.
* `Progress` — the invariant: the ranges are those done, the one the replay is in, and those to
  come; what has been read is one part for each range done, and a part of the current one.
* `Passed` — each part is all that the consumer of its range is handed, unless the budget was used
  up; but a consumer that begins past the end of its partition starts over at the earliest record.
* `accounts_of_allInPlace` — so the accounts of a replay that returns are exact if no range that it
  opens begins there.
-/

namespace Ticksense

/-! ## Streams that end -/

section Machine

variable (out : Outside) (args : ReplayArgs) (dryRun : Bool)

/-- Nothing comes back to the source topic. -/
def Quiet : Prop := dryRun = true ∨ loopsBack out args = false

/-- A step of a replay, or the end of a stream that does not grow. -/
inductive StreamStep : ReplayState → ReplayState → Prop
  | replay {s t : ReplayState} (h : ReplayStep out args dryRun s t) : StreamStep s t
  | exhausted {s : ReplayState} (loop : PartitionReplay) (hquiet : Quiet out args dryRun)
      (hcontrol : s.control = .reading loop)
      (hfetch : (s.log loop.range.partition).fetch loop.position = none) :
      StreamStep s (s.leave loop)

/-! ## Progress -/

/-- An entry of a partition. -/
def placed (partition : ℤ) (e : ℤ × Record) : SourceRecord :=
  ⟨partition, e.1, e.2⟩

variable (log : ℤ → OffsetLog Record)

/-- All that the consumer of a range is handed. -/
def HandedTo (range : OffsetRange) (full : List SourceRecord) : Prop :=
  ∃ entries, OffsetLog.Handed (out.topic.log range.partition) (log range.partition)
      range.startOffset range.endOffset entries ∧
    full = entries.map (placed range.partition)

/-- What has been read of a range that the replay has left after `n` records: everything, and nothing
can be added to it, or a part of it with the budget used up. -/
def Replayed (range : OffsetRange) (part : List SourceRecord) (n : ℕ) : Prop :=
  ∃ full, HandedTo out log range full ∧
    ((part = full ∧ (range.endOffset ≤ (log range.partition).logEnd ∨ Quiet out args dryRun)) ∨
      (part <+: full ∧ budgetSpent args.maxEvents n = true))

/-- The ranges that the replay has left, and what it has read of each: it was opened with some of the
budget left. -/
inductive Passed : List OffsetRange → List (List SourceRecord) → Prop
  | none : Passed [] []
  | more {done : List OffsetRange} {parts : List (List SourceRecord)} {range : OffsetRange}
      {part : List SourceRecord} (before : Passed done parts)
      (hopened : budgetSpent args.maxEvents parts.flatten.length = false)
      (hpart : Replayed out args dryRun log range part (parts.flatten.length + part.length)) :
      Passed (done ++ [range]) (parts ++ [part])

variable (s : ReplayState)

/-- What has been read of the range the replay is in. -/
def Reading (loop : PartitionReplay) (part : List SourceRecord) : Prop :=
  (part = [] ∧ loop.position = loop.range.startOffset) ∨
    (loop.position ≤ (s.log loop.range.partition).logEnd ∧
      ∃ full, HandedTo out s.log loop.range full ∧
        part ++ ((s.log loop.range.partition).within loop.position loop.range.endOffset).map
          (placed loop.range.partition) = full)

/-- The range the replay is in. -/
def Control.current : Control → List OffsetRange
  | .reading loop => [loop.range]
  | _ => []

/-- The replay has left the ranges `done`, having read one of the `parts` of each, and has read
`part` of the range it is in. -/
structure Progress (ranges done : List OffsetRange) (parts : List (List SourceRecord))
    (part : List SourceRecord) : Prop where
  split : ranges = done ++ (s.control.current ++ s.ranges)
  replayed : s.stats.partitionsReplayed = done.map OffsetRange.partition
  read : s.read = parts.flatten ++ part
  left : Passed out args dryRun s.log done parts
  inside : ∀ loop, s.control = .reading loop → Reading out s loop part ∧
    budgetSpent args.maxEvents parts.flatten.length = false
  between : (∀ loop, s.control ≠ .reading loop) → part = []
  ended : s.control = .stopping ∨ s.control = .returned →
    s.ranges = [] ∨ budgetSpent args.maxEvents s.read.length = true
  budget : ∀ maxEvents ∈ args.maxEvents, (s.read.length : ℤ) ≤ max 0 maxEvents

end Machine

section Steps

variable {out : Outside} {args : ReplayArgs} {dryRun : Bool} {s t : ReplayState}
  {ranges done : List OffsetRange} {parts : List (List SourceRecord)} {part : List SourceRecord}
  {loop : PartitionReplay} {e : ℤ × Record}

/-! ## Inside a range -/

/-- The log of a partition never shrinks below what it was. -/
lemma Grown.logEnd_le (h : Grown out args s) (p : ℤ) :
    (out.topic.log p).logEnd ≤ (s.log p).logEnd := by
  obtain ⟨extra, hextends, _⟩ := h p
  have := hextends.logEnd
  omega

/-- Before its first record the consumer has everything of its range before it. -/
lemma exists_handedTo (hgrown : Grown out args s) (range : OffsetRange) :
    HandedTo out s.log range ((((s.log range.partition).unread range.startOffset).filter
      (·.1 < range.endOffset)).map (placed range.partition)) := by
  have hle := hgrown.logEnd_le range.partition
  refine ⟨_, ?_, rfl⟩
  rw [OffsetLog.unread]
  split_ifs with hover
  · exact .beyond (by omega)
  · exact .range (by omega)

/-- What has been read of the current range, and what lies before the consumer, is all of it. -/
lemma Reading.handedTo (h : Reading out s loop part) (hgrown : Grown out args s) :
    HandedTo out s.log loop.range (part ++
      (((s.log loop.range.partition).unread loop.position).filter
        (·.1 < loop.range.endOffset)).map (placed loop.range.partition)) := by
  rcases h with ⟨rfl, hstart⟩ | ⟨hle, full, hhanded, hfull⟩
  · rw [hstart, List.nil_append]
    exact exists_handedTo hgrown loop.range
  · rw [OffsetLog.unread, if_neg (by omega)]
    rw [OffsetLog.within] at hfull
    rw [hfull]
    exact hhanded

/-- The record that the consumer is handed next, and the rest. -/
lemma unread_of_fetch
    (hfetch : (s.log loop.range.partition).fetch loop.position = some e) :
    ∃ rest, (s.log loop.range.partition).unread loop.position = e :: rest := by
  rw [OffsetLog.fetch_eq_head?] at hfetch
  cases hunread : (s.log loop.range.partition).unread loop.position with
  | nil => simp [hunread] at hfetch
  | cons e' rest =>
      rw [hunread, List.head?_cons, Option.some.injEq] at hfetch
      exact ⟨rest, by rw [hfetch]⟩

/-- Counting a record of the range moves it from what lies ahead to what has been read. -/
lemma Reading.count (h : Reading out s loop part) (hgrown : Grown out args s)
    (hfetch : (s.log loop.range.partition).fetch loop.position = some e)
    (hlt : e.1 < loop.range.endOffset) {loop' : PartitionReplay}
    (hrange : loop'.range = loop.range) (hposition : loop'.position = e.1 + 1)
    (hlog : t.log = s.log) :
    Reading out t loop' (part ++ [placed loop.range.partition e]) := by
  obtain ⟨rest, hunread⟩ := unread_of_fetch hfetch
  have hbelow := (s.log loop.range.partition).below e
    (OffsetLog.mem_entries_of_unread (hunread ▸ List.mem_cons_self))
  have hhanded := h.handedTo hgrown
  rw [hunread, List.filter_cons_of_pos (by simpa using hlt), List.map_cons] at hhanded
  refine Or.inr ⟨?_, _, ?_, rfl⟩
  · rw [hrange, hposition, hlog]
    omega
  · rw [hrange, hposition, hlog, OffsetLog.within, OffsetLog.since_of_unread hunread,
      List.append_assoc, List.singleton_append]
    simpa only [HandedTo, hlog] using hhanded

/-- With a record after the range, nothing of the range lies ahead. -/
lemma Reading.full_of_stop (h : Reading out s loop part) (hgrown : Grown out args s)
    (hfetch : (s.log loop.range.partition).fetch loop.position = some e)
    (hge : loop.range.endOffset ≤ e.1) :
    HandedTo out s.log loop.range part ∧
      loop.range.endOffset ≤ (s.log loop.range.partition).logEnd := by
  obtain ⟨rest, hunread⟩ := unread_of_fetch hfetch
  have hbelow := (s.log loop.range.partition).below e
    (OffsetLog.mem_entries_of_unread (hunread ▸ List.mem_cons_self))
  have hsorted := (s.log loop.range.partition).unread_sorted loop.position
  have hhanded := h.handedTo hgrown
  have hnone : ((s.log loop.range.partition).unread loop.position).filter
      (·.1 < loop.range.endOffset) = [] := by
    rw [hunread] at hsorted ⊢
    rw [List.filter_eq_nil_iff]
    intro x hx
    rcases List.mem_cons.mp hx with rfl | hx
    · simpa using hge
    · have := (List.pairwise_cons.mp hsorted).1 x hx
      simp only [decide_eq_true_eq]
      omega
  rw [hnone, List.map_nil, List.append_nil] at hhanded
  exact ⟨hhanded, by omega⟩

/-! ## While the log grows -/

/-- What one step does to the log of a partition: nothing, or it brings one copy back. -/
def GrowsTo (out : Outside) (args : ReplayArgs) (dryRun : Bool) (log log' : OffsetLog Record) :
    Prop :=
  log' = log ∨ (¬ Quiet out args dryRun ∧ ∃ record, log' = log.append record)

lemma Replayed.of_growsTo {range : OffsetRange} {n : ℕ}
    (h : Replayed out args dryRun s.log range part n)
    (hlog : GrowsTo out args dryRun (s.log range.partition) (t.log range.partition)) :
    Replayed out args dryRun t.log range part n := by
  obtain ⟨full, ⟨entries, hhanded, rfl⟩, hpart⟩ := h
  rcases hlog with hsame | ⟨hloud, record, happend⟩
  · refine ⟨_, ⟨entries, hsame.symm ▸ hhanded, rfl⟩, ?_⟩
    exact hpart.imp_left fun ⟨hfull, hclosed⟩ => ⟨hfull, hsame.symm ▸ hclosed⟩
  · refine ⟨_, ⟨_, happend ▸ hhanded.append record, rfl⟩, ?_⟩
    rcases hpart with ⟨hfull, hclosed⟩ | ⟨hpart, hspent⟩
    · have hend := hclosed.resolve_right hloud
      refine Or.inl ⟨?_, Or.inl ?_⟩
      · rw [if_neg (by omega), List.append_nil, hfull]
      · rw [happend, OffsetLog.append]
        simp only
        omega
    · refine Or.inr ⟨?_, hspent⟩
      rw [List.map_append]
      exact hpart.trans (List.prefix_append _ _)

lemma Passed.of_growsTo (h : Passed out args dryRun s.log done parts)
    (hlog : ∀ p, GrowsTo out args dryRun (s.log p) (t.log p)) :
    Passed out args dryRun t.log done parts := by
  induction h with
  | none => exact .none
  | more before hopened hpart ih => exact .more ih hopened (hpart.of_growsTo (hlog _))

lemma Reading.of_growsTo (h : Reading out s loop part)
    (hlog : GrowsTo out args dryRun (s.log loop.range.partition) (t.log loop.range.partition)) :
    Reading out t loop part := by
  rcases h with hfresh | ⟨hle, full, ⟨entries, hhanded, hentries⟩, hfull⟩
  · exact Or.inl hfresh
  · rcases hlog with hsame | ⟨_, record, happend⟩
    · refine Or.inr ⟨hsame.symm ▸ hle, full, ⟨entries, hsame.symm ▸ hhanded, hentries⟩, ?_⟩
      rw [hsame]
      exact hfull
    · refine Or.inr ⟨?_, _, ⟨_, happend ▸ hhanded.append record, rfl⟩, ?_⟩
      · rw [happend, OffsetLog.append]
        simp only
        omega
      · rw [happend, OffsetLog.within_append _ _ hle, List.map_append, List.map_append, ← hentries,
          ← hfull, List.append_assoc]

/-- The broker's step on the logs. -/
lemma handled_growsTo (hbooks : Books out args dryRun s) {m : Send} (hm : m ∈ s.pending) (p : ℤ) :
    GrowsTo out args dryRun (s.log p) ((s.handled out args m).log p) := by
  have hlive : dryRun = false := by
    have hlen := hbooks.sent_length
    have hpos := List.length_pos_of_mem (hbooks.enqueued m (Or.inl hm))
    cases dryRun with
    | true =>
        rw [if_pos rfl] at hlen
        omega
    | false => rfl
  rw [ReplayState.handled]
  split_ifs with _ hback
  · by_cases hp : p = out.route m.index
    · subst hp
      refine Or.inr ⟨?_, m.record out, by simp⟩
      rintro (hdry | hquiet)
      · simp [hlive] at hdry
      · simp [hback] at hquiet
    · exact Or.inl (Function.update_of_ne hp _ _)
  · exact Or.inl rfl
  · exact Or.inl rfl

/-! ## Steps -/

/-- Leaving a range adds it to those done. -/
lemma Progress.leave (h : Progress out args dryRun s ranges done parts part)
    (hcontrol : s.control = .reading loop)
    (hleft : Replayed out args dryRun s.log loop.range part s.read.length) :
    Progress out args dryRun (s.leave loop) ranges (done ++ [loop.range]) (parts ++ [part]) [] := by
  have hsplit := h.split
  rw [hcontrol] at hsplit
  refine ⟨?_, ?_, ?_, ?_, ?_, fun _ => rfl, ?_, h.budget⟩
  · simpa [Control.current, ReplayState.leave] using hsplit
  · simp [ReplayState.leave, h.replayed]
  · simpa [ReplayState.leave] using h.read
  · rw [h.read, List.length_append] at hleft
    exact .more h.left (h.inside loop hcontrol).2 hleft
  · simp [ReplayState.leave]
  · simp [ReplayState.leave]

/-- Counting a record adds it to the current part. -/
lemma Progress.count (h : Progress out args dryRun s ranges done parts part)
    (hbooks : Books out args dryRun s) (hgrown : Grown out args s)
    (hcontrol : s.control = .reading loop)
    (hfetch : (s.log loop.range.partition).fetch loop.position = some e)
    (hstops : loop.stops e.1 = false) :
    Progress out args dryRun (s.count dryRun loop e.1 e.2) ranges done parts
      (part ++ [placed loop.range.partition e]) := by
  have hgoes := mt (hbooks.stops_iff hcontrol e.1).mpr (by simp [hstops])
  rw [not_or, not_le, Bool.not_eq_true] at hgoes
  have hsplit := h.split
  rw [hcontrol] at hsplit
  obtain ⟨loop', hcontrol', hrange, _, hposition, _⟩ := control_count dryRun s loop e.1 e.2
  refine ⟨?_, ?_, ?_, ?_, ?_, ?_, ?_, ?_⟩
  · rw [hcontrol', ranges_count]
    simpa [Control.current, hrange] using hsplit
  · cases dryRun <;> exact h.replayed
  · rw [read_count, h.read, List.append_assoc, placed]
  · exact h.left.of_growsTo fun p => Or.inl (by rw [log_count])
  · intro loop'' hcontrol''
    rw [hcontrol', Control.reading.injEq] at hcontrol''
    subst hcontrol''
    obtain ⟨hreading, hopened⟩ := h.inside loop hcontrol
    exact ⟨hreading.count hgrown hfetch hgoes.1 hrange hposition (log_count s loop e.1 e.2),
      hopened⟩
  · intro hnone
    exact absurd hcontrol' (hnone loop')
  · simp [hcontrol']
  · intro m hm
    have hleft := hgoes.2
    rw [Option.mem_def.mp hm] at hleft
    simp only [budgetSpent, Option.any_some, decide_eq_false_iff_not, not_le] at hleft
    rw [read_count, List.length_append, List.length_singleton]
    omega

/-- The broker changes nothing of this. -/
lemma Progress.handled (h : Progress out args dryRun s ranges done parts part)
    (hbooks : Books out args dryRun s) {m : Send} (hm : m ∈ s.pending) :
    Progress out args dryRun (s.handled out args m) ranges done parts part := by
  obtain ⟨hcontrol, hranges, hread, _⟩ := handled_frame out args s m
  have hlog := handled_growsTo hbooks hm
  have hstats : (s.handled out args m).stats = s.stats := by
    rw [ReplayState.handled]
    split_ifs <;> rfl
  refine ⟨?_, ?_, ?_, ?_, ?_, ?_, ?_, ?_⟩
  · rw [hcontrol, hranges]
    exact h.split
  · rw [hstats]
    exact h.replayed
  · rw [hread]
    exact h.read
  · exact h.left.of_growsTo hlog
  · intro loop hloop
    rw [hcontrol] at hloop
    exact (h.inside loop hloop).imp_left fun hreading => hreading.of_growsTo (hlog _)
  · rw [hcontrol]
    exact h.between
  · rw [hcontrol, hranges, hread]
    exact h.ended
  · rw [hread]
    exact h.budget

/-- **One pass of the machine** makes progress. -/
lemma Progress.advanced (h : Progress out args dryRun s ranges done parts part)
    (hbooks : Books out args dryRun s) (hgrown : Grown out args s)
    (hstep : Advanced args dryRun s t) :
    ∃ done parts part, Progress out args dryRun t ranges done parts part := by
  have hsplit := h.split
  cases hstep with
  | halt hcontrol hdone =>
      rw [hcontrol] at hsplit
      have hpart := h.between (by simp [hcontrol])
      refine ⟨done, parts, part, hsplit, h.replayed, h.read, h.left, by simp, fun _ => hpart, ?_,
        h.budget⟩
      intro _
      rcases hdone with hnil | hspent
      · exact Or.inl hnil
      · exact Or.inr (hbooks.read_of_next hcontrol ▸ hspent)
  | enter range rest hcontrol hranges hbudget =>
      rw [hcontrol, hranges] at hsplit
      have hpart := h.between (by simp [hcontrol])
      refine ⟨done, parts, part, hsplit, h.replayed, h.read, h.left, ?_, ?_, by simp, h.budget⟩
      · intro loop hloop
        rw [← Control.reading.inj hloop]
        have hall := h.read
        rw [hpart, List.append_nil] at hall
        exact ⟨Or.inl ⟨hpart, rfl⟩, by rw [← hall, ← hbooks.read_of_next hcontrol, hbudget]⟩
      · intro hnone
        exact absurd rfl (hnone _)
  | leave loop offset record hcontrol hfetch hstops =>
      refine ⟨_, _, _, h.leave hcontrol ?_⟩
      rcases (hbooks.stops_iff hcontrol offset).mp hstops with hge | hspent
      · obtain ⟨hfull, hclosed⟩ := (h.inside loop hcontrol).1.full_of_stop hgrown hfetch hge
        exact ⟨part, hfull, Or.inl ⟨rfl, Or.inl hclosed⟩⟩
      · exact ⟨_, (h.inside loop hcontrol).1.handedTo hgrown,
          Or.inr ⟨List.prefix_append _ _, hspent⟩⟩
  | count loop offset record hcontrol hfetch hstops =>
      exact ⟨_, _, _, h.count hbooks hgrown hcontrol hfetch hstops⟩
  | finish hcontrol hpending =>
      rw [hcontrol] at hsplit
      have hpart := h.between (by simp [hcontrol])
      exact ⟨done, parts, part, hsplit, h.replayed, h.read, h.left, by simp, fun _ => hpart,
        fun _ => h.ended (Or.inl hcontrol), h.budget⟩

/-- Everything the run lemma carries along. -/
structure UnderWay (out : Outside) (args : ReplayArgs) (dryRun : Bool) (ranges : List OffsetRange)
    (s : ReplayState) : Prop where
  books : Books out args dryRun s
  grown : Grown out args s
  progress : ∃ done parts part, Progress out args dryRun s ranges done parts part

/-- **One step**, the broker's steps and the ends of streams included. -/
lemma UnderWay.step (h : UnderWay out args dryRun ranges s)
    (hstep : StreamStep out args dryRun s t) : UnderWay out args dryRun ranges t := by
  obtain ⟨done, parts, part, hprogress⟩ := h.progress
  cases hstep with
  | replay hstep =>
      refine ⟨h.books.step hstep, h.grown.step hstep, ?_⟩
      cases hstep with
      | advance hadvance =>
          exact hprogress.advanced h.books h.grown (advance_eq_some_iff.mp hadvance)
      | deliver m hdeliver =>
          obtain ⟨hm, _, rfl⟩ := deliver_eq_some_iff.mp hdeliver
          exact ⟨done, parts, part, hprogress.handled h.books hm⟩
  | exhausted loop hquiet hcontrol hfetch =>
      refine ⟨h.books.leave hcontrol, h.grown, _, _, _, hprogress.leave hcontrol ?_⟩
      have hhanded := (hprogress.inside loop hcontrol).1.handedTo h.grown
      rw [OffsetLog.fetch_eq_head?, List.head?_eq_none_iff] at hfetch
      rw [hfetch, List.filter_nil, List.map_nil, List.append_nil] at hhanded
      exact ⟨part, hhanded, Or.inl ⟨rfl, Or.inr hquiet⟩⟩

/-- The states of a replay are among those it reaches where streams may end. -/
lemma reaches_streamStep (h : Machine.Reaches (ReplayStep out args dryRun) s t) :
    Machine.Reaches (StreamStep out args dryRun) s t :=
  Relation.ReflTransGen.mono (fun _ _ hstep => StreamStep.replay hstep) _ _ h

lemma UnderWay.startFrom (source : String) (ranges : List OffsetRange) :
    UnderWay out args dryRun ranges (replayFrom out args dryRun source ranges) := by
  have hgrown : Grown out args (replayFrom out args dryRun source ranges) :=
    fun p => ⟨[], .refl _, by simp [CopyIn, replayFrom]⟩
  refine ⟨.startFrom source ranges, hgrown, [], [], [], ?_, rfl, rfl, .none, ?_, fun _ => rfl,
    ?_, ?_⟩
  · simp only [replayFrom]
    split_ifs <;> rfl
  · intro loop hloop
    exact absurd hloop (replayFrom_control source ranges loop)
  · simp only [replayFrom]
    split_ifs with hnil
    · exact fun _ => Or.inl hnil
    · simp
  · simp [replayFrom]

end Steps

/-! ## The accounts -/

/-- The records of a range in the log as it is. -/
def ReplayState.inRange (s : ReplayState) (range : OffsetRange) : List SourceRecord :=
  ((s.log range.partition).within range.startOffset range.endOffset).map (placed range.partition)

/-- The budget is used up exactly. -/
def Exhausted (args : ReplayArgs) (eventsRead : ℕ) : Prop :=
  ∃ maxEvents, args.maxEvents = some maxEvents ∧ (eventsRead : ℤ) = max 0 maxEvents

/-- What the stats of a replay have to say about what it has done. -/
structure Accounts (args : ReplayArgs) (dryRun : Bool) (ranges : List OffsetRange)
    (s : ReplayState) : Prop where
  budget : ∀ maxEvents ∈ args.maxEvents, (s.stats.eventsRead : ℤ) ≤ max 0 maxEvents
  counted : s.stats.eventsRead = s.read.length
  inOrder : ∃ done rest parts, ranges = done ++ rest ∧
    s.stats.partitionsReplayed = done.map OffsetRange.partition ∧ s.read = parts.flatten ∧
    List.Forall₂ (fun range part => part <+: s.inRange range ∧
      (part ≠ s.inRange range → Exhausted args s.stats.eventsRead)) done parts ∧
    (rest ≠ [] → Exhausted args s.stats.eventsRead)
  dry : dryRun = true → s.sent = [] ∧ s.stats.eventsProduced = 0
  live : dryRun = false → s.sent.map Send.payload = s.read.map SourceRecord.payload ∧
    s.stats.eventsProduced = s.stats.eventsRead

/-- The range does not begin past the end of its partition; or it does, but every record lies at or
after its end, and none can come that does not. -/
def InPlace (out : Outside) (args : ReplayArgs) (dryRun : Bool) (range : OffsetRange) : Prop :=
  range.startOffset ≤ (out.topic.log range.partition).logEnd ∨
    (∀ e ∈ (out.topic.log range.partition).entries, range.endOffset ≤ e.1) ∧
      (range.endOffset ≤ (out.topic.log range.partition).logEnd ∨ Quiet out args dryRun)

/-- Every range is in place that is opened: the ranges before it do not use up the budget. -/
def AllInPlace (out : Outside) (args : ReplayArgs) (dryRun : Bool) (ranges : List OffsetRange) :
    Prop :=
  ∀ before range after, ranges = before ++ range :: after →
    budgetSpent args.maxEvents (before.flatMap (OffsetRange.records out.topic)).length = false →
    InPlace out args dryRun range

section Accounts

variable {out : Outside} {args : ReplayArgs} {dryRun : Bool} {s : ReplayState}
  {ranges done : List OffsetRange} {parts : List (List SourceRecord)} {range : OffsetRange}
  {full : List SourceRecord}

/-- Nothing is appended to a quiet topic. -/
lemma Grown.log_eq (hgrown : Grown out args s) (hbooks : Books out args dryRun s)
    (hquiet : Quiet out args dryRun) (p : ℤ) : s.log p = out.topic.log p := by
  obtain ⟨extra, hextends, hextra⟩ := hgrown p
  have hnone : extra = [] := by
    by_contra hne
    obtain ⟨hback, m, hm, _⟩ := hextra.mp hne
    rcases hquiet with hdry | hquiet
    · have hlength := hbooks.sent_length
      rw [hdry, if_pos rfl] at hlength
      have hpos := List.length_pos_of_mem (hbooks.enqueued m (Or.inr hm))
      omega
    · rw [hback] at hquiet
      cases hquiet
  exact (hnone ▸ hextends).eq_of_nil

/-- The consumer of a range that is in place is handed the records of the range. -/
lemma InPlace.handed_eq (h : InPlace out args dryRun range) (hgrown : Grown out args s)
    (hbooks : Books out args dryRun s) (hhanded : HandedTo out s.log range full) :
    full = s.inRange range := by
  obtain ⟨entries, hentries, rfl⟩ := hhanded
  cases hentries with
  | range hle => rfl
  | beyond hlt =>
      obtain ⟨habove, hclosed⟩ := h.resolve_left (by omega)
      have hall : ∀ e ∈ (s.log range.partition).entries, range.endOffset ≤ e.1 := by
        rcases hclosed with hend | hquiet
        · obtain ⟨extra, hextends, _⟩ := hgrown range.partition
          intro e he
          rw [hextends.entries, List.mem_append] at he
          rcases he with hold | hnew
          · exact habove e hold
          · exact hend.trans (hextends.above e hnew)
        · rw [hgrown.log_eq hbooks hquiet]
          exact habove
      have hnone : (s.log range.partition).entries.filter (·.1 < range.endOffset) = [] := by
        rw [List.filter_eq_nil_iff]
        intro e he
        simpa using hall e he
      have hwithin : (s.log range.partition).within range.startOffset range.endOffset = [] := by
        rw [List.eq_nil_iff_forall_not_mem]
        intro e he
        obtain ⟨hmem, _, hbelow⟩ := OffsetLog.mem_within.mp he
        exact absurd hbelow (not_lt.mpr (hall e hmem))
      rw [hnone, ReplayState.inRange, hwithin]

/-- A range only gets more records. -/
lemma Grown.length_records_le (h : Grown out args s) (range : OffsetRange) :
    (range.records out.topic).length ≤ (s.inRange range).length := by
  obtain ⟨extra, hextends, _⟩ := h range.partition
  rw [OffsetRange.records, ReplayState.inRange, List.length_map, List.length_map]
  refine List.Sublist.length_le ?_
  rw [OffsetLog.within, OffsetLog.within, OffsetLog.since, OffsetLog.since, hextends.entries]
  exact ((List.sublist_append_left _ _).filter _).filter _

/-- **What was read of the ranges that are left**, when those opened are in place: all their records,
or a part of them with the budget used up.  The induction is on the ranges left; it carries along
that as long as the budget is not used up, at least all their records were read. -/
lemma Passed.inRange (h : Passed out args dryRun s.log done parts) (hgrown : Grown out args s)
    (hbooks : Books out args dryRun s) (hplaced : AllInPlace out args dryRun done) :
    List.Forall₂ (fun range part => part <+: s.inRange range ∧ (part ≠ s.inRange range →
        budgetSpent args.maxEvents parts.flatten.length = true)) done parts ∧
      (budgetSpent args.maxEvents parts.flatten.length = false →
        (done.flatMap (OffsetRange.records out.topic)).length ≤ parts.flatten.length) := by
  induction h with
  | none => exact ⟨.nil, fun _ => le_refl _⟩
  | @more done parts range part before hopened hpart ih =>
      obtain ⟨hall, hcount⟩ := ih fun d r rest hsplit => hplaced d r (rest ++ [range]) (by
        rw [hsplit, List.append_assoc, List.cons_append])
      have hroom : budgetSpent args.maxEvents
          (done.flatMap (OffsetRange.records out.topic)).length = false := by
        rw [Bool.eq_false_iff]
        intro hspent
        rw [budgetSpent_mono hspent (hcount hopened)] at hopened
        cases hopened
      obtain ⟨full, hhanded, hpart⟩ := hpart
      have hfull := (hplaced done range [] rfl hroom).handed_eq hgrown hbooks hhanded
      rw [hfull] at hpart
      have hlength : (parts ++ [part]).flatten.length = parts.flatten.length + part.length := by
        simp
      rw [hlength]
      refine ⟨List.rel_append (hall.imp ?_) (.cons ?_ .nil), fun hunspent => ?_⟩
      · rintro r p ⟨hinitial, hspent⟩
        refine ⟨hinitial, fun hne => ?_⟩
        rw [hspent hne] at hopened
        cases hopened
      · rcases hpart with ⟨rfl, _⟩ | ⟨hinitial, hspent⟩
        · exact ⟨List.prefix_rfl, fun hne => absurd rfl hne⟩
        · exact ⟨hinitial, fun _ => hspent⟩
      · have hwhole : part = s.inRange range := by
          refine (hpart.resolve_right ?_).1
          rintro ⟨_, hspent⟩
          rw [hspent] at hunspent
          cases hunspent
        have hrecords := hgrown.length_records_le range
        have hbefore := hcount hopened
        rw [List.flatMap_append, List.length_append, List.flatMap_singleton, hwhole]
        omega

lemma AllInPlace.initial {rest : List OffsetRange}
    (h : AllInPlace out args dryRun (done ++ rest)) : AllInPlace out args dryRun done := by
  intro before range after hsplit
  exact h before range (after ++ rest) (by rw [hsplit, List.append_assoc, List.cons_append])

/-- **The accounts of a replay are exact if the ranges it opens are in place.**  Whenever it returns,
it has read at most `max_events` records, range by range a first part of the records of the range,
and less than all of them, or nothing of a range, only if the budget is used up; a dry run has sent
nothing, a live run each record it read. -/
lemma accounts_of_allInPlace (hplaced : AllInPlace out args dryRun ranges)
    (hway : UnderWay out args dryRun ranges s) (hreturned : s.control = .returned) :
    Accounts args dryRun ranges s := by
  obtain ⟨done, parts, part, hprogress⟩ := hway.progress
  have hread := hway.books.read
  have hproduced := hway.books.produced
  have hsent := hway.books.sent
  have hlength := hway.books.sent_length
  rw [hreturned] at hread hproduced
  simp only [Control.eventsRead, Control.eventsProduced, Nat.add_zero] at hread hproduced
  have hall := hprogress.read
  rw [hprogress.between (by simp [hreturned]), List.append_nil] at hall
  have hsplit : ranges = done ++ s.ranges := by
    simpa [hreturned, Control.current] using hprogress.split
  have hspent : budgetSpent args.maxEvents s.read.length = true →
      Exhausted args s.stats.eventsRead := by
    intro hspent
    cases hmax : args.maxEvents with
    | none => simp [hmax, budgetSpent] at hspent
    | some m =>
        have hle := hprogress.budget m hmax
        simp only [hmax, budgetSpent, Option.any_some, decide_eq_true_eq] at hspent
        exact ⟨m, hmax, by omega⟩
  obtain ⟨hparts, _⟩ := hprogress.left.inRange hway.grown hway.books
    (AllInPlace.initial (hsplit ▸ hplaced))
  refine ⟨?_, hread, ⟨done, s.ranges, parts, hsplit, hprogress.replayed, hall, ?_, ?_⟩, ?_, ?_⟩
  · intro m hm
    rw [hread]
    exact hprogress.budget m hm
  · refine hparts.imp ?_
    rintro range part ⟨hinitial, hcut⟩
    exact ⟨hinitial, fun hne => hspent (hall ▸ hcut hne)⟩
  · intro hrest
    exact hspent ((hprogress.ended (Or.inr hreturned)).resolve_left hrest)
  · intro hdry
    rw [hdry, if_pos rfl] at hlength
    exact ⟨List.eq_nil_of_length_eq_zero hlength, by rw [hproduced, hlength]⟩
  · intro hlive
    rw [hlive, if_neg (by simp)] at hlength hsent
    exact ⟨hsent, by rw [hproduced, hlength, hread]⟩

end Accounts

/-- Two records in every partition; no send arrives. -/
def evenOutside : Outside where
  table := .ok []
  partitionsFor := .error .attributeError
  topic :=
    { partitions := [0, 1]
      distinct := by decide
      log := fun _ => ⟨[(0, ⟨none, none, 1000⟩), (1, ⟨none, none, 2000⟩)], 2, by decide, by decide⟩ }
  cluster := fun _ => 0
  route := fun _ => 0
  clock := fun _ => 0
  delivered := fun _ => false

/-- At most two records, to a topic of its own. -/
def twoEvents : ReplayArgs where
  settings := { targetTopic := "replayed" }
  startTs := 0
  endTs := 0
  symbol := none
  maxEvents := some 2

end Ticksense
