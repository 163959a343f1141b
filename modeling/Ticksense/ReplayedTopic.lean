import Ticksense.Flink.Recovery
import Ticksense.Replay.LiveRun

/-!
# The normalize job under live replays

The raw topic has two writers: the ingest service, and every live replay, whose target topic is by
default the raw topic itself.  Any number of replays run at once, while messages arrive; each reads
the topic as it is by then, with the copies of its own and of others, and can be killed at any point.

* `RawTopic.Step` — all that happens to the topic, in any order.  What connects the writers is that
  the messages of a key go into one partition.
* `Copied` — the invariant: a partition is what was written to it, and copies behind what they are
  copies of.
* `replays_leave_no_trace` — the normalize job over this topic, with any payloads and under failures,
  has saved and committed what it could have over the topic without the copies.
-/

namespace Ticksense

open Checkpoint Transducer

/-! ## The topic -/

/-- A replay under way.  The log it reads is that of the topic, not the one in its state. -/
structure RunningReplay where
  out : Outside
  args : ReplayArgs
  dryRun : Bool
  state : ReplayState

/-- The raw topic: its partitions, what was written to it that is no copy, in order, and the replays
under way. -/
structure RawTopic (κ : Type) where
  logs : ℤ → OffsetLog Record
  written : List SourceRecord
  replays : κ → Option RunningReplay

variable {κ : Type}

def RawTopic.empty : RawTopic κ := ⟨fun _ => .empty, [], fun _ => none⟩

/-- The entries of a partition. -/
def RawTopic.entriesIn (topic : RawTopic κ) (p : ℤ) : List SourceRecord :=
  (topic.logs p).entries.map fun e => ⟨p, e.1, e.2⟩

/-- What was written to a partition. -/
def RawTopic.writtenIn (topic : RawTopic κ) (p : ℤ) : List SourceRecord :=
  topic.written.filter fun r => r.partition = p

/-- A message is appended to a partition. -/
def RawTopic.write (topic : RawTopic κ) (p : ℤ) (r : Record) : RawTopic κ :=
  { topic with
    logs := Function.update topic.logs p ((topic.logs p).append r)
    written := topic.written ++ [⟨p, (topic.logs p).logEnd, r⟩] }

variable [DecidableEq κ]

/-- What becomes of the topic when one of the replays is in the next state. -/
def RawTopic.proceed (topic : RawTopic κ) (i : κ) (replay : RunningReplay) (t : ReplayState) :
    RawTopic κ :=
  { topic with
    logs := t.log
    replays := Function.update topic.replays i (some { replay with state := t }) }

/-- One event. -/
inductive RawTopic.Step (partitionOf : Option (List UInt8) → ℤ) : RawTopic κ → RawTopic κ → Prop
  /-- the service writes a message -/
  | write (topic : RawTopic κ) (r : Record) : Step partitionOf topic (topic.write (partitionOf r.key) r)
  /-- a replay starts on the topic as it is -/
  | start (topic : RawTopic κ) (i : κ) (out : Outside) (args : ReplayArgs) (dryRun : Bool)
      (htopic : out.topic.log = topic.logs) :
      Step partitionOf topic { topic with
        replays := Function.update topic.replays i
          (some ⟨out, args, dryRun, replayStart out args dryRun⟩) }
  /-- a replay reads and sends, or a message of its arrives in the partition of the key -/
  | go {topic : RawTopic κ} {i : κ} {replay : RunningReplay} {t : ReplayState}
      (hreplay : topic.replays i = some replay)
      (hstep : ReplayStep replay.out replay.args replay.dryRun
        { replay.state with log := topic.logs } t)
      (hroute : ∀ m ∈ t.sent, replay.out.route m.index = partitionOf m.key) :
      Step partitionOf topic (topic.proceed i replay t)
  /-- a replay is over, or killed -/
  | stop (topic : RawTopic κ) (i : κ) :
      Step partitionOf topic { topic with replays := Function.update topic.replays i none }

/-! ## Copies -/

/-- One record has the value of another one. -/
def SameValue (r c : SourceRecord) : Prop := c.record.value = r.record.value

omit [DecidableEq κ] in
lemma entriesIn_append {topic topic' : RawTopic κ} {p : ℤ} {r : Record}
    (h : topic'.logs = Function.update topic.logs p ((topic.logs p).append r)) (q : ℤ) :
    topic'.entriesIn q
      = topic.entriesIn q ++ if q = p then [⟨p, (topic.logs p).logEnd, r⟩] else [] := by
  rw [RawTopic.entriesIn, RawTopic.entriesIn, h]
  by_cases hq : q = p
  · subst hq
    simp [OffsetLog.append]
  · simp [hq]

/-- What a replay has read stands in the topic, and its books agree. -/
structure RunningReplay.Faithful (topic : RawTopic κ) (replay : RunningReplay) : Prop where
  books : Books replay.out replay.args replay.dryRun replay.state
  read : ∀ r ∈ replay.state.read, r ∈ topic.entriesIn r.partition

/-- **The invariant of the topic**: a key has one partition; behind what was written there are
copies of it; and the replays are faithful. -/
structure RawTopic.Copied (partitionOf : Option (List UInt8) → ℤ) (topic : RawTopic κ) : Prop where
  filed : ∀ p, ∀ r ∈ topic.entriesIn p, partitionOf r.record.key = p
  copies : ∀ p, WithCopies SameValue [] (topic.writtenIn p) (topic.entriesIn p)
  replays : ∀ i, ∀ replay ∈ topic.replays i, replay.Faithful topic

/-- A message was sent for a record that was read. -/
lemma exists_read_of_sent {out : Outside} {args : ReplayArgs} {dryRun : Bool} {s : ReplayState}
    (h : Books out args dryRun s) {m : Send} (hm : m ∈ s.sent) :
    ∃ r ∈ s.read, r.record.key = m.key ∧ r.record.value = m.value := by
  have hpayload := List.mem_map_of_mem (f := Send.payload) hm
  rw [h.sent] at hpayload
  split_ifs at hpayload with hdry
  · cases hpayload
  · obtain ⟨r, hr, heq⟩ := List.mem_map.mp hpayload
    obtain ⟨hkey, hvalue⟩ := Prod.mk.inj heq
    exact ⟨r, hr, hkey, hvalue⟩

/-- What one step of a replay does to the log: nothing, and what it reads stands in the log; or a
message that was sent is appended, and nothing is read. -/
lemma replayStep_log {out : Outside} {args : ReplayArgs} {dryRun : Bool} {s t : ReplayState}
    (hbooks : Books out args dryRun s) (h : ReplayStep out args dryRun s t) :
    (t.log = s.log ∧ ∀ r ∈ t.read, r ∈ s.read ∨
        (r.offset, r.record) ∈ (s.log r.partition).entries) ∨
      t.read = s.read ∧ ∃ m ∈ s.sent, m ∈ t.sent ∧ t.log = Function.update s.log (out.route m.index)
        ((s.log (out.route m.index)).append (m.record out)) := by
  cases h with
  | advance hadvance =>
      refine Or.inl ?_
      cases advance_eq_some_iff.mp hadvance with
      | count loop offset record hcontrol hfetch hstops =>
          rw [OffsetLog.fetch_eq_head?] at hfetch
          have hmem := OffsetLog.mem_entries_of_unread (List.mem_of_head? hfetch)
          have hread : ∀ r ∈ (s.count dryRun loop offset record).read, r ∈ s.read ∨
              (r.offset, r.record) ∈ (s.log r.partition).entries := by
            intro r hr
            have hr : r ∈ s.read ++ [⟨loop.range.partition, offset, record⟩] := by
              cases dryRun <;> exact hr
            rcases List.mem_append.mp hr with hr | hr
            · exact Or.inl hr
            · rw [List.mem_singleton.mp hr]
              exact Or.inr hmem
          exact ⟨by cases dryRun <;> rfl, hread⟩
      | _ => exact ⟨rfl, fun r hr => Or.inl hr⟩
  | deliver m hdeliver =>
      obtain ⟨hm, _, rfl⟩ := deliver_eq_some_iff.mp hdeliver
      have hsent := hbooks.enqueued m (Or.inl hm)
      rw [ReplayState.handled]
      split_ifs with hdelivered hback
      · exact Or.inr ⟨rfl, m, hsent, hsent, rfl⟩
      · exact Or.inl ⟨rfl, fun r hr => Or.inl hr⟩
      · exact Or.inl ⟨rfl, fun r hr => Or.inl hr⟩

section Invariant

variable {partitionOf : Option (List UInt8) → ℤ} {topic topic' : RawTopic κ}

omit [DecidableEq κ] in
lemma RunningReplay.Faithful.mono {replay : RunningReplay} (h : replay.Faithful topic)
    (hgrown : ∀ p, ∀ r ∈ topic.entriesIn p, r ∈ topic'.entriesIn p) : replay.Faithful topic' :=
  ⟨h.books, fun r hr => hgrown r.partition r (h.read r hr)⟩

/-- One replay is another, the rest are as they were. -/
lemma RawTopic.Copied.setReplay (h : topic.Copied partitionOf) (i : κ)
    (hgrown : ∀ p, ∀ r ∈ topic.entriesIn p, r ∈ topic'.entriesIn p) {replay : Option RunningReplay}
    (hfaithful : ∀ replay' ∈ replay, replay'.Faithful topic')
    (hreplays : topic'.replays = Function.update topic.replays i replay) :
    ∀ j, ∀ replay' ∈ topic'.replays j, replay'.Faithful topic' := by
  intro j replay' hreplay'
  rw [hreplays] at hreplay'
  by_cases hj : j = i
  · subst hj
    rw [Function.update_self] at hreplay'
    exact hfaithful replay' hreplay'
  · rw [Function.update_of_ne hj] at hreplay'
    exact (h.replays j replay' hreplay').mono hgrown

omit [DecidableEq κ] in
/-- A message of the service. -/
lemma RawTopic.Copied.write (h : topic.Copied partitionOf) (r : Record) :
    (topic.write (partitionOf r.key) r).Copied partitionOf := by
  have hentries : ∀ q, (topic.write (partitionOf r.key) r).entriesIn q = _ := entriesIn_append rfl
  have hwritten : ∀ q, (topic.write (partitionOf r.key) r).writtenIn q = topic.writtenIn q ++
      if q = partitionOf r.key then
        [⟨partitionOf r.key, (topic.logs (partitionOf r.key)).logEnd, r⟩] else [] := by
    intro q
    rw [writtenIn, writtenIn, RawTopic.write, List.filter_append]
    by_cases hq : q = partitionOf r.key
    · simp [hq]
    · simp [hq, Ne.symm hq]
  refine ⟨fun q r' hr' => ?_, fun q => ?_, fun i replay hreplay => ?_⟩
  · rw [hentries] at hr'
    rcases List.mem_append.mp hr' with hr' | hr'
    · exact h.filed q r' hr'
    · split_ifs at hr' with hq
      · rw [List.mem_singleton.mp hr']
        exact hq.symm
      · cases hr'
  · rw [hentries, hwritten]
    split_ifs with hq
    · exact (h.copies q).append_original _
    · simpa using h.copies q
  · refine (h.replays i replay hreplay).mono fun q r' hr' => ?_
    rw [hentries]
    exact List.mem_append_left _ hr'

/-- A step of a replay. -/
lemma RawTopic.Copied.go (h : topic.Copied partitionOf) {i : κ} {replay : RunningReplay}
    {t : ReplayState} (hreplay : topic.replays i = some replay)
    (hstep : ReplayStep replay.out replay.args replay.dryRun
      { replay.state with log := topic.logs } t)
    (hroute : ∀ m ∈ t.sent, replay.out.route m.index = partitionOf m.key) :
    (topic.proceed i replay t).Copied partitionOf := by
  have hfaithful := h.replays i replay hreplay
  have hbooks : Books replay.out replay.args replay.dryRun
      { replay.state with log := topic.logs } := { hfaithful.books with }
  have hbooks' := hbooks.step hstep
  rcases replayStep_log hbooks hstep with ⟨hlog, hread⟩ | ⟨hread, m, hsent, hsent', hlog⟩
  · have hentries : ∀ p, (topic.proceed i replay t).entriesIn p = topic.entriesIn p := by
      intro p
      rw [entriesIn, proceed, hlog, entriesIn]
    refine ⟨fun p r hr => ?_, fun p => ?_, h.setReplay i (fun p r hr => ?_) ?_ rfl⟩
    · rw [hentries] at hr
      exact h.filed p r hr
    · rw [hentries]
      exact h.copies p
    · rwa [hentries]
    · rintro _ ⟨⟩
      refine ⟨hbooks', fun r hr => ?_⟩
      rw [hentries]
      rcases hread r hr with hr | hr
      · exact hfaithful.read r hr
      · exact List.mem_map.mpr ⟨_, hr, rfl⟩
  · -- the message is a copy of a record of the same partition
    obtain ⟨r, hr, hkey, hvalue⟩ := exists_read_of_sent hbooks hsent
    have hr := hfaithful.read r hr
    have hpartition : r.partition = replay.out.route m.index := by
      rw [hroute m hsent', ← hkey]
      exact (h.filed _ r hr).symm
    have hentries : ∀ p, (topic.proceed i replay t).entriesIn p = _ := entriesIn_append hlog
    have hgrown : ∀ p, ∀ r ∈ topic.entriesIn p, r ∈ (topic.proceed i replay t).entriesIn p := by
      intro p r hr
      rw [hentries]
      exact List.mem_append_left _ hr
    refine ⟨fun p r' hr' => ?_, fun p => ?_, h.setReplay i hgrown ?_ rfl⟩
    · rw [hentries] at hr'
      rcases List.mem_append.mp hr' with hr' | hr'
      · exact h.filed p r' hr'
      · split_ifs at hr' with hp
        · rw [List.mem_singleton.mp hr', hp]
          exact (hroute m hsent').symm
        · cases hr'
    · rw [hentries]
      split_ifs with hp
      · subst hp
        rw [← hpartition]
        rcases (h.copies r.partition).mem hr with horiginal | ⟨o, ho, hcopy⟩
        · exact (h.copies _).append_copied (Or.inl horiginal) hvalue.symm
        · exact (h.copies _).append_copied ho (hvalue.symm.trans hcopy)
      · rw [List.append_nil]
        exact h.copies p
    · rintro _ ⟨⟩
      refine ⟨hbooks', fun r' hr' => ?_⟩
      have hr' : r' ∈ replay.state.read := by
        rw [← show t.read = replay.state.read from hread]
        exact hr'
      exact hgrown _ r' (hfaithful.read r' hr')

/-- **One event** keeps the topic a topic with copies. -/
lemma RawTopic.Copied.step (h : topic.Copied partitionOf)
    (hstep : RawTopic.Step partitionOf topic topic') : topic'.Copied partitionOf := by
  cases hstep with
  | write r => exact h.write r
  | start i out args dryRun htopic =>
      refine ⟨h.filed, h.copies, h.setReplay i (fun _ _ hr => hr) ?_ rfl⟩
      rintro _ ⟨⟩
      exact ⟨.start, by simp⟩
  | go hreplay hstep hroute => exact h.go hreplay hstep hroute
  | stop i => exact ⟨h.filed, h.copies, h.setReplay i (fun _ _ hr => hr) (by simp) rfl⟩

/-- **Any run of the topic.** -/
theorem RawTopic.copied_of_reaches
    (h : Machine.Reaches (RawTopic.Step partitionOf) RawTopic.empty topic) :
    topic.Copied partitionOf :=
  Machine.invariant (P := RawTopic.Copied partitionOf) (fun _ _ h hstep => h.step hstep)
    ⟨by simp [entriesIn, empty, OffsetLog.empty], fun _ => .nil, by simp [empty]⟩ h

end Invariant

/-! ## The job -/

/-- A record of the topic as the source of the job hands it over. -/
def SourceRecord.row (decode : Option (List UInt8) → Payload) (r : SourceRecord) : KafkaRow :=
  ⟨decode r.record.value, r.partition, r.offset⟩

/-- One record has the payload of another one. -/
def SameText (a c : KafkaRow) : Prop := c.payload = a.payload

/-- The log has the records of each partition in order. -/
def RawTopic.IsLog (topic : RawTopic κ) (decode : Option (List UInt8) → Payload)
    (log : List KafkaRow) : Prop :=
  ∀ p, log.filter (fun a => a.partition = p) = (topic.entriesIn p).map (SourceRecord.row decode)

/-- A record of which a copy was read changes nothing, whatever it is. -/
lemma normalizeJob_withCopies {render : Json → String} {Admits : Element → Prop}
    {es es' : List Element}
    (h : WithCopies ((normalizeJob render Admits).CopyOf SameText) [] es es')
    (s : String → ProcessorState) :
    run (normalizeJob render Admits).step s es' = run (normalizeJob render Admits).step s es := by
  have htext : ∀ e c, (normalizeJob render Admits).CopyOf SameText e c → SamePayload e c := by
    rintro e c ⟨_, ⟨⟩, _, ⟨⟩, hsame⟩
    exact hsame
  show run (keyed (fun e : Element => kafkaKey render e.record)
      fun s e => processElement s e.record e.clock) s es'
    = run (keyed (fun e : Element => kafkaKey render e.record)
      fun s e => processElement s e.record e.clock) s es
  refine run_keyed_withCopies
    (fun s e => ∃ id, messageId e.record.payload = .ok id ∧ Covers s id) ?_ ?_ ?_ ?_ h s
  · intro s e s' rows hstep
    exact (processElement_absorbs hstep).1
  · rintro s e s' rows c ⟨id, hid, hcovers⟩ hstep
    exact ⟨id, hid, (processElement_absorbs hstep).2 id hcovers⟩
  · rintro s e c ⟨id, hid, hcovers⟩ hcopy
    refine processElement_stale ?_ hcovers c.clock
    rw [htext e c hcopy]
    exact hid
  · exact fun e c hcopy => kafkaKey_congr render (htext e c hcopy)

/-- **Replays leave no trace.**  Messages are written to the raw topic, with any values, while any
number of replays run on it, read each other's copies and their own, and are killed; the normalize
job reads this topic, fails and is restored.  Then the state it has saved and the rows in the table
and prepared for it are those of a run without failures over what was written, without the copies;
so is every row of its topic; and at the end of the topic it has all that was written. -/
theorem replays_leave_no_trace {partitionOf : Option (List UInt8) → ℤ} {topic : RawTopic κ}
    (htopic : Machine.Reaches (RawTopic.Step partitionOf) RawTopic.empty topic)
    (decode : Option (List UInt8) → Payload) (render : Json → String) {Admits : Element → Prop}
    {log₀ : List KafkaRow} {sys : System ℤ KafkaRow (String → ProcessorState) BookTickerRow}
    (hjob : Machine.Reaches (Step (normalizeJob render Admits))
      (System.fresh (normalizeJob render Admits) log₀) sys)
    (hlog : topic.IsLog decode sys.log) :
    (∃ position : ℤ → ℕ,
      Computes (normalizeJob render Admits) (topic.written.map (SourceRecord.row decode))
        ⟨position, sys.saved.state⟩ (sys.table ++ sys.prepared) ∧
      (sys.saved.AtEnd (normalizeJob render Admits) sys.log → ∀ p,
        position p = (topic.writtenIn p).length)) ∧
    ∀ row ∈ sys.topic, ∃ snapshot rows,
      Computes (normalizeJob render Admits) (topic.written.map (SourceRecord.row decode))
        snapshot rows ∧ row ∈ rows := by
  have hwritten : ∀ p, (normalizeJob render Admits).inPartition p
      (topic.written.map (SourceRecord.row decode))
        = (topic.writtenIn p).map (SourceRecord.row decode) := by
    intro p
    rw [Job.inPartition, List.filter_map]
    rfl
  have hcopies : ∀ p, WithCopies SameText []
      ((normalizeJob render Admits).inPartition p (topic.written.map (SourceRecord.row decode)))
      ((normalizeJob render Admits).inPartition p sys.log) := by
    intro p
    have hentries : (normalizeJob render Admits).inPartition p sys.log
        = (topic.entriesIn p).map (SourceRecord.row decode) := hlog p
    rw [hwritten, hentries]
    refine WithCopies.map ?_ ((RawTopic.copied_of_reaches htopic).copies p)
    intro r c hsame
    exact congrArg decode hsame
  have hrun : ∀ es es', WithCopies ((normalizeJob render Admits).CopyOf SameText) [] es es' →
      run (normalizeJob render Admits).step (normalizeJob render Admits).start es'
        = run (normalizeJob render Admits).step (normalizeJob render Admits).start es :=
    fun _ _ h => normalizeJob_withCopies h _
  have hconsistent := consistent_of_reaches hjob
  refine ⟨?_, fun row hrow => ?_⟩
  · obtain ⟨position, hcomputes, hend⟩ := hconsistent.saved.withoutCopies (fun _ => rfl) hrun hcopies
    refine ⟨position, hcomputes, fun hatEnd p => ?_⟩
    rw [hend hatEnd p, hwritten, List.length_map]
  · obtain ⟨snapshot, rows, hcomputes, hmem⟩ := hconsistent.computed row hrow
    obtain ⟨position, hcomputes, _⟩ := hcomputes.withoutCopies (fun _ => rfl) hrun hcopies
    exact ⟨_, rows, hcomputes, hmem⟩

/-- A replay that goes on alone, with all keys in one partition. -/
lemma RawTopic.reaches_replay {p : ℤ} {out : Outside} (hroute : ∀ n, out.route n = p)
    {args : ReplayArgs} {dryRun : Bool} {s t : ReplayState}
    (h : Machine.Reaches (ReplayStep out args dryRun) s t) (topic : RawTopic κ) {i : κ}
    (hreplay : topic.replays i = some ⟨out, args, dryRun, s⟩) (hlogs : topic.logs = s.log) :
    ∃ topic', Machine.Reaches (RawTopic.Step fun _ => p) topic topic' ∧
      topic'.written = topic.written ∧ topic'.logs = t.log ∧
      topic'.replays i = some ⟨out, args, dryRun, t⟩ := by
  induction h with
  | refl => exact ⟨topic, .refl, rfl, hlogs, hreplay⟩
  | @tail s t _ hstep ih =>
      obtain ⟨topic', hreach, hwritten, hlogs', hreplay'⟩ := ih
      have hgo : RawTopic.Step (fun _ => p) topic'
          (topic'.proceed i ⟨out, args, dryRun, s⟩ t) := by
        refine .go hreplay' ?_ fun m _ => hroute m.index
        rw [hlogs']
        exact hstep
      exact ⟨_, hreach.tail hgo, hwritten, rfl, Function.update_self _ _ _⟩

/-- The sample topic with a copy of its record. -/
lemma log_sampleCopy :
    ((replayStart sampleOutside sampleArgs false).runFor sampleOutside sampleArgs false 3).log
      = Function.update sampleTopic.log 0
          ((sampleTopic.log 0).append ⟨none, some [1], 2000⟩) := by
  rfl

/-- A replay of the sample topic whose first copy has come back. -/
lemma reaches_sampleCopy :
    ∃ topic : RawTopic Unit,
      Machine.Reaches (RawTopic.Step fun _ => 0) RawTopic.empty topic ∧
      topic.written = [⟨0, 0, ⟨none, some [1], 1000⟩⟩] ∧
      topic.entriesIn 0 = [⟨0, 0, ⟨none, some [1], 1000⟩⟩, ⟨0, 1, ⟨none, some [1], 2000⟩⟩] ∧
      ∀ p, p ≠ 0 → topic.entriesIn p = [] := by
  let topic₀ : RawTopic Unit := RawTopic.empty.write 0 ⟨none, some [1], 1000⟩
  let topic₁ : RawTopic Unit := { topic₀ with
    replays := Function.update topic₀.replays ()
      (some ⟨sampleOutside, sampleArgs, false, replayStart sampleOutside sampleArgs false⟩) }
  have hlogs : sampleOutside.topic.log = topic₀.logs := by
    funext p
    by_cases hp : p = 0
    · subst hp
      rfl
    · simp [topic₀, sampleOutside, sampleTopic, RawTopic.write, RawTopic.empty, hp]
  have hwrite : RawTopic.Step (fun _ => 0) RawTopic.empty topic₀ := .write RawTopic.empty _
  have hstart : RawTopic.Step (fun _ => 0) topic₀ topic₁ :=
    .start topic₀ () sampleOutside sampleArgs false hlogs
  have hreplay : topic₁.replays () = some
      ⟨sampleOutside, sampleArgs, false, replayStart sampleOutside sampleArgs false⟩ := by
    simp [topic₁]
  obtain ⟨topic, hreach, hwritten, htopic, _⟩ := RawTopic.reaches_replay (p := 0) (fun _ => rfl)
    (reaches_runFor sampleOutside sampleArgs false 3 _) topic₁ hreplay hlogs.symm
  rw [log_sampleCopy] at htopic
  refine ⟨topic, ((Relation.ReflTransGen.single hwrite).tail hstart).trans hreach, hwritten, ?_, ?_⟩
  · rw [RawTopic.entriesIn, htopic]
    rfl
  · intro p hp
    rw [RawTopic.entriesIn, htopic, Function.update_of_ne hp]
    simp [sampleTopic, hp, OffsetLog.empty]

theorem replays_leave_no_trace_sample :
    ∃ (topic : RawTopic Unit) (decode : Option (List UInt8) → Payload)
      (sys : System ℤ KafkaRow (String → ProcessorState) BookTickerRow) (position : ℤ → ℕ),
      (topic.entriesIn 0).length = 2 ∧ topic.written.length = 1 ∧
      (sys.table ++ sys.prepared).length = 1 ∧
      Computes (normalizeJob (fun _ => "") fun _ => True)
        (topic.written.map (SourceRecord.row decode)) ⟨position, sys.saved.state⟩
        (sys.table ++ sys.prepared) := by
  let d := deliveryOf sampleMessage rfl rfl 0 5
  let d' := deliveryOf sampleMessage rfl rfl 1 6
  obtain ⟨topic, htopic, hwritten, hentries, hothers⟩ := reaches_sampleCopy
  obtain ⟨sys, hjob, hlog, _, _, hprepared, htable, _⟩ := read_fail_read (fun _ => "")
    (fun _ => True) [d] [d, d'] (show [d.record, d'.record] = [d.record] ++ [d'.record] from rfl)
    rfl (fun _ _ => trivial) (fun _ _ => trivial)
  have hisLog : topic.IsLog (fun _ => d.record.payload) sys.log := by
    intro p
    by_cases hp : p = 0
    · subst hp
      rw [hlog, hentries]
      rfl
    · rw [hlog, hothers p hp]
      rw [List.map_nil, List.filter_eq_nil_iff]
      intro a ha
      have hzero : a.partition = 0 := by
        rcases List.mem_cons.mp ha with rfl | ha
        · rfl
        · rw [List.mem_singleton.mp ha]
          rfl
      simpa [hzero] using Ne.symm hp
  obtain ⟨⟨position, hcomputes, _⟩, _⟩ :=
    replays_leave_no_trace htopic (fun _ => d.record.payload) (fun _ => "") hjob hisLog
  refine ⟨topic, _, sys, position, ?_, ?_, ?_, hcomputes⟩
  · rw [hentries]
    rfl
  · rw [hwritten]
    rfl
  · rw [hprepared, htable, List.append_nil]
    decide +kernel

end Ticksense
