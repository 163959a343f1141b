import Ticksense.Lib.Machine
import Ticksense.Lib.OffsetLog
import Ticksense.Replay.IcebergReader

/-!
# The replay producer

`replay/src/replay/producer.py`: records of the raw topic are read again, range by range, and in
live mode sent to the target topic.

* `resolveRanges` — the ranges of the book-ticker table, and the time lookup of Kafka
  (`kafkaTimeOffsetRanges`) when there are none.  The lookup calls a method of the consumer that may
  not exist, so that it can raise.
* `ReplayState.advance` — `run_replay` and `_replay_partition` as one machine, a step being one pass
  through one of their loops.  An `async for` over a consumer that has reached the end of the log
  waits, so the machine is not total: it advances again when a record arrives.
* `ReplayState.deliver` — what the producer does meanwhile: `await producer.send` only enqueues, and
  the broker appends later, in the order of the sends on each partition.

What the code does not decide is in `Outside`: the content of the table and of the topic, what
becomes of `consumer.partitions_for`, which cluster a bootstrap string leads to, and for each send
its partition, its time and its outcome.
-/

namespace Ticksense

/-! ## Settings and arguments -/

/-- The settings the producer reads. -/
structure Settings where
  kafkaBootstrapServers : String := "localhost:19092"
  sourceTopic : String := "market.raw.orderbook"
  targetTopic : String := "market.raw.orderbook"

/-- The arguments of `run_replay` except `dry_run`; times in microseconds. -/
structure ReplayArgs where
  settings : Settings
  startTs : ℤ
  endTs : ℤ
  symbol : Option String
  maxEvents : Option ℤ

/-- A record of the raw topic; the time in milliseconds. -/
structure Record where
  key : Option (List UInt8)
  value : Option (List UInt8)
  timestamp : ℤ
deriving DecidableEq

/-- The source topic when the replay starts: its partitions, in any order, and the log of each. -/
structure Topic where
  partitions : List ℤ
  distinct : partitions.Nodup
  log : ℤ → OffsetLog Record

/-- What the replay does not decide.  `partitionsFor` is the outcome of `consumer.partitions_for`, a
set of partitions or none.  Sends are counted from 0. -/
structure Outside where
  table : Except PyError (List IcebergRow)
  partitionsFor : Except PyError (Option (List ℤ))
  topic : Topic
  cluster : String → ℕ
  route : ℕ → ℤ
  clock : ℕ → ℤ
  delivered : ℕ → Bool

/-! ## Resolving the ranges -/

/-- `offsets_for_times`: the first offset whose record is not older. -/
def offsetsForTimes (log : OffsetLog Record) (ms : ℤ) : Option ℤ :=
  (log.entries.find? (ms ≤ ·.2.timestamp)).map (·.1)

/-- The loop body of `_kafka_time_offset_ranges`: no range, or one. -/
def timeRange (partition : ℤ) (startResult endResult : Option ℤ) : Option OffsetRange :=
  match startResult with
  | none => none
  | some startOff =>
      -- meant as the end of the log, but it is the end of all offsets
      let endOff := endResult.getD (2 ^ 63 - 1)
      if endOff ≤ startOff then none else some ⟨partition, startOff, endOff⟩

/-- `_partitions_for_topic`: `sorted(parts or [])` -/
def partitionsForTopic (partitionsFor : Except PyError (Option (List ℤ))) :
    Except PyError (List ℤ) := do
  return ((← partitionsFor).getD []).insertionSort (· ≤ ·)

/-- `_kafka_time_offset_ranges` -/
def kafkaTimeOffsetRanges (partitionsFor : Except PyError (Option (List ℤ))) (topic : Topic)
    (startTs endTs : ℤ) : Except PyError (List OffsetRange) := do
  return (← partitionsForTopic partitionsFor).filterMap fun p =>
    timeRange p (offsetsForTimes (topic.log p) (epochMs startTs))
      (offsetsForTimes (topic.log p) (epochMs endTs))

/-- The first two steps of `run_replay`: the ranges and where they come from. -/
def resolveRanges (out : Outside) (args : ReplayArgs) :
    Except PyError (String × List OffsetRange) := do
  let offsetRanges := readOffsetRange out.table args.symbol args.startTs args.endTs
  if offsetRanges ≠ [] then return ("iceberg", offsetRanges)
  else
    return ("kafka_time",
      ← kafkaTimeOffsetRanges out.partitionsFor out.topic args.startTs args.endTs)

/-- The ranges that are replayed; none if the lookup raises. -/
def plannedRanges (out : Outside) (args : ReplayArgs) : List OffsetRange :=
  match resolveRanges out args with
  | .ok (_, ranges) => ranges
  | .error _ => []

/-! ## The machine -/

/-- `ReplayStats` -/
structure ReplayStats where
  dryRun : Bool
  sourceTopic : String
  targetTopic : String
  startTs : ℤ
  endTs : ℤ
  symbol : Option String
  eventsRead : ℕ := 0
  eventsProduced : ℕ := 0
  partitionsReplayed : List ℤ := []
  offsetSource : String := "unknown"

/-- The local variables of `_replay_partition`, and the position of its consumer. -/
structure PartitionReplay where
  range : OffsetRange
  maxEvents : Option ℤ
  position : ℤ
  eventsRead : ℕ
  eventsProduced : ℕ

/-- Where the replay is: before the next range, inside one, flushing the producer, or done; or it has
raised in the time lookup. -/
inductive Control
  | next
  | reading (loop : PartitionReplay)
  | stopping
  | returned
  | raised (e : PyError)

/-- A record, with its place in the source topic. -/
structure SourceRecord where
  partition : ℤ
  offset : ℤ
  record : Record
deriving DecidableEq

/-- A message given to `producer.send`, with its number. -/
structure Send where
  index : ℕ
  key : Option (List UInt8)
  value : Option (List UInt8)
deriving DecidableEq

/-- A replay under way.  `read` and `sent` record what the loop has counted and sent; a send is
`pending` until the broker has `appended` it or has failed. -/
structure ReplayState where
  control : Control
  ranges : List OffsetRange
  log : ℤ → OffsetLog Record
  stats : ReplayStats
  read : List SourceRecord
  sent : List Send
  pending : List Send
  appended : List Send

section Machine

variable (out : Outside) (args : ReplayArgs) (dryRun : Bool)

/-- `run_replay` from its loop on, with any ranges. -/
def replayFrom (source : String) (ranges : List OffsetRange) : ReplayState where
  control := if ranges = [] then .returned else .next
  ranges := ranges
  log := out.topic.log
  stats :=
    { dryRun
      sourceTopic := args.settings.sourceTopic
      targetTopic := args.settings.targetTopic
      startTs := args.startTs
      endTs := args.endTs
      symbol := args.symbol
      offsetSource := source }
  read := []
  sent := []
  pending := []
  appended := []

/-- `run_replay` up to its loop. -/
def replayStart : ReplayState :=
  match resolveRanges out args with
  | .error e => { replayFrom out args dryRun "unknown" [] with control := .raised e }
  | .ok (source, ranges) => replayFrom out args dryRun source ranges

/-- Either the lookup has raised, or the loop begins with the ranges. -/
lemma replayStart_cases :
    (∃ e, replayStart out args dryRun
        = { replayFrom out args dryRun "unknown" [] with control := .raised e } ∧
      plannedRanges out args = []) ∨
      ∃ source, replayStart out args dryRun
        = replayFrom out args dryRun source (plannedRanges out args) := by
  rw [replayStart, plannedRanges]
  cases resolveRanges out args with
  | error e => exact Or.inl ⟨e, rfl, rfl⟩
  | ok r => exact Or.inr ⟨r.1, rfl⟩

@[simp] lemma replayStart_log : (replayStart out args dryRun).log = out.topic.log := by
  rw [replayStart]
  split <;> rfl

@[simp] lemma replayStart_read : (replayStart out args dryRun).read = [] := by
  rw [replayStart]
  split <;> rfl

@[simp] lemma replayStart_pending : (replayStart out args dryRun).pending = [] := by
  rw [replayStart]
  split <;> rfl

@[simp] lemma replayStart_appended : (replayStart out args dryRun).appended = [] := by
  rw [replayStart]
  split <;> rfl

lemma replayStart_ranges : (replayStart out args dryRun).ranges = plannedRanges out args := by
  rcases replayStart_cases out args dryRun with ⟨e, heq, hnone⟩ | ⟨source, heq⟩
  · rw [heq, hnone]
    rfl
  · rw [heq]
    rfl

/-- A replay that starts has not opened a partition. -/
lemma replayStart_control (loop : PartitionReplay) :
    (replayStart out args dryRun).control ≠ .reading loop := by
  rcases replayStart_cases out args dryRun with ⟨e, heq, _⟩ | ⟨source, heq⟩
  · rw [heq]
    exact Control.noConfusion
  · rw [heq, replayFrom]
    split_ifs <;> exact Control.noConfusion

/-- `await producer.send(target_topic, value=record.value, key=record.key)` -/
def ReplayState.send (s : ReplayState) (record : Record) : ReplayState :=
  { s with
    sent := s.sent ++ [⟨s.sent.length, record.key, record.value⟩]
    pending := s.pending ++ [⟨s.sent.length, record.key, record.value⟩] }

/-- The two stop conditions of the consumer loop, in their order. -/
def PartitionReplay.stops (loop : PartitionReplay) (offset : ℤ) : Bool :=
  if loop.range.endOffset ≤ offset then true
  else
    match loop.maxEvents with
    | some maxEvents => maxEvents ≤ loop.eventsRead
    | none => false

/-- The loop has left a range. -/
def ReplayState.leave (s : ReplayState) (loop : PartitionReplay) : ReplayState :=
  { s with
    control := .next
    stats :=
      { s.stats with
        eventsRead := s.stats.eventsRead + loop.eventsRead
        eventsProduced := s.stats.eventsProduced + loop.eventsProduced
        partitionsReplayed := s.stats.partitionsReplayed ++ [loop.range.partition] } }

/-- A record is counted, and in live mode sent. -/
def ReplayState.count (s : ReplayState) (loop : PartitionReplay) (offset : ℤ) (record : Record) :
    ReplayState :=
  let loop := { loop with position := offset + 1, eventsRead := loop.eventsRead + 1 }
  let s : ReplayState := { s with read := s.read ++ [⟨loop.range.partition, offset, record⟩] }
  if dryRun then { s with control := .reading loop }
  else
    { s.send record with
      control := .reading { loop with eventsProduced := loop.eventsProduced + 1 } }

/-- The next pass through a loop of `run_replay` or `_replay_partition`; none while it waits and
when it has returned or raised. -/
def ReplayState.advance (s : ReplayState) : Option ReplayState :=
  match s.control with
  | .next =>
      match s.ranges with
      | [] => some { s with control := .stopping }
      | range :: rest =>
          let remaining := args.maxEvents.map fun maxEvents => maxEvents - (s.stats.eventsRead : ℤ)
          if remaining.any (· ≤ 0) then some { s with control := .stopping }
          else
            some { s with
              control := .reading ⟨range, remaining, range.startOffset, 0, 0⟩
              ranges := rest }
  | .reading loop =>
      match (s.log loop.range.partition).fetch loop.position with
      | none => none
      | some (offset, record) =>
          if loop.stops offset then some (s.leave loop)
          else some (s.count dryRun loop offset record)
  -- `producer.stop()` flushes
  | .stopping => if s.pending = [] then some { s with control := .returned } else none
  | .returned => none
  | .raised _ => none

/-- What is sent to the target topic arrives in the source topic.  The producer is built with
`bootstrap_servers=settings.target_topic`. -/
def loopsBack : Bool :=
  args.settings.targetTopic = args.settings.sourceTopic &&
    out.cluster args.settings.targetTopic = out.cluster args.settings.kafkaBootstrapServers

/-- The record that the broker appends for a send. -/
def Send.record (m : Send) : Record :=
  ⟨m.key, m.value, out.clock m.index⟩

/-- The broker has appended a send, or failed to. -/
def ReplayState.handled (s : ReplayState) (m : Send) : ReplayState :=
  if out.delivered m.index then
    { s with
      pending := s.pending.erase m
      appended := s.appended ++ [m]
      log :=
        if loopsBack out args then
          Function.update s.log (out.route m.index)
            ((s.log (out.route m.index)).append (m.record out))
        else s.log }
  else { s with pending := s.pending.erase m }

/-- The broker handles a pending send, if it is the first of its partition. -/
def ReplayState.deliver (s : ReplayState) (m : Send) : Option ReplayState :=
  if m ∈ s.pending ∧
      ∀ m' ∈ s.pending, m'.index < m.index → out.route m'.index ≠ out.route m.index then
    some (s.handled out args m)
  else none

/-- A step of the replay, or of the broker. -/
inductive ReplayStep : ReplayState → ReplayState → Prop
  | advance {s t : ReplayState} (h : s.advance args dryRun = some t) : ReplayStep s t
  | deliver {s t : ReplayState} (m : Send) (h : s.deliver out args m = some t) : ReplayStep s t

/-- The states of a replay. -/
def ReplayReaches (s : ReplayState) : Prop :=
  Machine.Reaches (ReplayStep out args dryRun) (replayStart out args dryRun) s

end Machine

end Ticksense
