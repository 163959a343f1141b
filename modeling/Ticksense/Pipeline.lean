import Ticksense.EndToEnd
import Ticksense.Flink.TopicRows
import Ticksense.Ingest.Service

/-!
# The ingest service and the normalize job together

The service writes the raw topic, with the symbol in the key, and the broker puts all messages of a
key into one partition.  The job reads the partitions and is restored when it fails.  Both run under
any interleaving of their own; what connects them is the topic.

* `IsWritten` — a record of the raw topic and the message it was written for.
* `written_of_symbol` — the records that the job routes to the key of a symbol are those of the
  messages that the client of this symbol had appended, in order.
* `rows_of_symbol` — so the rows of a symbol in the table are those of the pure operator on what its
  client has published, up to some point, and behind the whole topic on all of it; the other
  clients and all failures leave no trace.
-/

namespace Ticksense

open Checkpoint

/-- A record of the raw topic and the message it was written for: the broker chooses the partition
by the key, and the value is the JSON text of the event. -/
structure IsWritten (partitionOf : String → ℤ) (m : RawMessage) (record : KafkaRow) : Prop where
  partition : record.partition = partitionOf m.key
  carries : ∃ d : Delivery, d.record = record ∧ IsRecordOf m.event d

/-- What a client has published: the messages it had appended to the raw topic. -/
def ClientState.published (c : ClientState) : List RawMessage :=
  c.handed.flatMap fun h => h.produced.raw

/-- The element is a message, read at any time. -/
def Carried (e : Element) : Prop := ∃ d : Delivery, d.element = e

lemma IsRecordOf.congr {out : OrderBookEvent} {d d' : Delivery} (h : IsRecordOf out d)
    (hm : d.message = d'.message) : IsRecordOf out d' :=
  ⟨hm ▸ h.eventId, hm ▸ h.exchange, hm ▸ h.symbol, hm ▸ h.exchangeEventMs, hm ▸ h.ingestMs,
    hm ▸ h.firstUpdateId, hm ▸ h.lastUpdateId, hm ▸ h.bids, hm ▸ h.asks⟩

/-- Whenever the record is read, it carries the event. -/
lemma IsWritten.isRecordOf {partitionOf : String → ℤ} {m : RawMessage} {d : Delivery}
    (h : IsWritten partitionOf m d.record) : IsRecordOf m.event d := by
  obtain ⟨d', hrecord, hevent⟩ := h.carries
  exact hevent.congr (Delivery.message_eq hrecord)

/-- The job routes the record by the key of the message. -/
lemma IsWritten.kafkaKey {partitionOf : String → ℤ} {m : RawMessage} {record : KafkaRow}
    (h : IsWritten partitionOf m record)
    (hkeyed : m.key = m.event.exchange ++ "#" ++ m.event.symbol) (render : Json → String) :
    kafkaKey render record = .ok m.key := by
  obtain ⟨d, rfl, hevent⟩ := h.carries
  rw [kafkaKey_eq, DepthMessage.key, hevent.exchange, hevent.symbol, hkeyed]

/-- Every record was written for a message. -/
lemma exists_message {partitionOf : String → ℤ} {raw : List RawMessage} {log : List KafkaRow}
    (h : List.Forall₂ (IsWritten partitionOf) raw log) {a : KafkaRow} (ha : a ∈ log) :
    ∃ m ∈ raw, IsWritten partitionOf m a := by
  induction h with
  | nil => cases ha
  | @cons m b raw log hb _ ih =>
      rcases List.mem_cons.mp ha with rfl | ha
      · exact ⟨m, List.mem_cons_self, hb⟩
      · obtain ⟨m', hm', hwritten⟩ := ih ha
        exact ⟨m', List.mem_cons_of_mem m hm', hwritten⟩

/-- The rows of a key in a run that gave these rows. -/
lemma filter_rows_of_run (render : Json → String) (key : String) {ds : List Delivery}
    {s : String → ProcessorState} {rows : List BookTickerRow}
    (h : Transducer.runPure normalizeStep noState ds = (s, rows)) :
    rows.filter (fun row => row.key render = key)
      = (Transducer.runPure ProcessorState.step ProcessorState.empty (ofKey key ds)).2 := by
  have hrows : (Transducer.runPure normalizeStep noState ds).2 = rows := congrArg Prod.snd h
  rw [← hrows]
  exact rows_of_key render ds key

section Service

variable {κ : Type} {symbol : κ → String} {σ : Service κ} {partitionOf : String → ℤ}
  {log : List KafkaRow}

/-- The records of a key stand in its partition. -/
lemma partition_of_key (hfiled : σ.Filed symbol)
    (hlog : List.Forall₂ (IsWritten partitionOf) σ.raw log)
    (render : Json → String) {key : String} {a : KafkaRow} (ha : a ∈ log)
    (hkey : HasKey render key a) : a.partition = partitionOf key := by
  obtain ⟨m, hm, hwritten⟩ := exists_message hlog ha
  rw [HasKey, hwritten.kafkaKey (hfiled.keyed m hm) render, Except.ok.injEq] at hkey
  rw [hwritten.partition, hkey]

/-- **The records of a symbol** are those of the messages that its client had appended. -/
lemma written_of_symbol (hfiled : σ.Filed symbol)
    (hlog : List.Forall₂ (IsWritten partitionOf) σ.raw log) (render : Json → String) (i : κ) :
    List.Forall₂ (IsWritten partitionOf) (σ.clients i).published
      (log.filter fun a => decide (HasKey render (rawKey (symbol i)) a)) := by
  have hboth := (List.forall₂_and_left _ _).mpr ⟨hfiled.keyed, hlog⟩
  rw [ClientState.published, ← hfiled.raw i]
  refine (List.rel_filter ?_ hboth).imp fun _ _ h => h.2
  rintro m a ⟨hkeyed, hwritten⟩
  simp only [HasKey, hwritten.kafkaKey hkeyed render, Except.ok.injEq]

variable [DecidableEq κ]

/-- What the job has read of a symbol: the rows so far and the saved state are those of a run over
deliveries, of which those of the symbol carry what its client has published, up to some point. -/
lemma deliveries_of_symbol {modelDumpJson : OrderBookEvent → Except PyError String}
    (hinjective : Function.Injective symbol)
    (hservice : Machine.Reaches (Service.Step modelDumpJson symbol) Service.start σ)
    (render : Json → String) {log₀ : List KafkaRow}
    {sys : System ℤ KafkaRow (String → ProcessorState) BookTickerRow}
    (hjob : Machine.Reaches (Step (normalizeJob render Carried))
      (System.fresh (normalizeJob render Carried) log₀) sys)
    (hlog : List.Forall₂ (IsWritten partitionOf) σ.raw sys.log) (i : κ) :
    ∃ published ds,
      published <+: (σ.clients i).published.map RawMessage.event ∧
      List.Forall₂ IsRecordOf published (ofKey (rawKey (symbol i)) ds) ∧
      Transducer.runPure normalizeStep noState ds = (sys.saved.state, sys.table ++ sys.prepared) ∧
      (sys.saved.AtEnd (normalizeJob render Carried) sys.log →
        published = (σ.clients i).published.map RawMessage.event) := by
  have hfiled := Service.filed_of_reaches hinjective hservice
  have hwritten := written_of_symbol hfiled hlog render i
  obtain ⟨es, hreads, hrun⟩ := (consistent_of_reaches hjob).saved.run_step fun _ => rfl
  obtain ⟨ds, rfl, _⟩ : ∃ ds : List Delivery, es = ds.map Delivery.element ∧ ∀ d ∈ ds, True :=
    exists_deliveries fun e he => by
      obtain ⟨d, hd⟩ := hreads.admits e he
      exact ⟨d, hd, trivial⟩
  have hpure : normalize render noState (ds.map Delivery.element)
      = .ok (sys.saved.state, sys.table ++ sys.prepared) := hrun
  rw [normalize_noState, Except.ok.injEq] at hpure
  -- the records of the key that the run has read
  have hpartition : ∀ a ∈ sys.log, HasKey render (rawKey (symbol i)) a →
      a.partition = partitionOf (rawKey (symbol i)) :=
    fun a ha => partition_of_key hfiled hlog render ha
  have hrecords := ofKey_records hreads hpartition
  have hall : ((normalizeJob render Carried).inPartition (partitionOf (rawKey (symbol i)))
        sys.log).filter (fun a => decide (HasKey render (rawKey (symbol i)) a))
      = sys.log.filter fun a => decide (HasKey render (rawKey (symbol i)) a) := by
    rw [Job.inPartition, List.filter_filter]
    refine List.filter_congr fun a ha => ?_
    rw [Bool.and_eq_left_iff_imp, decide_eq_true_eq, decide_eq_true_eq]
    exact hpartition a ha
  obtain ⟨rest, hrest⟩ : (ofKey (rawKey (symbol i)) ds).map Delivery.record
      <+: sys.log.filter fun a => decide (HasKey render (rawKey (symbol i)) a) := by
    rw [hrecords, ← hall]
    exact (List.take_prefix _ _).filter _
  -- they were written for as many messages
  have htaken := List.forall₂_take_append _ _ rest (hrest ▸ hwritten)
  rw [List.length_map, List.forall₂_map_right_iff] at htaken
  refine ⟨_, ds, (List.take_prefix _ _).map RawMessage.event,
    List.forall₂_map_left_iff.mpr (htaken.imp fun _ _ => IsWritten.isRecordOf), hpure, ?_⟩
  intro hend
  rw [hend, List.take_length, hall] at hrecords
  have hlength := hwritten.length_eq
  rw [← hrecords, List.length_map] at hlength
  rw [← hlength, List.take_length]

/-- **The rows of a symbol.**  The clients of the service have different symbols and run under any
interleaving and with any failures; what they had appended is the raw topic, a key in one partition;
the job reads it, fails and is restored in any way.  Then for each client the rows of its symbol, in
the table and prepared for it, and the state saved for its symbol are those of the pure operator, run
from the empty state on what the client has published, in order, up to some point; and on all of it
when the saved positions are at the end of the topic. -/
theorem rows_of_symbol (modelDumpJson : OrderBookEvent → Except PyError String)
    (hinjective : Function.Injective symbol)
    (hservice : Machine.Reaches (Service.Step modelDumpJson symbol) Service.start σ)
    (render : Json → String) {log₀ : List KafkaRow}
    {sys : System ℤ KafkaRow (String → ProcessorState) BookTickerRow}
    (hjob : Machine.Reaches (Step (normalizeJob render Carried))
      (System.fresh (normalizeJob render Carried) log₀) sys)
    (hlog : List.Forall₂ (IsWritten partitionOf) σ.raw sys.log) (i : κ) :
    ∃ published ds,
      published <+: (σ.clients i).published.map RawMessage.event ∧
      List.Forall₂ IsRecordOf published ds ∧
      (sys.table ++ sys.prepared).filter (fun row => row.key render = rawKey (symbol i))
        = (Transducer.runPure ProcessorState.step ProcessorState.empty ds).2 ∧
      sys.saved.state (rawKey (symbol i))
        = (Transducer.runPure ProcessorState.step ProcessorState.empty ds).1 ∧
      (sys.saved.AtEnd (normalizeJob render Carried) sys.log →
        published = (σ.clients i).published.map RawMessage.event) := by
  obtain ⟨published, ds, hupTo, hrecords, hrun, hend⟩ :=
    deliveries_of_symbol hinjective hservice render hjob hlog i
  have hstate : (Transducer.runPure normalizeStep noState ds).1 = sys.saved.state :=
    congrArg Prod.fst hrun
  refine ⟨published, ofKey (rawKey (symbol i)) ds, hupTo, hrecords,
    filter_rows_of_run render _ hrun, ?_, hend⟩
  rw [← hstate]
  exact Transducer.keyedPure_state _ _ _ _

end Service

/-- The records of `reaches_reconnected`, in one partition. -/
def fourRecords : List Delivery :=
  [topRecord "btcusdt", topRecord "ethusdt", topRecord "btcusdt", nextRecord "btcusdt"]

/-- A service with two clients, one of which has lost its connection and repeated itself, and the job,
which has failed behind the first record and then read everything. -/
lemma reaches_fourRecords :
    ∃ (σ : Service Bool) (sys : System ℤ KafkaRow (String → ProcessorState) BookTickerRow),
      Machine.Reaches (Service.Step (fun _ => .ok "") twoSymbols) Service.start σ ∧
      (σ.clients true).published.map RawMessage.event = [publicationOf "btcusdt" topEvent,
        publicationOf "btcusdt" topEvent, publicationOf "btcusdt" nextEvent] ∧
      Machine.Reaches (Step (normalizeJob (fun _ => "") Carried))
        (System.fresh (normalizeJob (fun _ => "") Carried) (fourRecords.map Delivery.record)) sys ∧
      List.Forall₂ (IsWritten fun _ => 0) σ.raw sys.log ∧
      sys.saved.AtEnd (normalizeJob (fun _ => "") Carried) sys.log ∧ sys.prepared = [] ∧
      sys.table = (Transducer.runPure normalizeStep noState fourRecords).2 ∧
      sys.topic = (normalizeStep noState (topRecord "btcusdt")).2 ++ sys.table := by
  obtain ⟨σ, hservice, hraw, start, start', hparts⟩ := reaches_reconnected
  obtain ⟨sys, hjob, hlog, hend, _, hprepared, htable, htopic⟩ :=
    @read_fail_read (fun _ => "") Carried (fourRecords.map Delivery.record)
      (fourRecords.tail.map Delivery.record) [topRecord "btcusdt"] fourRecords rfl rfl
      (fun d _ => ⟨d, rfl⟩) (fun d _ => ⟨d, rfl⟩)
  have hpublished : (σ.clients true).published.map RawMessage.event
      = [publicationOf "btcusdt" topEvent, publicationOf "btcusdt" topEvent,
        publicationOf "btcusdt" nextEvent] := by
    rw [ClientState.published, ClientState.handed, hparts]
    rfl
  have hwritten : List.Forall₂ (IsWritten fun _ => 0) σ.raw sys.log := by
    rw [hraw, hlog]
    refine .cons ⟨rfl, _, rfl, ?_⟩ (.cons ⟨rfl, _, rfl, ?_⟩ (.cons ⟨rfl, _, rfl, ?_⟩
      (.cons ⟨rfl, _, rfl, ?_⟩ .nil)))
    all_goals exact isRecordOf_sampleRecord _ _ _
  refine ⟨σ, sys, hservice, hpublished, hjob, hwritten, ?_, hprepared, htable, ?_⟩
  · rw [hlog]
    exact hend
  · rw [htopic, htable]
    simp

theorem rows_of_symbol_sample :
    ∃ (σ : Service Bool) (sys : System ℤ KafkaRow (String → ProcessorState) BookTickerRow)
      (published : List OrderBookEvent) (ds : List Delivery),
      (σ.clients true).published.length = 3 ∧ sys.table.length = 3 ∧ sys.topic.length = 4 ∧
      published = (σ.clients true).published.map RawMessage.event ∧
      List.Forall₂ IsRecordOf published ds ∧
      sys.table.filter (fun row => row.key (fun _ => "") = rawKey "btcusdt")
        = (Transducer.runPure ProcessorState.step ProcessorState.empty ds).2 ∧
      (sys.table.filter fun row => row.key (fun _ => "") = rawKey "btcusdt").map
        (fun row => (row.lastUpdateId, row.bestBidPrice)) = [(3, .fin 100), (4, .fin 100)] := by
  obtain ⟨σ, sys, hservice, hpublished, hjob, hwritten, hend, hprepared, htable, htopic⟩ :=
    reaches_fourRecords
  obtain ⟨published, ds, _, hds, hrows, _, hall⟩ :=
    rows_of_symbol _ twoSymbols_injective hservice (fun _ => "") hjob hwritten true
  rw [hprepared, List.append_nil] at hrows
  refine ⟨σ, sys, published, ds, ?_, ?_, ?_, hall hend, hds, hrows, ?_⟩
  · rw [← List.length_map RawMessage.event, hpublished]
    rfl
  · rw [htable]
    decide +kernel
  · rw [htopic, htable]
    decide +kernel
  · rw [htable]
    decide +kernel

end Ticksense
