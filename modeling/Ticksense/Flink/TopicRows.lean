import Ticksense.Flink.Recovery

/-!
# What the readers of the book-ticker topic see

The normalize job writes its rows to a table and to a topic.  The table takes part in the
checkpoints, the topic does not: after a failure, rows that were sent before it are computed and
sent again, possibly at other times and with the partitions interleaved in another way.

* `Delivery.message_eq` — a record carries one message.
* `untimed_of_le` — of two runs over one key's records, read in time but at any times, the one that
  has come less far has written a prefix of what the other has, apart from the times of processing.
* `topic_rows_agree` — so all rows of one id in the topic agree, also with the one in the table.
* `late_restart_loses_row` — a record that is on time before the failure and late after it leaves a
  row in the topic that never comes into the table.
-/

namespace Ticksense

open Checkpoint

/-! ## One message per record -/

lemma Json.ofLevels_inj {xs ys : List (List String)} (h : Json.ofLevels xs = Json.ofLevels ys) :
    xs = ys := by
  have hread := congrArg Json.levels h
  rw [Json.levels_ofLevels, Json.levels_ofLevels, Except.ok.injEq] at hread
  exact hread

lemma pair_injective : Function.Injective (pair : String × String → List String) := by
  rintro ⟨a, b⟩ ⟨c, d⟩ h
  simp only [pair, List.cons.injEq, and_true] at h
  rw [h.1, h.2]

lemma IsInstant.unique {fields : List (String × Json)} {key : String} {ms ms' : ℤ}
    (h : IsInstant fields key ms) (h' : IsInstant fields key ms') : ms = ms' := by
  obtain ⟨text, micros, hfield, hiso, rfl⟩ := h
  obtain ⟨text', micros', hfield', hiso', rfl⟩ := h'
  rw [hfield, Option.some.injEq, Json.str.injEq] at hfield'
  subst hfield'
  rw [hiso, Except.ok.injEq] at hiso'
  rw [hiso']

/-- The fields of an object determine the message. -/
lemma FieldsOf.unique {fields : List (String × Json)} {m m' : DepthMessage}
    (h : FieldsOf fields m) (h' : FieldsOf fields m') : m = m' := by
  have htext : ∀ {key a b}, Json.field? fields key = some (.str a) →
      Json.field? fields key = some (.str b) → a = b := by
    intro key a b ha hb
    rw [ha, Option.some.injEq, Json.str.injEq] at hb
    exact hb
  have hint : ∀ {key a b}, Json.field? fields key = some (.int a) →
      Json.field? fields key = some (.int b) → a = b := by
    intro key a b ha hb
    rw [ha, Option.some.injEq, Json.int.injEq] at hb
    exact hb
  have hlevels : ∀ {key} {a b : List (String × String)},
      Json.field? fields key = some (Json.ofLevels (a.map pair)) →
      Json.field? fields key = some (Json.ofLevels (b.map pair)) → a = b := by
    intro key a b ha hb
    rw [ha, Option.some.injEq] at hb
    exact List.map_injective_iff.mpr pair_injective (Json.ofLevels_inj hb)
  have hevent := h.exchangeEventMs.unique h'.exchangeEventMs
  have hingest := h.ingestMs.unique h'.ingestMs
  have h1 := htext h.eventId h'.eventId
  have h2 := htext h.exchange h'.exchange
  have h3 := htext h.symbol h'.symbol
  have h4 := hint h.firstUpdateId h'.firstUpdateId
  have h5 := hint h.lastUpdateId h'.lastUpdateId
  have h6 := hlevels h.bids h'.bids
  have h7 := hlevels h.asks h'.asks
  cases m
  cases m'
  simp only at hevent hingest h1 h2 h3 h4 h5 h6 h7
  subst hevent hingest h1 h2 h3 h4 h5 h6 h7
  rfl

/-- **A record carries one message**, whenever it is read. -/
theorem Delivery.message_eq {d d' : Delivery} (h : d.record = d'.record) :
    d.message = d'.message := by
  obtain ⟨fields, hpayload, hf⟩ := d.carries
  obtain ⟨fields', hpayload', hf'⟩ := d'.carries
  rw [h, hpayload', Payload.json.injEq, Json.obj.injEq] at hpayload
  subst hpayload
  exact hf.unique hf'

/-! ## Two readings of the same records -/

/-- A row apart from the time of processing. -/
def BookTickerRow.untimed (row : BookTickerRow) : BookTickerRow := { row with processedTsMs := 0 }

/-- Read in time, a record does the same to the state and writes the same row at any time. -/
lemma step_untimed (s : ProcessorState) {d d' : Delivery} (h : d.record = d'.record)
    (hd : ¬ d.Late) (hd' : ¬ d'.Late) :
    (s.step d).1 = (s.step d').1 ∧
      (s.step d).2.map BookTickerRow.untimed = (s.step d').2.map BookTickerRow.untimed := by
  have hm := Delivery.message_eq h
  by_cases hfresh : Fresh s.lastUpdateId d.message.lastUpdateId
  · have hfresh' : Fresh s.lastUpdateId d'.message.lastUpdateId := hm ▸ hfresh
    simp only [ProcessorState.step, if_pos hfresh', if_neg hd, if_neg hd', hm,
      true_and]
    cases ((s.book.getD Book.empty).apply d'.message).quote with
    | none => rfl
    | some q =>
        simp [Delivery.row, BookTickerRow.untimed, hm, h]
  · have hfresh' : ¬ Fresh s.lastUpdateId d'.message.lastUpdateId := hm ▸ hfresh
    simp only [ProcessorState.step, if_neg hfresh, if_neg hfresh', and_self]

/-- **The run that has read less has written a prefix** of what the other run has. -/
theorem untimed_of_le (s : ProcessorState) {ds ds' : List Delivery} (hds : ∀ d ∈ ds, ¬ d.Late)
    (hds' : ∀ d ∈ ds', ¬ d.Late)
    (h : ds.map Delivery.record <+: ds'.map Delivery.record) :
    (Transducer.runPure ProcessorState.step s ds).2.map BookTickerRow.untimed
      <+: (Transducer.runPure ProcessorState.step s ds').2.map BookTickerRow.untimed := by
  induction ds generalizing s ds' with
  | nil => exact List.nil_prefix
  | cons d ds ih =>
      cases ds' with
      | nil => simp at h
      | cons d' ds' =>
          rw [List.map_cons, List.map_cons, List.cons_prefix_cons] at h
          obtain ⟨hstate, hrows⟩ := step_untimed s h.1 (hds d List.mem_cons_self)
            (hds' d' List.mem_cons_self)
          have hrest := ih (s.step d).1 (fun e he => hds e (List.mem_cons_of_mem d he))
            (fun e he => hds' e (List.mem_cons_of_mem d' he)) h.2
          rw [hstate] at hrest
          rw [Transducer.runPure_cons, Transducer.runPure_cons, List.map_append, List.map_append,
            hrows, hstate]
          exact (List.prefix_append_right_inj _).mpr hrest

/-! ## The rows of one key in a run of the job -/

/-- A message read in time. -/
def OnTime (e : Element) : Prop := ∃ d : Delivery, d.element = e ∧ ¬ d.Late

/-- The record is routed to the key. -/
def HasKey (render : Json → String) (key : String) (record : KafkaRow) : Prop :=
  kafkaKey render record = .ok key

instance (render : Json → String) (key : String) (record : KafkaRow) :
    Decidable (HasKey render key record) :=
  inferInstanceAs (Decidable (_ = _))

lemma exists_deliveries {P : Delivery → Prop} {es : List Element}
    (h : ∀ e ∈ es, ∃ d : Delivery, d.element = e ∧ P d) :
    ∃ ds : List Delivery, es = ds.map Delivery.element ∧ ∀ d ∈ ds, P d := by
  induction es with
  | nil => exact ⟨[], rfl, by simp⟩
  | cons e es ih =>
      obtain ⟨d, rfl, hd⟩ := h e List.mem_cons_self
      obtain ⟨ds, rfl, hds⟩ := ih fun e he => h e (List.mem_cons_of_mem _ he)
      refine ⟨d :: ds, rfl, ?_⟩
      intro d' hd'
      rcases List.mem_cons.mp hd' with rfl | hd'
      · exact hd
      · exact hds d' hd'

lemma row_key_of_step (render : Json → String) (s : ProcessorState) (d : Delivery) :
    ∀ row ∈ (s.step d).2, row.key render = d.message.key := by
  intro row hrow
  obtain ⟨q, rfl⟩ := ProcessorState.eq_row_of_mem_step hrow
  rfl

/-- The rows of a key are those of the key's deliveries. -/
lemma rows_of_key (render : Json → String) (ds : List Delivery) (key : String) :
    (Transducer.runPure normalizeStep noState ds).2.filter (fun row => row.key render = key)
      = (Transducer.runPure ProcessorState.step ProcessorState.empty (ofKey key ds)).2 :=
  Transducer.keyedPure_outputs_filter (fun d : Delivery => d.message.key)
    (BookTickerRow.key render) (fun s d => row_key_of_step render s d) noState ds key

/-- The records of a key that a run has read are those in front of the position in the key's
partition. -/
lemma ofKey_records {render : Json → String} {Admits : Element → Prop} {log : List KafkaRow}
    {position : ℤ → ℕ} {ds : List Delivery}
    (h : Reads (normalizeJob render Admits) log position (ds.map Delivery.element))
    {key : String} {p : ℤ} (hp : ∀ a ∈ log, HasKey render key a → a.partition = p) :
    (ofKey key ds).map Delivery.record
      = (((normalizeJob render Admits).inPartition p log).take (position p)).filter
        fun a => decide (HasKey render key a) := by
  have hrecords : ((ds.map Delivery.element).filterMap (normalizeJob render Admits).record)
      = ds.map Delivery.record := by
    rw [List.filterMap_map]
    exact congrFun List.filterMap_eq_map ds
  have heq := h.eq p
  rw [hrecords] at heq
  have hkeyed : (ofKey key ds).map Delivery.record
      = (((normalizeJob render Admits).inPartition p (ds.map Delivery.record)).filter
        fun a => decide (HasKey render key a)) := by
    rw [Job.inPartition, List.filter_filter, List.filter_map, ofKey]
    congr 1
    refine List.filter_congr fun d hd => ?_
    have hrouted : HasKey render key d.record ↔ d.message.key = key := by
      rw [HasKey, kafkaKey_eq, Except.ok.injEq]
    have hmem : d.record ∈ log :=
      h.mem (List.mem_map_of_mem (f := Delivery.element) hd) rfl
    rw [Function.comp_apply, Bool.eq_iff_iff, Bool.and_eq_true, decide_eq_true_eq,
      decide_eq_true_eq, decide_eq_true_eq, hrouted]
    constructor
    · intro hkey
      exact ⟨hkey, hp _ hmem (hrouted.mpr hkey)⟩
    · exact And.left
  rw [hkeyed, heq]

/-- Every row that was computed is a row of its key's own run. -/
lemma computed_row {render : Json → String} {log : List KafkaRow}
    {snapshot : Snapshot ℤ (String → ProcessorState)} {rows : List BookTickerRow}
    (h : Computes (normalizeJob render OnTime) log snapshot rows) {row : BookTickerRow}
    (hrow : row ∈ rows) {p : ℤ}
    (hp : ∀ a ∈ log, HasKey render (row.key render) a → a.partition = p) :
    ∃ ds : List Delivery, (∀ d ∈ ds, ¬ d.Late) ∧
      ds.map Delivery.record <+: ((normalizeJob render OnTime).inPartition p log).filter
        (fun a => decide (HasKey render (row.key render) a)) ∧
      row ∈ (Transducer.runPure ProcessorState.step ProcessorState.empty ds).2 ∧
      ∀ a ∈ (Transducer.runPure ProcessorState.step ProcessorState.empty ds).2,
        a.lastUpdateId = row.lastUpdateId → a = row := by
  obtain ⟨es, hreads, hrun⟩ := h.run_step fun _ => rfl
  obtain ⟨ds, rfl, hds⟩ : ∃ ds : List Delivery, es = ds.map Delivery.element ∧ ∀ d ∈ ds, ¬ d.Late :=
    exists_deliveries hreads.admits
  have hpure : rows = (Transducer.runPure normalizeStep noState ds).2 := rows_of_noState hrun
  have hrows : rows.filter (fun o => decide (o.key render = row.key render))
      = (Transducer.runPure ProcessorState.step ProcessorState.empty
        (ofKey (row.key render) ds)).2 := by
    rw [hpure]
    exact rows_of_key render ds (row.key render)
  have hprefix : (ofKey (row.key render) ds).map Delivery.record
      <+: ((normalizeJob render OnTime).inPartition p log).filter
        fun a => decide (HasKey render (row.key render) a) := by
    rw [ofKey_records hreads hp]
    exact (List.take_prefix _ _).filter _
  refine ⟨ofKey (row.key render) ds, ?_, hprefix, ?_, ?_⟩
  · intro d hd
    exact hds d (List.mem_of_mem_filter hd)
  · rw [← hrows]
    exact List.mem_filter.mpr ⟨hrow, decide_eq_true rfl⟩
  · intro a ha hid
    rw [← hrows] at ha
    have hids : ((rows.filter fun o => decide (o.key render = row.key render)).map
        BookTickerRow.lastUpdateId).Nodup := by
      rw [List.Nodup, List.pairwise_map]
      refine List.Pairwise.imp_of_mem ?_ ((run_ids_rise hrun).filter _)
      intro a b ha hb hlt
      have hkeyA := of_decide_eq_true (List.mem_filter.mp ha).2
      have hkeyB := of_decide_eq_true (List.mem_filter.mp hb).2
      exact ne_of_lt (hlt (hkeyA.trans hkeyB.symm))
    exact List.inj_on_of_nodup_map hids ha (List.mem_filter.mpr ⟨hrow, decide_eq_true rfl⟩) hid

/-! ## The topic -/

/-- Two rows of one id agree, if one run has come at most as far as the other. -/
lemma untimed_eq_of_le {ds ds' : List Delivery} (hds : ∀ d ∈ ds, ¬ d.Late)
    (hds' : ∀ d ∈ ds', ¬ d.Late) (h : ds.map Delivery.record <+: ds'.map Delivery.record)
    {row row' : BookTickerRow}
    (hrow : row ∈ (Transducer.runPure ProcessorState.step ProcessorState.empty ds).2)
    (hunique : ∀ a ∈ (Transducer.runPure ProcessorState.step ProcessorState.empty ds').2,
      a.lastUpdateId = row'.lastUpdateId → a = row')
    (hid : row.lastUpdateId = row'.lastUpdateId) : row.untimed = row'.untimed := by
  have hmem := (untimed_of_le ProcessorState.empty hds hds' h).subset
    (List.mem_map_of_mem (f := BookTickerRow.untimed) hrow)
  obtain ⟨a, ha, hsame⟩ := List.mem_map.mp hmem
  have hida : a.untimed.lastUpdateId = row.untimed.lastUpdateId :=
    congrArg BookTickerRow.lastUpdateId hsame
  rw [← hsame, hunique a ha (hida.trans hid)]

/-- **The rows of the topic agree.**  Messages arrive, a key's all in one partition, attempts fail
and are restored at any point, and no record is read late: then everything in the table and prepared
for it is in the topic, in the same order, and any two rows of the topic with the same exchange,
symbol and id are equal, apart from the time of processing.  So a reader that keeps one row for each
id, whichever it meets, has what the table has. -/
theorem topic_rows_agree (render : Json → String) {log : List KafkaRow}
    {sys : System ℤ KafkaRow (String → ProcessorState) BookTickerRow}
    (h : Machine.Reaches (Step (normalizeJob render OnTime))
      (System.fresh (normalizeJob render OnTime) log) sys)
    (partitionOf : String → ℤ)
    (hpartition : ∀ a ∈ sys.log, ∀ key, kafkaKey render a = .ok key →
      a.partition = partitionOf key) :
    (sys.table ++ sys.prepared).Sublist sys.topic ∧
      ∀ row ∈ sys.topic, ∀ row' ∈ sys.topic, row.primaryKey = row'.primaryKey →
        row.untimed = row'.untimed := by
  have hcons := consistent_of_reaches h
  refine ⟨hcons.sent, fun row hrow row' hrow' hsame => ?_⟩
  obtain ⟨snapshot, rows, hcomputes, hmem⟩ := hcons.computed row hrow
  obtain ⟨snapshot', rows', hcomputes', hmem'⟩ := hcons.computed row' hrow'
  simp only [BookTickerRow.primaryKey, Prod.mk.injEq] at hsame
  obtain ⟨hexchange, hsymbol, hid⟩ := hsame
  have hkey : row'.key render = row.key render := by
    rw [BookTickerRow.key, BookTickerRow.key, hexchange, hsymbol]
  obtain ⟨ds, hds, hprefix, hin, hunique⟩ := computed_row hcomputes hmem
    (p := partitionOf (row.key render)) fun a ha hk => hpartition a ha _ hk
  obtain ⟨ds', hds', hprefix', hin', hunique'⟩ := computed_row hcomputes' hmem'
    (p := partitionOf (row.key render)) fun a ha hk => hkey ▸ hpartition a ha _ hk
  rw [hkey] at hprefix'
  rcases List.prefix_or_prefix_of_prefix hprefix hprefix' with hle | hle
  · exact untimed_eq_of_le hds hds' hle hin hunique' hid
  · exact (untimed_eq_of_le hds' hds hle hin' hunique hid.symm).symm

/-- When all of the raw topic has been processed and committed, every row of the topic is in the
table, apart from the time of processing. -/
lemma topic_row_committed {render : Json → String} {log : List KafkaRow}
    {sys : System ℤ KafkaRow (String → ProcessorState) BookTickerRow}
    (h : Machine.Reaches (Step (normalizeJob render OnTime))
      (System.fresh (normalizeJob render OnTime) log) sys)
    {partitionOf : String → ℤ}
    (hpartition : ∀ a ∈ sys.log, ∀ key, kafkaKey render a = .ok key →
      a.partition = partitionOf key)
    (hend : sys.saved.AtEnd (normalizeJob render OnTime) sys.log) {row : BookTickerRow}
    (hrow : row ∈ sys.topic) : ∃ row' ∈ sys.table ++ sys.prepared, row'.untimed = row.untimed := by
  have hcons := consistent_of_reaches h
  obtain ⟨snapshot, rows, hcomputes, hmem⟩ := hcons.computed row hrow
  obtain ⟨ds, hds, hprefix, hin, _⟩ := computed_row hcomputes hmem
    (p := partitionOf (row.key render)) fun a ha hk => hpartition a ha _ hk
  obtain ⟨es, hreads, hrun⟩ := hcons.saved.run_step fun _ => rfl
  obtain ⟨ds', rfl, hds'⟩ : ∃ ds' : List Delivery, es = ds'.map Delivery.element ∧
      ∀ d ∈ ds', ¬ d.Late := exists_deliveries hreads.admits
  have hall : (ofKey (row.key render) ds').map Delivery.record
      = ((normalizeJob render OnTime).inPartition (partitionOf (row.key render)) sys.log).filter
        fun a => decide (HasKey render (row.key render) a) := by
    rw [ofKey_records hreads fun a ha hk => hpartition a ha _ hk, hend, List.take_length]
  have honTime : ∀ d ∈ ofKey (row.key render) ds', ¬ d.Late :=
    fun d hd => hds' d (List.mem_of_mem_filter hd)
  have huntimed := (untimed_of_le ProcessorState.empty hds honTime (hall ▸ hprefix)).subset
    (List.mem_map_of_mem (f := BookTickerRow.untimed) hin)
  obtain ⟨row', hrow', hsame⟩ := List.mem_map.mp huntimed
  refine ⟨row', ?_, hsame⟩
  have hpure : sys.table ++ sys.prepared = (Transducer.runPure normalizeStep noState ds').2 :=
    rows_of_noState hrun
  rw [hpure]
  rw [← rows_of_key render ds' (row.key render)] at hrow'
  exact List.mem_of_mem_filter hrow'

theorem topic_rows_agree_sample :
    ∃ sys, Machine.Reaches (Step (normalizeJob (fun _ => "") OnTime))
        (System.fresh (normalizeJob (fun _ => "") OnTime) twoRecords) sys ∧
      ∃ row ∈ sys.topic, ∃ row' ∈ sys.topic, row.processedTsMs ≠ row'.processedTsMs ∧
        row.untimed = row'.untimed := by
  have honTime : ∀ d ∈ [sampleDelivery 5, sampleDelivery 20000, laterDelivery], OnTime d.element :=
    fun d hd => ⟨d, rfl, (by decide +kernel :
      ∀ d ∈ [sampleDelivery 5, sampleDelivery 20000, laterDelivery], ¬ d.Late) d hd⟩
  obtain ⟨sys, hreach, hlog, _, _, htable, htopic⟩ := reaches_twoRecords (fun _ => "") OnTime honTime
  have hpartitions : ∀ a ∈ twoRecords, a.partition = 0 := by decide +kernel
  have hagree := (topic_rows_agree (fun _ => "") hreach (fun _ => 0) (by
    rw [hlog]
    exact fun a ha _ _ => hpartitions a ha)).2
  obtain ⟨row, hrow⟩ := List.exists_mem_of_length_pos
    (l := (normalizeStep noState (sampleDelivery 5)).2) (by decide +kernel)
  obtain ⟨row', hrow'⟩ := List.exists_mem_of_length_pos
    (l := (normalizeStep noState (sampleDelivery 20000)).2) (by decide +kernel)
  have hin : row ∈ sys.topic ∧ row' ∈ sys.topic := by
    simp only [htopic, htable, Transducer.runPure_cons, Transducer.runPure_nil, List.mem_append]
    exact ⟨.inl (.inl hrow), .inr (.inl hrow')⟩
  obtain ⟨q, rfl⟩ := ProcessorState.eq_row_of_mem_step hrow
  obtain ⟨q', rfl⟩ := ProcessorState.eq_row_of_mem_step hrow'
  refine ⟨sys, hreach, _, hin.1, _, hin.2, ?_, hagree _ hin.1 _ hin.2 rfl⟩
  show (1704067200000 + 5 : ℤ) ≠ 1704067200000 + 20000
  decide

/-- **Late after the failure.**  A record with a row that is read in time, sent, and read again after
the failure, by then late, leaves its row in the topic for good: the snapshot behind the record is
saved, and the table does not have the row. -/
theorem late_restart_loses_row (render : Json → String) {d d' : Delivery}
    (h : d.record = d'.record) (hd : (normalizeStep noState d).2 ≠ []) (hlate : d'.Late) :
    ∃ sys, Machine.Reaches (Step (normalizeJob render fun _ => True))
        (System.fresh (normalizeJob render fun _ => True) [d.record]) sys ∧
      sys.saved.AtEnd (normalizeJob render fun _ => True) sys.log ∧ sys.topic ≠ [] ∧
      sys.table ++ sys.prepared = [] := by
  obtain ⟨sys, hreach, hlog, hend, _, hprepared, htable, htopic⟩ :=
    @read_fail_read render (fun _ => True) _ [] [d] [d'] rfl (congrArg (fun a => [a]) h)
      (fun _ _ => trivial) fun _ _ => trivial
  have hnone : (Transducer.runPure normalizeStep noState [d']).2 = [] := by
    rw [Transducer.runPure_cons, Transducer.runPure_nil, List.append_nil, normalizeStep_rows]
    simp [ProcessorState.step, noState, ProcessorState.empty, Fresh, hlate]
  refine ⟨sys, hreach, hlog.symm ▸ hend, ?_, ?_⟩
  · rw [htopic, hnone, List.append_nil, Transducer.runPure_cons, Transducer.runPure_nil,
      List.append_nil]
    exact hd
  · rw [hprepared, htable, hnone, List.append_nil]

end Ticksense
