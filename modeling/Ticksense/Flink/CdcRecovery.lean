import Ticksense.Flink.Envelope
import Ticksense.Lib.Checkpoint

/-!
# The change log job under failures

`main` of `flink/jobs/cdc_symbol_config.py` runs `CdcEnvelopeProcessor` with checkpoints in
`EXACTLY_ONCE` mode and a restart strategy, from the earliest offset of the change topic, into the
bronze table, which is said to be append-only and to hold every event verbatim.

* `bronzeJob` — that job; it keeps no state of its own.
* `bronze_exactly_once` — whatever fails, the table has for each record in front of the saved
  position what the processor made of it once, and nothing for any other.
* `bronze_complete_iff` — the whole log can get into the table, from every state reached, exactly
  when the processor gets past every payload in it.
-/

namespace Ticksense

open Checkpoint

/-- The job as `main` sets it up. -/
def bronzeJob (render dumps : Json → String) :
    Job ℤ KafkaRow CdcElement PyError Unit BronzeRow where
  start := ()
  step := fun _ e => do return ((), ← flatMap render dumps e.record e.nowMs)
  record := fun e => some e.record
  partition := KafkaRow.partition
  Admits := fun _ => True
  resume := id

variable {render dumps : Json → String}

lemma bronzeJob_step_ok {u u' : Unit} {e : CdcElement} {rows : List BronzeRow} :
    (bronzeJob render dumps).step u e = .ok (u', rows) ↔
      flatMap render dumps e.record e.nowMs = .ok rows := by
  simp only [bronzeJob, bind_eq_ok, pure_eq_ok, Except.ok.injEq, Prod.mk.injEq, true_and,
    exists_eq_right]

/-! ## What the processor reads and writes -/

/-- Where a record stands in the topic. -/
def KafkaRow.place (value : KafkaRow) : ℤ × ℤ := (value.partition, value.offset)

/-- Where the record of a row stood. -/
def BronzeRow.source (row : BronzeRow) : ℤ × ℤ := (row.kafkaPartition, row.kafkaOffset)

lemma flatMapOp_source {value : KafkaRow} {nowMs : ℤ} {envelope : Json} {op : String}
    {rows : List BronzeRow} (h : flatMapOp render dumps value nowMs envelope op = .ok rows)
    {row : BronzeRow} (hrow : row ∈ rows) : row.source = value.place := by
  obtain ⟨_, _, h⟩ := bind_eq_ok.mp h
  obtain ⟨_, _, h⟩ := bind_eq_ok.mp h
  obtain ⟨_, _, h⟩ := bind_eq_ok.mp h
  obtain ⟨_, _, h⟩ := bind_eq_ok.mp h
  obtain ⟨_, _, h⟩ := bind_eq_ok.mp h
  obtain ⟨before, _, h⟩ := bind_eq_ok.mp h
  obtain ⟨after, _, h⟩ := bind_eq_ok.mp h
  generalize (if after.isSome = true then after else before) = rowData at h
  cases hsome : rowData.isSome with
  | false =>
      simp only [hsome] at h
      cases h
      cases hrow
  | true =>
      simp only [hsome, if_true] at h
      obtain ⟨_, _, h⟩ := bind_eq_ok.mp h
      cases h
      rw [List.mem_singleton] at hrow
      rw [hrow]
      rfl

/-- A row names the record it was made from. -/
lemma flatMap_source {value : KafkaRow} {nowMs : ℤ} {rows : List BronzeRow}
    (h : flatMap render dumps value nowMs = .ok rows) {row : BronzeRow} (hrow : row ∈ rows) :
    row.source = value.place := by
  rw [flatMap] at h
  split at h
  · cases h
    cases hrow
  · cases h
    cases hrow
  · cases h
    cases hrow
  · cases h
  · obtain ⟨op, _, h⟩ := bind_eq_ok.mp h
    split at h
    · split_ifs at h
      · exact flatMapOp_source h hrow
      · cases h
        cases hrow
    · cases h
      cases hrow

/-! ## The table -/

/-- In a run over records at different places, the rows of a place are those of its record. -/
lemma run_rows_at {es : List CdcElement} {u : Unit} {rows : List BronzeRow}
    (h : Transducer.run (bronzeJob render dumps).step () es = .ok (u, rows))
    (hplaces : (es.map fun e => e.record.place).Nodup) (q : ℤ × ℤ) :
    ((∀ e ∈ es, e.record.place ≠ q) ∧ (rows.filter fun row => row.source = q) = []) ∨
      ∃ e ∈ es, e.record.place = q ∧
        flatMap render dumps e.record e.nowMs = .ok (rows.filter fun row => row.source = q) := by
  induction es generalizing rows with
  | nil =>
      cases h
      exact Or.inl ⟨by simp, rfl⟩
  | cons e es ih =>
      obtain ⟨_, os, rest, hstep, hrest, rfl⟩ := Transducer.run_cons_ok.mp h
      rw [bronzeJob_step_ok] at hstep
      rw [List.map_cons, List.nodup_cons] at hplaces
      rw [List.filter_append]
      by_cases hq : e.record.place = q
      · have hall : (os.filter fun row => decide (row.source = q)) = os :=
          List.filter_eq_self.mpr fun row hrow =>
            decide_eq_true ((flatMap_source hstep hrow).trans hq)
        have hnone : (rest.filter fun row => decide (row.source = q)) = [] := by
          rcases ih hrest hplaces.2 with ⟨_, hnil⟩ | ⟨e', he', hq', _⟩
          · exact hnil
          · exact absurd (List.mem_map.mpr ⟨e', he', hq'.trans hq.symm⟩) hplaces.1
        rw [hall, hnone, List.append_nil]
        exact Or.inr ⟨e, List.mem_cons_self, hq, hstep⟩
      · have hnone : (os.filter fun row => decide (row.source = q)) = [] :=
          List.filter_eq_nil_iff.mpr fun row hrow => by
            simpa [flatMap_source hstep hrow] using hq
        rw [hnone, List.nil_append]
        rcases ih hrest hplaces.2 with ⟨hne, hnil⟩ | ⟨e', he', hq', hrows⟩
        · refine Or.inl ⟨fun e' he' => ?_, hnil⟩
          rcases List.mem_cons.mp he' with rfl | he'
          · exact hq
          · exact hne e' he'
        · exact Or.inr ⟨e', List.mem_cons_of_mem e he', hq', hrows⟩

/-- **The bronze table is exact under failures.**  Records with any payloads arrive at different
places, attempts fail and are restored at any point: for a record in front of the saved position the
table, with what is prepared for it, has exactly the rows that the processor makes of the record at
some one time, and for any other record it has none. -/
theorem bronze_exactly_once (render dumps : Json → String) {log : List KafkaRow}
    {sys : System ℤ KafkaRow Unit BronzeRow}
    (h : Machine.Reaches (Step (bronzeJob render dumps))
      (System.fresh (bronzeJob render dumps) log) sys)
    (hplaces : (sys.log.map KafkaRow.place).Nodup) {p : ℤ} {n : ℕ} {record : KafkaRow}
    (hrecord : ((bronzeJob render dumps).inPartition p sys.log)[n]? = some record) :
    (n < sys.saved.position p → ∃ nowMs, flatMap render dumps record nowMs
        = .ok ((sys.table ++ sys.prepared).filter fun row => row.source = record.place)) ∧
      (sys.saved.position p ≤ n →
        ((sys.table ++ sys.prepared).filter fun row => row.source = record.place) = []) := by
  obtain ⟨es, hreads, hrun⟩ := (consistent_of_reaches h).saved.run_step fun _ => rfl
  have hrecords : es.filterMap (bronzeJob render dumps).record = es.map CdcElement.record :=
    congrFun List.filterMap_eq_map es
  -- what was read stands at different places
  have hnodup : (es.map fun e => e.record.place).Nodup := by
    obtain ⟨l, hperm, hsub⟩ := hreads.subperm
    rw [hrecords] at hperm
    have hl : (l.map KafkaRow.place).Nodup := (hsub.map _).nodup hplaces
    have hes := (hperm.map KafkaRow.place).nodup_iff.mp hl
    rwa [List.map_map] at hes
  have hinj : ∀ a ∈ sys.log, ∀ b ∈ sys.log, a.place = b.place → a = b :=
    fun a ha b hb => List.inj_on_of_nodup_map hplaces ha hb
  obtain ⟨hlt, hget⟩ := List.getElem?_eq_some_iff.mp hrecord
  have hmem := List.mem_filter.mp (hget ▸ List.getElem_mem hlt)
  have hpart : record.partition = p := of_decide_eq_true hmem.2
  have hdistinct : ((bronzeJob render dumps).inPartition p sys.log).Nodup :=
    (List.Nodup.of_map _ hplaces).filter _
  -- the record was read if and only if it stands in front of the position
  have hread : (∃ e ∈ es, e.record = record) ↔ n < sys.saved.position p := by
    have htake : record ∈ (bronzeJob render dumps).inPartition p (es.map CdcElement.record) ↔
        ∃ e ∈ es, e.record = record := by
      rw [Job.inPartition, List.mem_filter, List.mem_map]
      exact and_iff_left (decide_eq_true hpart)
    have heq : (bronzeJob render dumps).inPartition p (es.map CdcElement.record)
        = ((bronzeJob render dumps).inPartition p sys.log).take (sys.saved.position p) := by
      rw [← hrecords]
      exact hreads.eq p
    rw [← htake, heq, List.mem_take_iff_getElem]
    constructor
    · rintro ⟨m, hm, hgetm⟩
      have hmn : m = n := (hdistinct.getElem_inj_iff).mp (hgetm.trans hget.symm)
      omega
    · intro hn
      exact ⟨n, by omega, hget⟩
  rcases run_rows_at hrun hnodup record.place with ⟨hne, hnil⟩ | ⟨e, he, hq, hrows⟩
  · refine ⟨fun hn => ?_, fun _ => hnil⟩
    obtain ⟨e, he, hsame⟩ := hread.mpr hn
    exact absurd (congrArg KafkaRow.place hsame) (hne e he)
  · have hsame : e.record = record := hinj _ (hreads.mem he rfl) _ hmem.1 hq
    refine ⟨fun _ => ⟨e.nowMs, hsame ▸ hrows⟩, fun hn => ?_⟩
    have := hread.mp ⟨e, he, hsame⟩
    omega

/-- The job reads the record of an event, fails, and reads it again. -/
lemma reaches_change :
    ∃ sys, Machine.Reaches (Step (bronzeJob (fun _ => "") fun _ => ""))
        (System.fresh (bronzeJob (fun _ => "") fun _ => "") [(sampleChange .snapshot 5).record]) sys ∧
      sys.log = [(sampleChange .snapshot 5).record] ∧ 0 < sys.saved.position 0 ∧
      sys.prepared = [] ∧ sys.table.length = 1 ∧ sys.topic.length = 2 ∧
      ∀ row ∈ sys.table, row.source = (sampleChange .snapshot 5).record.place := by
  obtain ⟨rows, hrows, hlength⟩ : ∃ rows : List BronzeRow,
      flatMap (fun _ => "") (fun _ => "") (sampleChange .snapshot 5).record 3 = .ok rows ∧
        rows.length = 1 := ⟨_, rfl, rfl⟩
  have hstep : (bronzeJob (fun _ => "") fun _ => "").step () (sampleChange .snapshot 5).element
      = .ok ((), rows) := bronzeJob_step_ok.mpr hrows
  obtain ⟨sys, hreach, hlog, hend, _, hprepared, htable, htopic⟩ :=
    @reaches_failed_once _ _ _ _ _ _ _ (bronzeJob (fun _ => "") fun _ => "")
      [(sampleChange .snapshot 5).record] [] [(sampleChange .snapshot 5).element]
      [(sampleChange .snapshot 5).element] _ _ _ _ rfl rfl (fun _ _ => trivial)
      (fun _ _ => trivial) (Transducer.run_singleton_ok hstep) (Transducer.run_singleton_ok hstep)
  refine ⟨sys, hreach, hlog, ?_, hprepared, ?_, ?_, ?_⟩
  · rw [hend 0]
    decide +kernel
  · rw [htable, hlength]
  · rw [htopic, List.length_append, hlength]
  · rw [htable]
    exact fun row hrow => flatMap_source hrows hrow

theorem bronze_exactly_once_sample :
    ∃ sys, Machine.Reaches (Step (bronzeJob (fun _ => "") fun _ => ""))
        (System.fresh (bronzeJob (fun _ => "") fun _ => "") [(sampleChange .snapshot 5).record]) sys ∧
      sys.topic.length = 2 ∧ ∃ (rows : List BronzeRow) (nowMs : ℤ), rows.length = 1 ∧
        sys.table = rows ∧
        flatMap (fun _ => "") (fun _ => "") (sampleChange .snapshot 5).record nowMs = .ok rows := by
  obtain ⟨sys, hreach, hlog, hbefore, hprepared, hlength, htopic, hsource⟩ := reaches_change
  have hplace : ((bronzeJob (fun _ => "") fun _ => "").inPartition 0 sys.log)[0]?
      = some (sampleChange .snapshot 5).record := by
    rw [hlog]
    rfl
  have hexact := bronze_exactly_once (fun _ => "") (fun _ => "") hreach (by rw [hlog]; simp) hplace
  obtain ⟨nowMs, hat⟩ := hexact.1 hbefore
  rw [hprepared, List.append_nil, List.filter_eq_self.mpr fun row hrow =>
    decide_eq_true (hsource row hrow)] at hat
  exact ⟨sys, hreach, htopic, _, nowMs, hlength, rfl, hat⟩

end Ticksense
