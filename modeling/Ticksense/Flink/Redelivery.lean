import Ticksense.Flink.StateCells

/-!
# Records that are delivered again

A record of the raw topic can reach the normalize job more than once: the replay tool re-produces
records unchanged, and calls that safe because the job drops what it has seen.

* `normalize_withCopies` — copies of records that stand earlier in the log change nothing, at any
  time and at any partition and offset.  This needs nothing of the records, well-formed or not: a
  step stores at least the record's id (`processElement_absorbs`), and a record whose id is covered
  leaves at once (`processElement_stale`).
* `replay_recovers_on_time` — when the state was lost, replaying the records brings the rows back if
  no record is late *at the replay*, and only if every record that led to a row is on time.
  `replay_loses_late_rows` is the run in which nothing comes back.
-/

namespace Ticksense

/-! ## Copies of records already seen -/

/-- The id the dedup step looks at. -/
def messageId (payload : Payload) : Except PyError ℤ := do
  let msg ← payload.loads
  (← msg.getItem "last_update_id").toInt

/-- The stored id covers an id. -/
def Covers (s : ProcessorState) (id : ℤ) : Prop := ∃ last ∈ s.lastUpdateId, id ≤ last

/-- **A record whose id is covered leaves at once.** -/
lemma processElement_stale {s : ProcessorState} {value : KafkaRow} {id : ℤ}
    (hid : messageId value.payload = .ok id) (hs : Covers s id) (clock : Clock) :
    processElement s value clock = .ok (s, []) := by
  rcases hs with ⟨last, hlast, hle⟩
  rcases bind_eq_ok.mp hid with ⟨msg, hmsg, hid⟩
  rcases bind_eq_ok.mp hid with ⟨v, hv, hid⟩
  have hdup : (s.lastUpdateId.any fun lastSeen => decide (id ≤ lastSeen)) = true := by
    simp [Option.mem_def.mp hlast, hle]
  simp only [processElement, hmsg, ok_bind, hv, hid, hdup, if_true, pure_eq_ok]

/-- **A step covers its record's id** and uncovers none. -/
lemma processElement_absorbs {s s' : ProcessorState} {value : KafkaRow} {clock : Clock}
    {rows : List BookTickerRow} (h : processElement s value clock = .ok (s', rows)) :
    (∃ id, messageId value.payload = .ok id ∧ Covers s' id) ∧
      ∀ id, Covers s id → Covers s' id := by
  rcases bind_eq_ok.mp h with ⟨msg, hmsg, h⟩
  rcases bind_eq_ok.mp h with ⟨v, hv, h⟩
  rcases bind_eq_ok.mp h with ⟨id, hid, h⟩
  have hmessage : messageId value.payload = .ok id := by
    simp only [messageId, hmsg, ok_bind, hv, hid]
  by_cases hdup : (s.lastUpdateId.any fun lastSeen => decide (id ≤ lastSeen)) = true
  · simp only [hdup, if_true, pure_eq_ok] at h
    cases h
    cases hlast : s.lastUpdateId with
    | none => simp [hlast] at hdup
    | some last =>
        simp only [hlast, Option.any_some, decide_eq_true_eq] at hdup
        exact ⟨⟨id, hmessage, last, hlast, hdup⟩, fun _ hcov => hcov⟩
  · have hid' : s'.lastUpdateId = some id := by
      rw [if_neg hdup] at h
      rcases bind_eq_ok.mp h with ⟨_, _, h⟩
      rcases bind_eq_ok.mp h with ⟨_, _, h⟩
      rcases bind_eq_ok.mp h with ⟨_, _, h⟩
      split_ifs at h
      · cases h
        rfl
      · rcases bind_eq_ok.mp h with ⟨_, _, h⟩
        rcases bind_eq_ok.mp h with ⟨_, _, h⟩
        rcases bind_eq_ok.mp h with ⟨_, _, h⟩
        rcases bind_eq_ok.mp h with ⟨_, _, h⟩
        rcases bind_eq_ok.mp h with ⟨_, _, h⟩
        rcases bind_eq_ok.mp h with ⟨_, _, h⟩
        cases h
        rfl
    refine ⟨⟨id, hmessage, id, by simp [hid'], le_refl _⟩, ?_⟩
    rintro j ⟨last, hlast, hle⟩
    refine ⟨id, by simp [hid'], ?_⟩
    simp only [Option.mem_def.mp hlast, Option.any_some, decide_eq_true_eq] at hdup
    omega

/-- The copy carries the same payload, at any place in the log and at any time. -/
def SamePayload (e c : Element) : Prop := c.record.payload = e.record.payload

/-- The job has seen an element: the id stored for its key covers its id. -/
def Seen (render : Json → String) (s : String → ProcessorState) (e : Element) : Prop :=
  ∃ key id, kafkaKey render e.record = .ok key ∧ messageId e.record.payload = .ok id ∧
    Covers (s key) id

lemma kafkaKey_congr (render : Json → String) {e c : Element} (h : SamePayload e c) :
    kafkaKey render c.record = kafkaKey render e.record := by
  rw [kafkaKey, kafkaKey, h]

/-- **Replay is idempotent for the job.**  A log with copies of earlier records inserted anywhere,
with any partition, offset and time, runs from every state exactly like the log without them: the
same cells for every key and the same rows.  On well-formed records neither run raises. -/
theorem normalize_withCopies (render : Json → String) (s : String → ProcessorState)
    (log log' : List Element) (h : Transducer.WithCopies SamePayload [] log log') :
    normalize render s log' = normalize render s log ∧
      ∀ deliveries : List Delivery, log = deliveries.map Delivery.element →
        (∀ d ∈ deliveries, (s d.message.key).IsNumeric) → ∃ s' rows,
          normalize render s log = .ok (s', rows) ∧ normalize render s log' = .ok (s', rows) := by
  have hcopies : normalize render s log' = normalize render s log := by
    refine Transducer.run_withCopies (Seen render) ?_ ?_ ?_ h (fun e he => ?_)
    · intro s e s' rows hstep
      rcases Transducer.keyed_ok.mp hstep with ⟨key, t, hkey, hrun, rfl⟩
      rcases processElement_absorbs hrun with ⟨⟨id, hid, hcov⟩, _⟩
      exact ⟨key, id, hkey, hid, by simpa using hcov⟩
    · rintro s e s' rows j ⟨key, id, hkey, hid, hcov⟩ hstep
      rcases Transducer.keyed_ok.mp hstep with ⟨key', t, _, hrun, rfl⟩
      refine ⟨key, id, hkey, hid, ?_⟩
      by_cases hk : key = key'
      · subst hk
        rw [Function.update_self]
        exact (processElement_absorbs hrun).2 id hcov
      · rw [Function.update_of_ne hk]
        exact hcov
    · rintro s e c ⟨key, id, hkey, hid, hcov⟩ hcopy
      refine Transducer.keyed_ok.mpr ⟨key, s key, ?_, ?_, (Function.update_eq_self key s).symm⟩
      · rw [kafkaKey_congr render hcopy, hkey]
      · exact processElement_stale (by rw [hcopy, hid]) hcov c.clock
    · cases he
  refine ⟨hcopies, ?_⟩
  rintro deliveries rfl hs
  have hrun := normalize_eq render deliveries hs
  exact ⟨_, _, hrun, hcopies.trans hrun⟩

theorem normalize_withCopies_sample :
    ∃ s rows,
      normalize (fun _ => "") noState [(sampleDelivery 5).element, (sampleDelivery 90000).element]
        = .ok (s, rows) ∧ rows.length = 1 := by
  have hcopies : Transducer.WithCopies SamePayload [] [(sampleDelivery 5).element]
      [(sampleDelivery 5).element, (sampleDelivery 90000).element] :=
    .original (.copied List.mem_cons_self rfl .nil)
  have h := normalize_withCopies (fun _ => "") noState _ _ hcopies
  rw [h.1]
  refine ⟨_, _, normalize_noState _ [sampleDelivery 5], ?_⟩
  decide +kernel

/-! ## Replay after a loss of state -/

/-- A record re-produced unchanged: the same payload, at another place in the log and at another
time. -/
structure Reproduced (d d' : Delivery) : Prop where
  payload : d'.record.payload = d.record.payload
  message : d'.message = d.message

/-- A row apart from `processed_ts` and its place in the topic. -/
def BookTickerRow.content (row : BookTickerRow) : BookTickerRow :=
  { row with processedTsMs := 0, srcKafkaPartition := 0, srcKafkaOffset := 0 }

lemma Reproduced.content_row {d d' : Delivery} (h : Reproduced d d') (q : Quote) :
    (d'.row q).content = (d.row q).content := by
  simp only [Delivery.row, BookTickerRow.content, h.message]

/-- A reproduced record is one of the originals. -/
lemma Reproduced.of_mem {ds ds' : List Delivery} (h : List.Forall₂ Reproduced ds ds') {d' : Delivery}
    (hd' : d' ∈ ds') : ∃ d ∈ ds, Reproduced d d' := by
  induction h with
  | nil => cases hd'
  | @cons d e ds ds' hde _ ih =>
      rcases List.mem_cons.mp hd' with rfl | hd'
      · exact ⟨d, List.mem_cons_self, hde⟩
      · rcases ih hd' with ⟨e, he, hed'⟩
        exact ⟨e, List.mem_cons_of_mem d he, hed'⟩

/-- Dedup decides the same on the reproduced records. -/
lemma accepted_reproduced {live replay : List Delivery} (h : List.Forall₂ Reproduced live replay)
    (lastSeen : Option ℤ) :
    List.Forall₂ Reproduced (accepted lastSeen live) (accepted lastSeen replay) := by
  induction h generalizing lastSeen with
  | nil => exact .nil
  | @cons d d' live replay hd _ ih =>
      rw [accepted, accepted, hd.message]
      split_ifs
      · exact .cons hd (ih _)
      · exact ih _

/-- Where nothing is late on either side, the rows are the same but for time and place. -/
lemma rowsOf_reproduced {ds ds' : List Delivery} (h : List.Forall₂ Reproduced ds ds')
    (hds : ∀ d ∈ ds, ¬ d.Late) (hds' : ∀ d ∈ ds', ¬ d.Late) (book : Book) :
    (rowsOf book ds').map BookTickerRow.content = (rowsOf book ds).map BookTickerRow.content := by
  induction h generalizing book with
  | nil => rfl
  | @cons d d' ds ds' hd _ ih =>
      have hrest := ih (fun e he => hds e (List.mem_cons_of_mem d he))
        (fun e he => hds' e (List.mem_cons_of_mem d' he)) (book.apply d.message)
      rw [rowsOf, rowsOf, if_neg (hds d List.mem_cons_self), if_neg (hds' d' List.mem_cons_self),
        hd.message, List.map_append, List.map_append, hrest]
      cases (book.apply d.message).quote with
      | none => rfl
      | some q => simp [hd.content_row q]

/-- Where two rows have the same content, their ids are the same. -/
lemma lastUpdateId_of_content {row row' : BookTickerRow} (h : row.content = row'.content) :
    row.lastUpdateId = row'.lastUpdateId := by
  have hid := congrArg BookTickerRow.lastUpdateId h
  exact hid

/-- **Replay recovers what is on time.**  Well-formed records of one key, processed live with no
accepted record late, are re-produced unchanged and processed from an empty state of the key.  If no
accepted record is late at the replay, the rows are the same apart from `processed_ts`, partition and
offset.  They are the same only if every record that led to a row is on time; so when every accepted
record led to a row, exactly if none is late. -/
theorem replay_recovers_on_time (render : Json → String) (key : String)
    (s₀ s₁ : String → ProcessorState) (live replay : List Delivery)
    (hkey : ∀ d ∈ live, d.message.key = key) (hs₀ : s₀ key = ProcessorState.empty)
    (hs₁ : s₁ key = ProcessorState.empty) (hlive : ∀ d ∈ accepted none live, ¬ d.Late)
    (hreplay : List.Forall₂ Reproduced live replay) :
    ∃ s rows s' rows',
      normalize render s₀ (live.map Delivery.element) = .ok (s, rows) ∧
      normalize render s₁ (replay.map Delivery.element) = .ok (s', rows') ∧
      ((∀ d ∈ accepted none replay, ¬ d.Late) →
        rows'.map BookTickerRow.content = rows.map BookTickerRow.content) ∧
      (rows'.map BookTickerRow.content = rows.map BookTickerRow.content →
        ∀ row ∈ rows, ∃ d ∈ accepted none replay,
          d.message.lastUpdateId = row.lastUpdateId ∧ ¬ d.Late) ∧
      ((∀ d ∈ accepted none live, ∃ row ∈ rows, row.lastUpdateId = d.message.lastUpdateId) →
        (rows'.map BookTickerRow.content = rows.map BookTickerRow.content ↔
          ∀ d ∈ accepted none replay, ¬ d.Late)) := by
  have hkey' : ∀ d ∈ replay, d.message.key = key := by
    intro d hd
    rcases Reproduced.of_mem hreplay hd with ⟨e, he, hed⟩
    rw [hed.message]
    exact hkey e he
  rcases normalize_ofKey render hkey hs₀ with ⟨s, hrun⟩
  rcases normalize_ofKey render hkey' hs₁ with ⟨s', hrun'⟩
  have haccepted := accepted_reproduced hreplay none
  have henough : (∀ d ∈ accepted none replay, ¬ d.Late) →
      (rowsOf Book.empty (accepted none replay)).map BookTickerRow.content
        = (rowsOf Book.empty (accepted none live)).map BookTickerRow.content :=
    fun hlate => rowsOf_reproduced haccepted hlive hlate Book.empty
  have hneeded : (rowsOf Book.empty (accepted none replay)).map BookTickerRow.content
        = (rowsOf Book.empty (accepted none live)).map BookTickerRow.content →
      ∀ row ∈ rowsOf Book.empty (accepted none live), ∃ d ∈ accepted none replay,
        d.message.lastUpdateId = row.lastUpdateId ∧ ¬ d.Late := by
    intro hsame row hrow
    have hmem : row.content
        ∈ (rowsOf Book.empty (accepted none replay)).map BookTickerRow.content := by
      rw [hsame]
      exact List.mem_map_of_mem hrow
    rcases List.mem_map.mp hmem with ⟨row', hrow', hcontent⟩
    rcases mem_rowsOf hrow' with ⟨d, hd, hlate, q, rfl⟩
    exact ⟨d, hd, lastUpdateId_of_content hcontent, hlate⟩
  refine ⟨s, _, s', _, hrun, hrun', henough, hneeded, ?_⟩
  intro hall
  refine ⟨?_, henough⟩
  intro hsame d' hd'
  rcases Reproduced.of_mem haccepted hd' with ⟨d, hd, hdd'⟩
  rcases hall d hd with ⟨row, hrow, hid⟩
  rcases hneeded hsame row hrow with ⟨e, he, heid, hlate⟩
  have hsameId : e.message.lastUpdateId = d'.message.lastUpdateId := by
    rw [heid, hid, hdd'.message]
  rw [← eq_of_lastUpdateId he hd' hsameId]
  exact hlate

/-- Two messages that led to a row each, replayed: the rows come back if the first is 20 seconds late,
and not if it is 90 seconds late. -/
theorem replay_recovers_on_time_sample :
    ∃ s rows, normalize (fun _ => "") noState
        ([sampleDelivery 5, laterDelivery].map Delivery.element) = .ok (s, rows) ∧
      rows.length = 2 ∧ ∀ lag ∈ [20000, 90000], ∃ s' rows',
        normalize (fun _ => "") noState ([sampleDelivery lag, laterDelivery].map Delivery.element)
          = .ok (s', rows') ∧
        (rows'.map BookTickerRow.content = rows.map BookTickerRow.content ↔ lag = 20000) := by
  refine ⟨_, _, normalize_noState _ _, by decide +kernel, fun lag hlag => ?_⟩
  obtain ⟨s, rows, s', rows', hrun, hrun', _, _, hiff⟩ :=
    replay_recovers_on_time (fun _ => "") "binance#btcusdt" noState noState
      [sampleDelivery 5, laterDelivery] [sampleDelivery lag, laterDelivery]
      (by intro d hd; rcases List.mem_pair.mp hd with rfl | rfl <;> rfl) rfl rfl
      (by decide +kernel) (.cons ⟨rfl, rfl⟩ (.cons ⟨rfl, rfl⟩ .nil))
  obtain rfl := rows_of_noState hrun
  refine ⟨s', rows', hrun', (hiff (by decide +kernel)).trans ?_⟩
  rcases List.mem_pair.mp hlag with rfl | rfl
  · exact iff_of_true (by decide +kernel) rfl
  · exact iff_of_false (by decide +kernel) (by decide)

/-- **Nothing comes back a day later.**  The lateness test reads the clock of the replay and the
event time of the record, so a record that led to a row live leads to none when replayed after the
threshold. -/
theorem replay_loses_late_rows :
    ¬ ∀ (render : Json → String) (key : String) (s₁ : String → ProcessorState)
        (live replay : List Delivery), (∀ d ∈ live, d.message.key = key) →
      s₁ key = ProcessorState.empty → (∀ d ∈ live, ¬ d.Late) →
      List.Forall₂ Reproduced live replay →
      (∀ d ∈ live, ∀ d' ∈ replay, d.clock.now ≤ d'.clock.now) →
      ∀ s rows s' rows', normalize render noState (live.map Delivery.element) = .ok (s, rows) →
        normalize render s₁ (replay.map Delivery.element) = .ok (s', rows') →
        rows'.map BookTickerRow.content = rows.map BookTickerRow.content := by
  intro h
  have hsame := h (fun _ => "") "binance#btcusdt" noState [sampleDelivery 5]
    [sampleDelivery 86400000] (by intro d hd; rw [List.mem_singleton.mp hd]; rfl) rfl
    (by intro d hd; rw [List.mem_singleton.mp hd]; decide) (.cons ⟨rfl, rfl⟩ .nil)
    (by intro d hd d' hd'; rw [List.mem_singleton.mp hd, List.mem_singleton.mp hd']; decide)
    _ _ _ _ (normalize_noState _ _) (normalize_noState _ _)
  have hlength := congrArg List.length hsame
  rw [List.length_map, List.length_map] at hlength
  exact absurd hlength (by decide +kernel)

end Ticksense
