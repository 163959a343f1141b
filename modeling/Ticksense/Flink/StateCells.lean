import Ticksense.Flink.Normalize

/-!
# The two state cells

`process_element` keeps a book and the last id it has seen, and updates them at different places:
the id as soon as the dedup step lets a message pass, the book only after the lateness test.  What
each cell holds after a run is therefore a different fold over the log:

* `lastUpdateId` — the last of the `accepted` messages, late or not;
* `book` — the diffs of the accepted messages that were not late, in arrival order, whether or not
  the book had two sides afterwards.

`stored_book_is_fold` says so for every key of every log, and `late_message_splits_the_cells` that
the lateness test cannot be left out of it.
-/

namespace Ticksense

/-! ## What dedup accepts -/

/-- The deliveries of one key that the dedup step lets pass: those with an id above the last one
that passed. -/
def accepted : Option ℤ → List Delivery → List Delivery
  | _, [] => []
  | lastSeen, d :: log =>
      if Fresh lastSeen d.message.lastUpdateId then
        d :: accepted (some d.message.lastUpdateId) log
      else accepted lastSeen log

lemma fresh_some {lastSeen id : ℤ} : Fresh (some lastSeen) id ↔ lastSeen < id := by
  simp [Fresh]

/-- Accepted ids lie above the id stored before. -/
lemma fresh_of_mem_accepted {lastSeen : Option ℤ} {log : List Delivery} {d : Delivery}
    (h : d ∈ accepted lastSeen log) : Fresh lastSeen d.message.lastUpdateId := by
  induction log generalizing lastSeen with
  | nil => cases h
  | cons e log ih =>
      rw [accepted] at h
      split_ifs at h with hfresh
      · rcases List.mem_cons.mp h with rfl | h
        · exact hfresh
        · intro id hid
          have hlt := fresh_some.mp (ih h)
          have := hfresh id hid
          omega
      · exact ih h

/-- Accepted ids increase strictly. -/
theorem accepted_pairwise (lastSeen : Option ℤ) (log : List Delivery) :
    (accepted lastSeen log).Pairwise fun d e => d.message.lastUpdateId < e.message.lastUpdateId := by
  induction log generalizing lastSeen with
  | nil => exact List.Pairwise.nil
  | cons d log ih =>
      rw [accepted]
      split_ifs with hfresh
      · exact List.pairwise_cons.mpr
          ⟨fun e he => fresh_some.mp (fresh_of_mem_accepted he), ih _⟩
      · exact ih _

/-- No id is accepted twice. -/
lemma eq_of_lastUpdateId {lastSeen : Option ℤ} {log : List Delivery} {d e : Delivery}
    (hd : d ∈ accepted lastSeen log) (he : e ∈ accepted lastSeen log)
    (h : d.message.lastUpdateId = e.message.lastUpdateId) : d = e := by
  have hnodup : ((accepted lastSeen log).map fun d => d.message.lastUpdateId).Nodup := by
    rw [List.Nodup, List.pairwise_map]
    exact (accepted_pairwise lastSeen log).imp fun hlt => ne_of_lt hlt
  exact List.inj_on_of_nodup_map hnodup hd he h

/-! ## The cells after a run -/

/-- The diffs of the messages in order, by `apply_depth_diff`. -/
def foldDiffs (book : Book) (messages : List DepthMessage) : Except PyError Book :=
  messages.foldlM applyMessage book

lemma foldDiffs_eq {book : Book} (h : book.IsNumeric) (messages : List DepthMessage) :
    foldDiffs book messages = .ok (messages.foldl Book.apply book) ∧
      (messages.foldl Book.apply book).IsNumeric := by
  induction messages generalizing book with
  | nil => exact ⟨rfl, h⟩
  | cons m messages ih =>
      rcases h.apply m with ⟨happly, hnumeric, _, _⟩
      rcases ih hnumeric with ⟨hfold, hend⟩
      refine ⟨?_, hend⟩
      rw [foldDiffs, List.foldlM_cons, happly, ok_bind]
      exact hfold

/-- The messages whose diffs the operator writes into the book. -/
def applied (lastSeen : Option ℤ) (log : List Delivery) : List DepthMessage :=
  ((accepted lastSeen log).filter fun d => ¬ d.Late).map (·.message)

/-- **The cells of a key** after any run over its deliveries. -/
theorem step_run_state (s : ProcessorState) (log : List Delivery) :
    let s' := (Transducer.runPure ProcessorState.step s log).1
    s'.book.getD Book.empty = (applied s.lastUpdateId log).foldl Book.apply
        (s.book.getD Book.empty) ∧
      s'.lastUpdateId = ((accepted s.lastUpdateId log).getLast?.map (·.message.lastUpdateId)).or
        s.lastUpdateId := by
  induction log generalizing s with
  | nil => simp [applied, accepted]
  | cons d log ih =>
      rw [Transducer.runPure_cons]
      have htail := ih (s.step d).1
      simp only at htail ⊢
      rw [htail.1, htail.2]
      by_cases hfresh : Fresh s.lastUpdateId d.message.lastUpdateId
      · by_cases hlate : d.Late
        · simp [ProcessorState.step, applied, accepted, hfresh, hlate, List.getLast?_cons]
        · simp [ProcessorState.step, applied, accepted, hfresh, hlate, List.getLast?_cons]
      · simp [ProcessorState.step, applied, accepted, hfresh]

/-- The rows of the accepted deliveries: one for each that is not late and leaves two sides. -/
def rowsOf (book : Book) : List Delivery → List BookTickerRow
  | [] => []
  | d :: ds =>
      if d.Late then rowsOf book ds
      else ((book.apply d.message).quote.map d.row).toList ++ rowsOf (book.apply d.message) ds

/-- **The rows of a run** over the deliveries of one key. -/
theorem step_run_rows (s : ProcessorState) (log : List Delivery) :
    (Transducer.runPure ProcessorState.step s log).2
      = rowsOf (s.book.getD Book.empty) (accepted s.lastUpdateId log) := by
  induction log generalizing s with
  | nil => rfl
  | cons d log ih =>
      rw [Transducer.runPure_cons, ih]
      by_cases hfresh : Fresh s.lastUpdateId d.message.lastUpdateId
      · by_cases hlate : d.Late
        · simp [ProcessorState.step, accepted, rowsOf, hfresh, hlate]
        · simp [ProcessorState.step, accepted, rowsOf, hfresh, hlate]
      · simp [ProcessorState.step, accepted, hfresh]

/-- **A run over one key from empty state** emits the rows of its accepted deliveries. -/
theorem normalize_ofKey (render : Json → String) {key : String} {s : String → ProcessorState}
    {log : List Delivery} (hkey : ∀ d ∈ log, d.message.key = key)
    (hempty : s key = ProcessorState.empty) :
    ∃ s', normalize render s (log.map Delivery.element)
      = .ok (s', rowsOf Book.empty (accepted none log)) := by
  have hnumeric : ∀ d ∈ log, (s d.message.key).IsNumeric := by
    intro d hd
    rw [hkey d hd, hempty]
    exact ProcessorState.empty_isNumeric
  have hrows : (Transducer.runPure normalizeStep s log).2
      = rowsOf Book.empty (accepted none log) := by
    rw [normalizeStep, Transducer.keyedPure_outputs _ _ hkey, hempty, step_run_rows]
    rfl
  exact ⟨_, (normalize_eq render log hnumeric).trans (by rw [← hrows])⟩

/-- A row comes from an accepted delivery that was not late. -/
lemma mem_rowsOf {book : Book} {ds : List Delivery} {row : BookTickerRow}
    (h : row ∈ rowsOf book ds) : ∃ d ∈ ds, ¬ d.Late ∧ ∃ q, row = d.row q := by
  induction ds generalizing book with
  | nil => cases h
  | cons d ds ih =>
      rw [rowsOf] at h
      split_ifs at h with hlate
      · rcases ih h with ⟨e, he, hrow⟩
        exact ⟨e, List.mem_cons_of_mem d he, hrow⟩
      · rcases List.mem_append.mp h with h | h
        · rcases Option.map_eq_some_iff.mp (Option.mem_toList.mp h) with ⟨q, _, hq⟩
          exact ⟨d, List.mem_cons_self, hlate, q, hq.symm⟩
        · rcases ih h with ⟨e, he, hrow⟩
          exact ⟨e, List.mem_cons_of_mem d he, hrow⟩

/-- With nothing late, the rows are the quotes of the books on the way. -/
lemma mem_rowsOf_iff {ds : List Delivery} (h : ∀ d ∈ ds, ¬ d.Late) {book : Book}
    {row : BookTickerRow} :
    row ∈ rowsOf book ds ↔ ∃ past d rest q, ds = past ++ d :: rest ∧
      (((past ++ [d]).map (·.message)).foldl Book.apply book).quote = some q ∧ row = d.row q := by
  induction ds generalizing book with
  | nil => simp [rowsOf]
  | cons d ds ih =>
      rw [rowsOf, if_neg (h d List.mem_cons_self), List.mem_append,
        ih fun e he => h e (List.mem_cons_of_mem d he)]
      constructor
      · rintro (hrow | ⟨past, e, rest, q, rfl, hquote, hrow⟩)
        · rcases Option.map_eq_some_iff.mp (Option.mem_toList.mp hrow) with ⟨q, hq, hrow⟩
          exact ⟨[], d, ds, q, rfl, hq, hrow.symm⟩
        · exact ⟨d :: past, e, rest, q, rfl, hquote, hrow⟩
      · rintro ⟨past, e, rest, q, hsplit, hquote, hrow⟩
        cases past with
        | nil =>
            rcases List.cons.inj hsplit with ⟨rfl, _⟩
            refine Or.inl (Option.mem_toList.mpr (Option.map_eq_some_iff.mpr ⟨q, hquote, hrow.symm⟩))
        | cons c past =>
            rcases List.cons.inj hsplit with ⟨rfl, rfl⟩
            exact Or.inr ⟨past, e, rest, q, rfl, hquote, hrow⟩

/-- The deliveries of one key. -/
def ofKey (key : String) (log : List Delivery) : List Delivery :=
  log.filter fun d => d.message.key = key

lemma normalizeStep_state (s : String → ProcessorState) (log : List Delivery) (key : String) :
    (Transducer.runPure normalizeStep s log).1 key
      = (Transducer.runPure ProcessorState.step (s key) (ofKey key log)).1 :=
  Transducer.keyedPure_state (fun d : Delivery => d.message.key) s log key

/-- **The book is the fold of what was applied.**  After the job has read any log of well-formed
records at any times, the book of every key is the fold of `apply_depth_diff`, from the empty book
and in arrival order, over the diffs of exactly the accepted messages that were not late, whether or
not they left the book with two sides; and the stored id is that of the last accepted message, which
is the greatest accepted id.  The log may be any, so this holds in every state the job goes through.
-/
theorem stored_book_is_fold (render : Json → String) (log : List Delivery) :
    ∃ s rows, normalize render noState (log.map Delivery.element) = .ok (s, rows) ∧
      ∀ key,
        foldDiffs Book.empty (applied none (ofKey key log)) = .ok ((s key).book.getD Book.empty) ∧
        (s key).lastUpdateId
          = (accepted none (ofKey key log)).getLast?.map (·.message.lastUpdateId) ∧
        ∀ d ∈ accepted none (ofKey key log), ∃ id ∈ (s key).lastUpdateId,
          d.message.lastUpdateId ≤ id := by
  refine ⟨_, _, normalize_noState render log, fun key => ?_⟩
  rcases step_run_state ProcessorState.empty (ofKey key log) with ⟨hbook, hid⟩
  have hstate := normalizeStep_state noState log key
  have hid' : ((Transducer.runPure normalizeStep noState log).1 key).lastUpdateId
      = (accepted none (ofKey key log)).getLast?.map (·.message.lastUpdateId) := by
    rw [hstate]
    simpa [noState, ProcessorState.empty] using hid
  refine ⟨?_, hid', fun d hd => ?_⟩
  · rw [(foldDiffs_eq Book.numeric_empty _).1, hstate]
    exact congrArg Except.ok hbook.symm
  · have hpair := accepted_pairwise none (ofKey key log)
    rw [hid']
    rcases List.eq_nil_or_concat (accepted none (ofKey key log)) with hnil | ⟨ds, last, hconcat⟩
    · rw [hnil] at hd
      cases hd
    · rw [hconcat, List.concat_eq_append] at hd hpair ⊢
      refine ⟨last.message.lastUpdateId, by simp, ?_⟩
      rcases List.mem_append.mp hd with hd | hd
      · exact le_of_lt ((List.pairwise_append.mp hpair).2.2 d hd last (by simp))
      · rw [List.mem_singleton.mp hd]

/-! ## A late message -/

/-- The JSON object of a message, with the texts of its two instants. -/
def DepthMessage.fields (m : DepthMessage) (eventTs ingestTs : String) : List (String × Json) :=
  [("event_id", .str m.eventId), ("exchange", .str m.exchange), ("symbol", .str m.symbol),
    ("exchange_event_ts", .str eventTs), ("ingest_ts", .str ingestTs),
    ("first_update_id", .int m.firstUpdateId), ("last_update_id", .int m.lastUpdateId),
    ("bids", Json.ofLevels (m.bids.map pair)), ("asks", Json.ofLevels (m.asks.map pair))]

lemma DepthMessage.fields_of {m : DepthMessage} {eventTs ingestTs : String} {event ingest : ℤ}
    (he : fromisoformat (replaceZ eventTs) = .ok event) (hem : m.exchangeEventMs = epochMs event)
    (hi : fromisoformat (replaceZ ingestTs) = .ok ingest) (him : m.ingestMs = epochMs ingest) :
    FieldsOf (m.fields eventTs ingestTs) m where
  eventId := rfl
  exchange := rfl
  symbol := rfl
  exchangeEventMs := ⟨eventTs, event, rfl, he, hem⟩
  ingestMs := ⟨ingestTs, ingest, rfl, hi, him⟩
  firstUpdateId := rfl
  lastUpdateId := rfl
  bids := rfl
  asks := rfl

/-- A record of 2024-01-01 00:00:00 that carries the message, processed so many milliseconds after
its event time. -/
def deliveryOf (m : DepthMessage) (he : m.exchangeEventMs = 1704067200000)
    (hi : m.ingestMs = 1704067200000) (offset lag : ℤ) : Delivery where
  record := ⟨.json (.obj (m.fields "2024-01-01T00:00:00Z" "2024-01-01T00:00:00Z")), 0, offset⟩
  clock := ⟨1704067200000 + lag, 1704067200000 + lag, 1704067200000 + lag⟩
  message := m
  carries := by
    have hiso : fromisoformat (replaceZ "2024-01-01T00:00:00Z") = .ok 1704067200000000 := by
      decide +kernel
    have hms : (1704067200000 : ℤ) = epochMs 1704067200000000 := by decide
    exact ⟨_, rfl, DepthMessage.fields_of hiso (he.trans hms) hiso (hi.trans hms)⟩

/-- A message of that time with one level on each side. -/
def sampleMessage : DepthMessage where
  eventId := "binance#btcusdt#7"
  exchange := "binance"
  symbol := "btcusdt"
  exchangeEventMs := 1704067200000
  ingestMs := 1704067200000
  firstUpdateId := 7
  lastUpdateId := 7
  bids := [("100", "1")]
  asks := [("101", "1")]
  numericBids := by decide +kernel
  numericAsks := by decide +kernel

def sampleDelivery (lag : ℤ) : Delivery := deliveryOf sampleMessage rfl rfl 1 lag

/-- A message of 66 seconds after that one, with one more bid. -/
def laterMessage : DepthMessage where
  eventId := "binance#btcusdt#8"
  exchange := "binance"
  symbol := "btcusdt"
  exchangeEventMs := 1704067266000
  ingestMs := 1704067266000
  firstUpdateId := 8
  lastUpdateId := 8
  bids := [("99", "2")]
  asks := []
  numericBids := by decide +kernel
  numericAsks := by decide +kernel

def laterDelivery : Delivery where
  record := ⟨.json (.obj (laterMessage.fields "2024-01-01T00:01:06Z" "2024-01-01T00:01:06Z")), 0, 2⟩
  clock := ⟨1704067266005, 1704067266005, 1704067266005⟩
  message := laterMessage
  carries := by
    have hiso : fromisoformat (replaceZ "2024-01-01T00:01:06Z") = .ok 1704067266000000 := by
      decide +kernel
    have hms : (1704067266000 : ℤ) = epochMs 1704067266000000 := by decide
    exact ⟨_, rfl, DepthMessage.fields_of hiso hms hiso hms⟩

/-- One accepted message that is late leaves its id in one cell and nothing in the other, so the
book is not the fold over the accepted messages. -/
theorem late_message_splits_the_cells :
    ¬ ∀ (render : Json → String) (log : List Delivery) (s : String → ProcessorState)
        (rows : List BookTickerRow),
      normalize render noState (log.map Delivery.element) = .ok (s, rows) → ∀ key,
        foldDiffs Book.empty ((accepted none (ofKey key log)).map (·.message))
          = .ok ((s key).book.getD Book.empty) := by
  intro h
  have hrun := normalize_noState (fun _ => "") [sampleDelivery 30001]
  have hfold := h _ _ _ _ hrun "binance#btcusdt"
  rw [normalizeStep_state] at hfold
  exact absurd hfold (by decide +kernel)

end Ticksense
