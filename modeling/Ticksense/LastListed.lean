import Ticksense.Pipeline

/-!
# The rows when messages are missing

`EndToEnd.lean` is about one session without gaps and with nothing late.  The raw topic of the
service is not like that: between two connections of a client messages are missing, a send can fail,
the dead-letter topic takes some, and a message that is read late is not written into the book of
the job.  So the book is no copy of the exchange's, not even on the prices it has seen.

* `bookAfter_levels` — it is still the map into which the diffs of the messages are written.
* `AsLastListed` — so a level is what the last message says that lists it: it was true then, and it
  is still true if no message is missing since.
* `rows_as_last_listed` — every row of a symbol shows the best of these levels, on any run of the
  service and of the job.
-/

namespace Ticksense

open Checkpoint VersionedMap

/-- A published event as a diff of the exchange's level map. -/
def OrderBookEvent.diff (e : OrderBookEvent) : Diff Level String where
  first := e.firstUpdateId
  last := e.lastUpdateId
  entries := diffEntries e.bids e.asks

lemma IsRecordOf.diff {out : OrderBookEvent} {d : Delivery} (h : IsRecordOf out d) :
    d.message.diff = out.diff := by
  simp only [DepthMessage.diff, OrderBookEvent.diff, h.firstUpdateId, h.lastUpdateId, h.bids,
    h.asks]

/-- The records of truthful events are truthful. -/
lemma truthful_of_records {x : Exchange} {published : List OrderBookEvent} {ds : List Delivery}
    (hrecords : List.Forall₂ IsRecordOf published ds)
    (htruth : ∀ e ∈ published, e.diff.Truthful x.history) :
    ∀ d ∈ ds, d.message.diff.Truthful x.history := by
  induction hrecords with
  | nil => simp
  | @cons e d published ds hd _ ih =>
      intro d' hd'
      rcases List.mem_cons.mp hd' with rfl | hd'
      · rw [hd.diff]
        exact htruth e List.mem_cons_self
      · exact ih (fun e' he' => htruth e' (List.mem_cons_of_mem e he')) d' hd'

/-! ## Levels as they were last listed -/

/-- The diffs of some deliveries, in their order. -/
def diffsOf (ds : List Delivery) : List (Diff Level String) := ds.map fun d => d.message.diff

/-- The levels of a side that the diffs leave. -/
def levelsOf (ds : List Delivery) (side : Side) (price : String) : Option String :=
  patchAll (diffsOf ds) (side, price)

/-- **The job's book, whatever is missing.**  It is the map into which the diffs are written. -/
lemma bookAfter_levels (ds : List Delivery) :
    levelMap (bookAfter ds).bids.get? (bookAfter ds).asks.get? = patchAll (diffsOf ds) := by
  induction ds using List.reverseRecOn with
  | nil =>
      funext level
      rcases level with ⟨side, price⟩
      cases side <;> rfl
  | append_singleton past d ih =>
      have hreplica := (bookAfter_isNumeric past).apply_replica d.message 0
      have hmap : levelMap ((bookAfter past).apply d.message).bids.get?
          ((bookAfter past).apply d.message).asks.get?
            = patch (levelMap (bookAfter past).bids.get? (bookAfter past).asks.get?)
              d.message.diff.entries := congrArg Replica.map hreplica
      have hdiffs : diffsOf (past ++ [d]) = diffsOf past ++ [d.message.diff] := by
        simp [diffsOf]
      rw [bookAfter_append_singleton, hmap, ih, hdiffs, patchAll_append_singleton]

/-- A level of these deliveries as the last of them says that lists it: the exchange had it then,
and it has it at update `n` if nothing is missing behind that delivery. -/
def AsLastListed (x : Exchange) (ds : List Delivery) (n : ℕ) (side : Side) (price qty : String) :
    Prop :=
  ∃ d after, LastLists (diffsOf ds) (side, price) d after ∧
    x.book d.last.toNat side price = some qty ∧
    (List.IsChain Diff.Continues (d :: after) → x.book n side price = some qty)

/-- What is written into the map is as last listed. -/
lemma asLastListed_of_levels {x : Exchange} {past : List Delivery} {d : Delivery}
    (htruth : ∀ e ∈ past ++ [d], e.message.diff.Truthful x.history) {side : Side}
    {price qty : String} (h : levelsOf (past ++ [d]) side price = some qty) :
    AsLastListed x (past ++ [d]) d.message.lastUpdateId.toNat side price qty := by
  have hdiffs : ∀ e ∈ diffsOf (past ++ [d]), e.Truthful x.history := by
    intro e he
    rcases List.mem_map.mp he with ⟨c, hc, rfl⟩
    exact htruth c hc
  obtain ⟨e, after, hlists, hversion⟩ := patchAll_eq_some hdiffs h
  refine ⟨e, after, hlists, hversion, fun hchain => ?_⟩
  obtain ⟨before, hsplit⟩ := hlists.split
  have hmem : ∀ c ∈ e :: after, c.Truthful x.history := by
    intro c hc
    refine hdiffs c ?_
    rw [hsplit]
    exact List.mem_append_right before hc
  -- the last of the diffs is that of `d`
  have hlast : d.message.diff ∈ (e :: after).getLast? := by
    have hend : (diffsOf (past ++ [d])).getLast? = some d.message.diff := by
      rw [diffsOf, List.map_append, List.map_singleton, List.getLast?_concat]
    rwa [hsplit, List.getLast?_append_cons] at hend
  have hsame := version_eq_of_continues hchain
    (fun c hc => hmem c (List.mem_cons_of_mem e hc)) hlists.unlisted
    (hmem e List.mem_cons_self).last_nonneg _ hlast
  exact hsame.trans hversion

/-! ## The rows -/

/-- The row shows the best levels of these deliveries as they were last listed. -/
structure ShowsLastListed (x : Exchange) (ds : List Delivery) (row : BookTickerRow) : Prop where
  bid : ∃ price qty, IsBest (· ≤ ·) (levelsOf ds .bid) price qty ∧
    AsLastListed x ds row.lastUpdateId.toNat .bid price qty ∧
    row.bestBidPrice = .fin (value price) ∧ row.bestBidQty = .fin (value qty)
  ask : ∃ price qty, IsBest (· ≥ ·) (levelsOf ds .ask) price qty ∧
    AsLastListed x ds row.lastUpdateId.toNat .ask price qty ∧
    row.bestAskPrice = .fin (value price) ∧ row.bestAskQty = .fin (value qty)

lemma showsLastListed_of_quote {x : Exchange} {past : List Delivery} {d : Delivery}
    (htruth : ∀ e ∈ past ++ [d], e.message.diff.Truthful x.history) {q : Quote}
    (hq : (bookAfter (past ++ [d])).quote = some q) :
    ShowsLastListed x (past ++ [d]) (d.row q) := by
  rcases (bookAfter_isNumeric _).quote_spec hq with ⟨bp, bq, ap, aq, hbid, hask, _, _, _, _, rfl⟩
  have hlevels := bookAfter_levels (past ++ [d])
  have hbids : (bookAfter (past ++ [d])).bids.get? = levelsOf (past ++ [d]) .bid := by
    funext price
    exact congrFun hlevels (.bid, price)
  have hasks : (bookAfter (past ++ [d])).asks.get? = levelsOf (past ++ [d]) .ask := by
    funext price
    exact congrFun hlevels (.ask, price)
  rw [hbids] at hbid
  rw [hasks] at hask
  exact ⟨⟨bp, bq, hbid, asLastListed_of_levels htruth hbid.level, rfl, rfl⟩,
    ⟨ap, aq, hask, asLastListed_of_levels htruth hask.level, rfl, rfl⟩⟩

/-- A late delivery leaves no row and is not written into the book. -/
lemma rowsOf_filter (book : Book) (ds : List Delivery) :
    rowsOf book (ds.filter fun d => ¬ d.Late) = rowsOf book ds := by
  induction ds generalizing book with
  | nil => rfl
  | cons d ds ih =>
      by_cases hlate : d.Late
      · rw [rowsOf, if_pos hlate, List.filter_cons_of_neg (by simpa using hlate), ih]
      · rw [List.filter_cons_of_pos (by simpa using hlate), rowsOf, rowsOf, if_neg hlate,
          if_neg hlate, ih]

/-- The deliveries whose diffs the operator writes into its book. -/
def appliedDeliveries (ds : List Delivery) : List Delivery :=
  (accepted none ds).filter fun d => ¬ d.Late

/-- The rows of the operator. -/
lemma row_of_run {x : Exchange} {ds : List Delivery}
    (htruth : ∀ d ∈ ds, d.message.diff.Truthful x.history) {row : BookTickerRow}
    (h : row ∈ (Transducer.runPure ProcessorState.step ProcessorState.empty ds).2) :
    ∃ past d rest, appliedDeliveries ds = past ++ d :: rest ∧
      row.lastUpdateId = d.message.lastUpdateId ∧ ShowsLastListed x (past ++ [d]) row := by
  rw [step_run_rows] at h
  have happlied : row ∈ rowsOf Book.empty (appliedDeliveries ds) := by
    rw [appliedDeliveries, rowsOf_filter]
    exact h
  have honTime : ∀ d ∈ appliedDeliveries ds, ¬ d.Late := by
    intro d hd
    simpa using (List.mem_filter.mp hd).2
  obtain ⟨past, d, rest, q, hsplit, hquote, rfl⟩ := (mem_rowsOf_iff honTime).mp happlied
  refine ⟨past, d, rest, hsplit, rfl, showsLastListed_of_quote (fun e he => htruth e ?_) hquote⟩
  have hmem : e ∈ appliedDeliveries ds := by
    rw [hsplit]
    exact List.append_subset_of_subset_of_subset (List.subset_append_left _ _) (by simp) he
  exact mem_of_mem_accepted (List.mem_filter.mp hmem).1

section Service

variable {κ : Type} [DecidableEq κ] {symbol : κ → String} {σ : Service κ}
  {partitionOf : String → ℤ}

/-- **The rows are as last listed.**  The service and the job run together under any interleaving
and with any failures, reconnects and restarts, and what a client has published is true of its
exchange `x`, but anything may be missing in it.  Then the rows of the client's symbol come from what
it has published, up to some point, and every one of them shows the best of the levels that the
messages leave which were written into the book up to the row's: each level is what the exchange had
at the last of these messages that lists it, and what it has at the row's id if no message is missing
since. -/
theorem rows_as_last_listed (modelDumpJson : OrderBookEvent → Except PyError String)
    (hinjective : Function.Injective symbol)
    (hservice : Machine.Reaches (Service.Step modelDumpJson symbol) Service.start σ)
    (render : Json → String) {log₀ : List KafkaRow}
    {sys : System ℤ KafkaRow (String → ProcessorState) BookTickerRow}
    (hjob : Machine.Reaches (Step (normalizeJob render Carried))
      (System.fresh (normalizeJob render Carried) log₀) sys)
    (hlog : List.Forall₂ (IsWritten partitionOf) σ.raw sys.log) (i : κ) (x : Exchange)
    (htruth : ∀ m ∈ (σ.clients i).published, m.event.diff.Truthful x.history) :
    ∃ published ds,
      published <+: (σ.clients i).published.map RawMessage.event ∧
      List.Forall₂ IsRecordOf published ds ∧
      (sys.table ++ sys.prepared).filter (fun row => row.key render = rawKey (symbol i))
        = (Transducer.runPure ProcessorState.step ProcessorState.empty ds).2 ∧
      ∀ row ∈ sys.table ++ sys.prepared, row.key render = rawKey (symbol i) →
        ∃ past d rest, appliedDeliveries ds = past ++ d :: rest ∧
          row.lastUpdateId = d.message.lastUpdateId ∧ ShowsLastListed x (past ++ [d]) row := by
  obtain ⟨published, ds, hupTo, hrecords, hrun, _⟩ :=
    deliveries_of_symbol hinjective hservice render hjob hlog i
  have hrows := filter_rows_of_run render (rawKey (symbol i)) hrun
  have htrue := truthful_of_records hrecords fun e he => by
    obtain ⟨m, hm, rfl⟩ := List.mem_map.mp (hupTo.subset he)
    exact htruth m hm
  refine ⟨published, ofKey (rawKey (symbol i)) ds, hupTo, hrecords, hrows, ?_⟩
  intro row hrow hkey
  refine row_of_run htrue ?_
  rw [← hrows]
  exact List.mem_filter.mpr ⟨hrow, by simpa using hkey⟩

end Service

theorem rows_as_last_listed_sample :
    ∃ (σ : Service Bool) (sys : System ℤ KafkaRow (String → ProcessorState) BookTickerRow)
      (published : List OrderBookEvent) (ds : List Delivery),
      published <+: (σ.clients true).published.map RawMessage.event ∧
      List.Forall₂ IsRecordOf published ds ∧ (σ.clients true).published.length = 3 ∧
      sys.table.length = 3 ∧ sys.topic.length = 4 ∧
      (sys.table.filter fun row => row.key (fun _ => "") = rawKey "btcusdt").map
        (fun row => (row.lastUpdateId, row.bestBidPrice)) = [(3, .fin 100), (4, .fin 100)] ∧
      ∀ row ∈ sys.table, row.key (fun _ => "") = rawKey "btcusdt" →
        ∃ past d rest, appliedDeliveries ds = past ++ d :: rest ∧
          row.lastUpdateId = d.message.lastUpdateId ∧
          ShowsLastListed sampleExchange (past ++ [d]) row := by
  obtain ⟨σ, sys, hservice, hpublished, hjob, hwritten, _, hprepared, htable, htopic⟩ :=
    reaches_fourRecords
  have htruth : ∀ m ∈ (σ.clients true).published, m.event.diff.Truthful sampleExchange.history := by
    intro m hm
    have hevent := List.mem_map_of_mem (f := RawMessage.event) hm
    rw [hpublished] at hevent
    simp only [List.mem_cons, List.not_mem_nil, or_false] at hevent
    rcases hevent with heq | heq | heq
    · rw [heq]
      exact topEvent_truthful.diff_truthful
    · rw [heq]
      exact topEvent_truthful.diff_truthful
    · rw [heq]
      exact nextEvent_truthful.diff_truthful
  obtain ⟨published, ds, hupTo, hds, _, hall⟩ := rows_as_last_listed _ twoSymbols_injective hservice
    (fun _ => "") hjob hwritten true sampleExchange htruth
  refine ⟨σ, sys, published, ds, hupTo, hds, ?_, ?_, ?_, ?_, fun row hrow =>
    hall row (List.mem_append_left _ hrow)⟩
  · rw [← List.length_map RawMessage.event, hpublished]
    rfl
  · rw [htable]
    decide +kernel
  · rw [htopic, htable]
    decide +kernel
  · rw [htable]
    decide +kernel

end Ticksense
