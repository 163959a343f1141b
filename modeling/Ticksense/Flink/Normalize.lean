import Ticksense.Flink.Logic
import Ticksense.Lib.Transducer
import Ticksense.Python.Datetime

/-!
# The normalize job

`flink/jobs/normalize.py`: one operator, keyed by `exchange#symbol`, with two state cells per key.
It reads the raw topic and writes book-ticker rows.

* `processElement` — the operator as the code has it, on any payload, with every exception.
* `Delivery` — a record whose payload is a well-formed message, together with that message.
* `ProcessorState.step` — the operator on deliveries, without the reading and without exceptions:
  duplicate, late, one-sided book, row.  `processElement_eq_step` says that on deliveries the
  operator is this step; everything proved about runs of the job goes through it.
* `normalize`, `normalize_eq` — the job over a log, for all keys at once.
-/

namespace Ticksense

open VersionedMap

/-! ## The operator -/

namespace Config

/-- `TOPIC_RAW` -/
def topicRaw : String := "market.raw.orderbook"

/-- `LATE_THRESHOLD_SECONDS` -/
def lateThresholdSeconds : ℤ := 30

end Config

/-- A record of the raw topic: `Row(payload, partition, offset)`. -/
structure KafkaRow where
  payload : Payload
  partition : ℤ
  offset : ℤ

/-- The readings of the wall clock while one record is processed, in epoch milliseconds: in place of
a missing event time, for the lateness test, in place of a missing ingest time. -/
structure Clock where
  atEvent : ℤ
  now : ℤ
  atIngest : ℤ

/-- The operator's book, decoded from its state cell. -/
structure Book where
  bids : Dict String String
  asks : Dict String String
deriving DecidableEq

def Book.empty : Book := ⟨Dict.empty, Dict.empty⟩

/-- The two state cells of a key. -/
structure ProcessorState where
  book : Option Book
  lastUpdateId : Option ℤ
deriving DecidableEq

def ProcessorState.empty : ProcessorState := ⟨none, none⟩

/-- A row of the book-ticker table (`BOOK_TICKER_TYPE`). -/
structure BookTickerRow where
  eventId : Json
  exchange : Json
  symbol : Json
  exchangeEventTsMs : ℤ
  ingestTsMs : ℤ
  processedTsMs : ℤ
  lastUpdateId : ℤ
  firstUpdateId : ℤ
  bestBidPrice : PyFloat
  bestBidQty : PyFloat
  bestAskPrice : PyFloat
  bestAskQty : PyFloat
  spread : PyFloat
  midPrice : PyFloat
  imbalance : PyFloat
  srcKafkaTopic : String
  srcKafkaPartition : ℤ
  srcKafkaOffset : ℤ

/-- `_to_epoch_ms`, with the current time for a value that is none of text and number. -/
def toEpochMs (now : ℤ) : Json → Except PyError ℤ
  | .str text => do return epochMs (← fromisoformat (replaceZ text))
  | .bool b => .ok (if b then 1 else 0)
  | .int n => .ok n
  | .real x => x.trunc
  | _ => .ok now

/-- A value in an f-string.  How a value other than a text is rendered is left open. -/
def format (render : Json → String) : Json → String
  | .str text => text
  | v => render v

/-- `_kafka_key` -/
def kafkaKey (render : Json → String) (record : KafkaRow) : Except PyError String := do
  let data ← record.payload.loads
  let exchange ← data.getItem "exchange"
  let symbol ← data.getItem "symbol"
  return format render exchange ++ "#" ++ format render symbol

/-- Step 4 of `process_element`: the row for a two-sided book. -/
def emitRow (value : KafkaRow) (clock : Clock) (msg : Json) (lastUpdateId exchangeEventTsMs : ℤ)
    (book : Book) : Except PyError (List BookTickerRow) := do
  match ← bestBid book.bids, ← bestAsk book.asks with
  | some (bbPrice, bbQty), some (baPrice, baQty) =>
      return [{
        eventId := ← msg.get "event_id" (.str "")
        exchange := ← msg.get "exchange" (.str "")
        symbol := ← msg.get "symbol" (.str "")
        exchangeEventTsMs := exchangeEventTsMs
        ingestTsMs := ← toEpochMs clock.atIngest
          ((← msg.get "ingest_ts" .null).or (← msg.get "ingest_time" (.str "")))
        processedTsMs := clock.now
        lastUpdateId := lastUpdateId
        firstUpdateId := ← (← msg.get "first_update_id" (.int 0)).toInt
        bestBidPrice := bbPrice
        bestBidQty := bbQty
        bestAskPrice := baPrice
        bestAskQty := baQty
        spread := computeSpread bbPrice baPrice
        midPrice := ← computeMidPrice bbPrice baPrice
        imbalance := ← computeImbalance book.bids book.asks 5
        srcKafkaTopic := Config.topicRaw
        srcKafkaPartition := value.partition
        srcKafkaOffset := value.offset }]
  -- not enough levels yet
  | _, _ => return []

/-- `process_element` -/
def processElement (s : ProcessorState) (value : KafkaRow) (clock : Clock) :
    Except PyError (ProcessorState × List BookTickerRow) := do
  let msg ← value.payload.loads
  let lastUpdateId ← (← msg.getItem "last_update_id").toInt
  -- 1. dedup
  if s.lastUpdateId.any fun lastSeen => lastUpdateId ≤ lastSeen then return (s, [])
  let s := { s with lastUpdateId := some lastUpdateId }
  -- 2. late events are dropped, after the id has been stored
  let exchangeEventTsMs ← toEpochMs clock.atEvent
    ((← msg.get "exchange_event_ts" .null).or (← msg.get "event_time" (.str "")))
  if ((clock.now - exchangeEventTsMs : ℤ) : ℚ) / 1000 > Config.lateThresholdSeconds then
    return (s, [])
  -- 3. apply the diff
  let book := s.book.getD Book.empty
  let bidUpdates ← ((← msg.get "bids" .null).or (.arr [])).levels
  let askUpdates ← ((← msg.get "asks" .null).or (.arr [])).levels
  let (bids, asks) ← applyDepthDiff book.bids book.asks bidUpdates askUpdates
  let book := ⟨bids, asks⟩
  -- 4. emit
  let rows ← emitRow value clock msg lastUpdateId exchangeEventTsMs book
  return ({ s with book := some book }, rows)

/-- A record as it reaches the operator: with the time at which it does. -/
structure Element where
  record : KafkaRow
  clock : Clock

/-- **The job** over a log: the operator on every record, with the state cells of the record's
key. -/
def normalize (render : Json → String) :
    (String → ProcessorState) → List Element →
      Except PyError ((String → ProcessorState) × List BookTickerRow) :=
  Transducer.run (Transducer.keyed (fun e => kafkaKey render e.record)
    fun s e => processElement s e.record e.clock)

/-! ## Well-formed messages -/

/-- A message of the raw topic. -/
structure DepthMessage where
  eventId : String
  exchange : String
  symbol : String
  exchangeEventMs : ℤ
  ingestMs : ℤ
  firstUpdateId : ℤ
  lastUpdateId : ℤ
  bids : List (String × String)
  asks : List (String × String)
  numericBids : NumericLevels bids
  numericAsks : NumericLevels asks

/-- The key a message is routed by. -/
def DepthMessage.key (m : DepthMessage) : String := m.exchange ++ "#" ++ m.symbol

/-- A field holds the ISO text of an instant. -/
def IsInstant (fields : List (String × Json)) (key : String) (ms : ℤ) : Prop :=
  ∃ text micros, Json.field? fields key = some (.str text) ∧
    fromisoformat (replaceZ text) = .ok micros ∧ ms = epochMs micros

/-- The fields of an object are those of a message. -/
structure FieldsOf (fields : List (String × Json)) (m : DepthMessage) : Prop where
  eventId : Json.field? fields "event_id" = some (.str m.eventId)
  exchange : Json.field? fields "exchange" = some (.str m.exchange)
  symbol : Json.field? fields "symbol" = some (.str m.symbol)
  exchangeEventMs : IsInstant fields "exchange_event_ts" m.exchangeEventMs
  ingestMs : IsInstant fields "ingest_ts" m.ingestMs
  firstUpdateId : Json.field? fields "first_update_id" = some (.int m.firstUpdateId)
  lastUpdateId : Json.field? fields "last_update_id" = some (.int m.lastUpdateId)
  bids : Json.field? fields "bids" = some (Json.ofLevels (m.bids.map pair))
  asks : Json.field? fields "asks" = some (Json.ofLevels (m.asks.map pair))

/-- The payload is the text of a message. -/
def Payload.Carries (payload : Payload) (m : DepthMessage) : Prop :=
  ∃ fields, payload = .json (.obj fields) ∧ FieldsOf fields m

/-- **A well-formed record on its way through the operator**, with the message it carries. -/
structure Delivery where
  record : KafkaRow
  clock : Clock
  message : DepthMessage
  carries : record.payload.Carries message

def Delivery.element (d : Delivery) : Element := ⟨d.record, d.clock⟩

/-! ## The operator on well-formed messages -/

/-- `apply_depth_diff` with a message's levels. -/
def applyMessage (book : Book) (m : DepthMessage) : Except PyError Book := do
  let (bids, asks) ← applyDepthDiff book.bids book.asks (m.bids.map pair) (m.asks.map pair)
  return ⟨bids, asks⟩

/-- The book after a message. -/
def Book.apply (book : Book) (m : DepthMessage) : Book :=
  match applyMessage book m with
  | .ok book => book
  | .error _ => book

/-- What a row says about the book. -/
structure Quote where
  bidPrice : ℚ
  bidQty : ℚ
  askPrice : ℚ
  askQty : ℚ
  imbalance : ℚ
deriving DecidableEq

/-- The quote of a two-sided book. -/
def Book.quote (book : Book) : Option Quote :=
  match bestBid book.bids, bestAsk book.asks with
  | .ok (some (.fin bidPrice, .fin bidQty)), .ok (some (.fin askPrice, .fin askQty)) =>
      some ⟨bidPrice, bidQty, askPrice, askQty, imbalance book.bids book.asks 5⟩
  | _, _ => none

/-- The row of a delivery with a quote. -/
def Delivery.row (d : Delivery) (q : Quote) : BookTickerRow where
  eventId := .str d.message.eventId
  exchange := .str d.message.exchange
  symbol := .str d.message.symbol
  exchangeEventTsMs := d.message.exchangeEventMs
  ingestTsMs := d.message.ingestMs
  processedTsMs := d.clock.now
  lastUpdateId := d.message.lastUpdateId
  firstUpdateId := d.message.firstUpdateId
  bestBidPrice := .fin q.bidPrice
  bestBidQty := .fin q.bidQty
  bestAskPrice := .fin q.askPrice
  bestAskQty := .fin q.askQty
  spread := .fin (q.askPrice - q.bidPrice)
  midPrice := .fin ((q.bidPrice + q.askPrice) / 2)
  imbalance := .fin q.imbalance
  srcKafkaTopic := Config.topicRaw
  srcKafkaPartition := d.record.partition
  srcKafkaOffset := d.record.offset

/-- The message reached the operator more than the threshold after its event time. -/
def Delivery.Late (d : Delivery) : Prop :=
  Config.lateThresholdSeconds * 1000 < d.clock.now - d.message.exchangeEventMs

instance (d : Delivery) : Decidable d.Late :=
  inferInstanceAs (Decidable (_ < _))

/-- The dedup step lets an id pass. -/
def Fresh (lastSeen : Option ℤ) (lastUpdateId : ℤ) : Prop := ∀ id ∈ lastSeen, id < lastUpdateId

instance (lastSeen : Option ℤ) (lastUpdateId : ℤ) : Decidable (Fresh lastSeen lastUpdateId) :=
  inferInstanceAs (Decidable (∀ id ∈ lastSeen, id < lastUpdateId))

/-- **One delivery**: dropped as a duplicate; dropped as late, with its id stored; or applied, with
a row when the book has two sides. -/
def ProcessorState.step (s : ProcessorState) (d : Delivery) : ProcessorState × List BookTickerRow :=
  if Fresh s.lastUpdateId d.message.lastUpdateId then
    if d.Late then ({ s with lastUpdateId := some d.message.lastUpdateId }, [])
    else
      let book := (s.book.getD Book.empty).apply d.message
      (⟨some book, some d.message.lastUpdateId⟩, (book.quote.map d.row).toList)
  else (s, [])

/-- A step writes no row but its delivery's. -/
lemma ProcessorState.eq_row_of_mem_step {s : ProcessorState} {d : Delivery} {row : BookTickerRow}
    (h : row ∈ (s.step d).2) : ∃ q, row = d.row q := by
  by_cases hfresh : Fresh s.lastUpdateId d.message.lastUpdateId
  · by_cases hlate : d.Late
    · simp [ProcessorState.step, hfresh, hlate] at h
    · simp only [ProcessorState.step, if_pos hfresh, if_neg hlate] at h
      rcases Option.map_eq_some_iff.mp (Option.mem_toList.mp h) with ⟨q, _, hq⟩
      exact ⟨q, hq.symm⟩
  · simp [ProcessorState.step, hfresh] at h

/-- Every price and quantity of a book is a number. -/
structure Book.IsNumeric (book : Book) : Prop where
  bids : NumericSide book.bids
  asks : NumericSide book.asks

def ProcessorState.IsNumeric (s : ProcessorState) : Prop := ∀ book ∈ s.book, book.IsNumeric

/-! ## Books of messages -/

lemma Book.numeric_empty : Book.empty.IsNumeric := ⟨numericSide_empty, numericSide_empty⟩

lemma applyMessage_eq_ok {book book' : Book} {m : DepthMessage} :
    applyMessage book m = .ok book' ↔
      applyDepthDiff book.bids book.asks (m.bids.map pair) (m.asks.map pair)
        = .ok (book'.bids, book'.asks) := by
  rw [applyMessage, bind_eq_ok]
  constructor
  · rintro ⟨⟨bids, asks⟩, hdiff, hbook⟩
    cases hbook
    exact hdiff
  · intro hdiff
    exact ⟨_, hdiff, rfl⟩

/-- **Applying a message** to a numeric book never raises and keeps the book numeric; on the map of
levels it is a patch. -/
theorem Book.IsNumeric.apply {book : Book} (h : book.IsNumeric) (m : DepthMessage) :
    applyMessage book m = .ok (book.apply m) ∧ (book.apply m).IsNumeric ∧
      (book.apply m).bids.get? = patch book.bids.get? (levelEntries m.bids) ∧
      (book.apply m).asks.get? = patch book.asks.get? (levelEntries m.asks) := by
  rcases applyDepthDiff_ok m.numericBids m.numericAsks h.bids h.asks with
    ⟨bids, asks, hrun, hb, ha, hbmap, hamap⟩
  have happly : applyMessage book m = .ok ⟨bids, asks⟩ := by
    simp only [applyMessage, hrun, ok_bind, pure_eq_ok]
  have heq : book.apply m = ⟨bids, asks⟩ := by
    simp only [Book.apply, happly]
  rw [heq]
  exact ⟨happly, ⟨hb, ha⟩, hbmap, hamap⟩

/-- **What a quote says**: the best level of each side, and the imbalance. -/
theorem Book.IsNumeric.quote_spec {book : Book} (h : book.IsNumeric) {q : Quote}
    (hq : book.quote = some q) :
    ∃ bp bq ap aq, IsBest (· ≤ ·) book.bids.get? bp bq ∧ IsBest (· ≥ ·) book.asks.get? ap aq ∧
      Numeric bp ∧ Numeric bq ∧ Numeric ap ∧ Numeric aq ∧
      q = ⟨value bp, value bq, value ap, value aq, imbalance book.bids book.asks 5⟩ := by
  rcases bestBid_ok h.bids with ⟨_, hbid⟩ | ⟨bp, bq, hbest, hbp, hbq, hbid⟩
  · simp [Book.quote, hbid] at hq
  · rcases bestAsk_ok h.asks with ⟨_, hask⟩ | ⟨ap, aq, hbest', hap, haq, hask⟩
    · simp [Book.quote, hbid, hask] at hq
    · simp only [Book.quote, hbid, hask, Option.some.injEq] at hq
      exact ⟨bp, bq, ap, aq, hbest, hbest', hbp, hbq, hap, haq, hq.symm⟩

/-- A numeric book has no quote exactly when one of its sides is empty. -/
theorem Book.IsNumeric.quote_eq_none_iff {book : Book} (h : book.IsNumeric) :
    book.quote = none ↔ book.bids.items = [] ∨ book.asks.items = [] := by
  have hne : ∀ {better : ℚ → ℚ → Prop} {side : Dict String String} {p q : String},
      IsBest better side.get? p q → side.items ≠ [] := by
    intro better side p q hbest hnil
    have hmem := Dict.mem_items_iff.mpr hbest.level
    rw [hnil] at hmem
    cases hmem
  rcases bestBid_ok h.bids with ⟨hnil, hbid⟩ | ⟨bp, bq, hbest, hbp, hbq, hbid⟩
  · simp [Book.quote, hbid, hnil]
  · rcases bestAsk_ok h.asks with ⟨hnil, hask⟩ | ⟨ap, aq, hbest', hap, haq, hask⟩
    · simp [Book.quote, hbid, hask, hnil]
    · simp [Book.quote, hbid, hask, hne hbest, hne hbest']

/-! ## Reading a message -/

lemma IsInstant.toEpochMs {fields : List (String × Json)} {key : String} {ms : ℤ}
    (h : IsInstant fields key ms) (now : ℤ) (w : Json) :
    toEpochMs now (((Json.field? fields key).getD .null).or w) = .ok ms := by
  rcases h with ⟨text, micros, hfield, hiso, rfl⟩
  have htext : text ≠ "" := by
    rintro rfl
    have hempty : fromisoformat (replaceZ "") = .error .valueError := by decide
    rw [hempty] at hiso
    cases hiso
  simp [hfield, Json.or, Json.truthy, htext, Ticksense.toEpochMs, hiso]

/-- The row of a two-sided numeric book, and no row of any other. -/
lemma emitRow_eq (d : Delivery) {fields : List (String × Json)} (hf : FieldsOf fields d.message)
    {book : Book} (h : book.IsNumeric) :
    emitRow d.record d.clock (.obj fields) d.message.lastUpdateId d.message.exchangeEventMs book
      = .ok (book.quote.map d.row).toList := by
  rcases bestBid_ok h.bids with ⟨_, hbid⟩ | ⟨bp, bq, _, _, _, hbid⟩
  · rcases bestAsk_ok h.asks with ⟨_, hask⟩ | ⟨ap, aq, _, _, _, hask⟩ <;>
      simp [emitRow, Book.quote, hbid, hask]
  · rcases bestAsk_ok h.asks with ⟨_, hask⟩ | ⟨ap, aq, _, _, _, hask⟩
    · simp [emitRow, Book.quote, hbid, hask]
    · have hmid : computeMidPrice (.fin (value bp)) (.fin (value ap))
          = .ok (.fin ((value bp + value ap) / 2)) := by
        rw [computeMidPrice, PyFloat.add_fin, PyFloat.div_fin _ (by norm_num)]
      have hingest := hf.ingestMs.toEpochMs d.clock.atIngest
      simp [emitRow, Book.quote, hbid, hask, Json.get, hf.eventId, hf.exchange, hf.symbol,
        hf.firstUpdateId, Json.toInt, hingest, hmid, computeImbalance_ok h.bids h.asks,
        computeSpread, Delivery.row]

/-! ## The operator is the step -/

/-- **On a well-formed record the operator is `step`**, from every state with a numeric book. -/
theorem processElement_eq_step {s : ProcessorState} (hs : s.IsNumeric) (d : Delivery) :
    processElement s d.record d.clock = .ok (s.step d) ∧ (s.step d).1.IsNumeric := by
  rcases d.carries with ⟨fields, hpayload, hf⟩
  have hbook : (s.book.getD Book.empty).IsNumeric := by
    cases hb : s.book with
    | none => exact Book.numeric_empty
    | some book => exact hs book hb
  rcases hbook.apply d.message with ⟨happly, hnumeric, _, _⟩
  have hlate : (((d.clock.now - d.message.exchangeEventMs : ℤ) : ℚ) / 1000
      > Config.lateThresholdSeconds) ↔ d.Late := by
    rw [gt_iff_lt, lt_div_iff₀ (by norm_num), Delivery.Late]
    exact_mod_cast Iff.rfl
  have hdup : (s.lastUpdateId.any fun lastSeen => decide (d.message.lastUpdateId ≤ lastSeen)) = true
      ↔ ¬ Fresh s.lastUpdateId d.message.lastUpdateId := by
    cases s.lastUpdateId <;> simp [Fresh]
  have hevent := hf.exchangeEventMs.toEpochMs d.clock.atEvent
  have hrow := emitRow_eq d hf hnumeric
  constructor
  · simp only [processElement, hpayload, Payload.loads, ok_bind, Json.getItem, hf.lastUpdateId,
      Json.toInt, Json.get, hevent, hf.bids, hf.asks, Option.getD_some, Json.levels_or_ofLevels,
      hlate, pure_eq_ok, ProcessorState.step]
    have hdiff := applyMessage_eq_ok.mp happly
    by_cases hfresh : Fresh s.lastUpdateId d.message.lastUpdateId
    · rw [if_neg (fun h => hdup.mp h hfresh), if_pos hfresh]
      split_ifs
      · rfl
      · rw [hdiff, ok_bind]
        simp only [hrow, ok_bind]
    · rw [if_pos (hdup.mpr hfresh), if_neg hfresh]
  · rw [ProcessorState.step]
    split_ifs
    · exact hs
    · intro book hmem
      cases hmem
      exact hnumeric
    · exact hs

/-- A well-formed record is routed by its exchange and symbol. -/
lemma kafkaKey_eq (render : Json → String) (d : Delivery) :
    kafkaKey render d.record = .ok d.message.key := by
  rcases d.carries with ⟨fields, hpayload, hf⟩
  simp [kafkaKey, hpayload, Payload.loads, Json.getItem, hf.exchange, hf.symbol, format,
    DepthMessage.key]

/-- The job on deliveries. -/
def normalizeStep : (String → ProcessorState) → Delivery →
    (String → ProcessorState) × List BookTickerRow :=
  Transducer.keyedPure (fun d => d.message.key) ProcessorState.step

lemma normalizeStep_rows (s : String → ProcessorState) (d : Delivery) :
    (normalizeStep s d).2 = ((s d.message.key).step d).2 := rfl

lemma normalizeStep_own (s : String → ProcessorState) (d : Delivery) :
    (normalizeStep s d).1 d.message.key = ((s d.message.key).step d).1 :=
  Function.update_self _ _ _

lemma normalizeStep_other (s : String → ProcessorState) {d : Delivery} {key : String}
    (h : key ≠ d.message.key) : (normalizeStep s d).1 key = s key :=
  Function.update_of_ne h _ _

/-- **The job on a log of well-formed records** never raises, and is `normalizeStep` on every one.
-/
theorem normalize_eq (render : Json → String) {s : String → ProcessorState} (log : List Delivery)
    (hs : ∀ d ∈ log, (s d.message.key).IsNumeric) :
    normalize render s (log.map Delivery.element) = .ok (Transducer.runPure normalizeStep s log) := by
  refine (Transducer.run_map_eq_runPure
    (fun s : String → ProcessorState => ∀ d ∈ log, (s d.message.key).IsNumeric) log ?_ hs).1
  intro s d hd hs
  rcases processElement_eq_step (hs d hd) d with ⟨hstep, hnumeric⟩
  refine ⟨Transducer.keyed_ok.mpr ⟨d.message.key, _, kafkaKey_eq render d, hstep, rfl⟩, ?_⟩
  intro e he
  by_cases hk : e.message.key = d.message.key
  · simpa [normalizeStep, Transducer.keyedPure, hk] using hnumeric
  · simpa [normalizeStep, Transducer.keyedPure, Function.update_of_ne hk] using hs e he

/-- The state cells of a job that has seen nothing. -/
def noState : String → ProcessorState := fun _ => ProcessorState.empty

lemma ProcessorState.empty_isNumeric : ProcessorState.empty.IsNumeric := by
  intro book hbook
  cases hbook

/-- The job on a log of well-formed records, from the beginning. -/
lemma normalize_noState (render : Json → String) (log : List Delivery) :
    normalize render noState (log.map Delivery.element)
      = .ok (Transducer.runPure normalizeStep noState log) :=
  normalize_eq render log fun _ _ => ProcessorState.empty_isNumeric

/-- Its rows. -/
lemma rows_of_noState {render : Json → String} {log : List Delivery} {s : String → ProcessorState}
    {rows : List BookTickerRow}
    (h : normalize render noState (log.map Delivery.element) = .ok (s, rows)) :
    rows = (Transducer.runPure normalizeStep noState log).2 := by
  rw [normalize_noState] at h
  exact congrArg Prod.snd (Except.ok.inj h).symm

end Ticksense
