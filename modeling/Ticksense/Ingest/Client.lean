import Mathlib.Data.List.ReduceOption
import Ticksense.Ingest.BookSync
import Ticksense.Lib.Transducer
import Ticksense.Python.Datetime

/-!
# One session of the ingest client

`ingest/src/ingest/client.py`: a connection to the depth stream.  While the REST snapshot is being
fetched, the frames that arrive are buffered; then the book is initialised from both; from then on
every frame is applied to the book and published.

* `Session` — what the outside world contributes: the polls until the snapshot is there, the
  snapshot, and the frames after it.  Frames are numbered, so that two frames with the same text
  stay two.
* `runOnce` — `_run_once`, with the trace of what it does to the outside (`Effect`): the events
  whose diff reached the book, and the events handed to the producer.
* `published_eq_applied_iff` — when the two agree.  They do not always: what is applied from the
  buffer is never published, and what the book drops as stale is.

Every call of the producer succeeds here.
-/

namespace Ticksense

/-! ## Frames and events -/

/-- What `json.loads` and the validation make of a frame: an exception that `_parse_event` does not
catch, one that it does, or an event. -/
inductive FrameContent
  | undecodable (e : PyError)
  | rejected
  | event (event : BinanceDepthEvent)

/-- A frame of the WebSocket: its number on the connection, its content, and the time at which it is
published, in microseconds. -/
structure Frame where
  seq : ℕ
  content : FrameContent
  ingestTs : ℤ

/-- A normalized diff, as it is handed to the producer. -/
structure OrderBookEvent where
  eventId : String
  exchange : String
  symbol : String
  exchangeEventTs : ℤ
  ingestTs : ℤ
  firstUpdateId : ℤ
  lastUpdateId : ℤ
  bids : List (String × String)
  asks : List (String × String)
deriving DecidableEq, Repr

/-- `_parse_event` -/
def parseEvent : FrameContent → Except PyError (Option BinanceDepthEvent)
  | .undecodable e => .error e
  | .rejected => .ok none
  | .event event => .ok (if event.eventType ≠ "depthUpdate" then none else some event)

/-- `_to_orderbook_event` -/
def toOrderbookEvent (symbol : String) (event : BinanceDepthEvent) (ingestTs : ℤ) :
    Except PyError OrderBookEvent := do
  return {
    eventId := "binance#" ++ symbol ++ "#" ++ toString event.lastUpdateId
    exchange := "binance"
    symbol := symbol
    exchangeEventTs := ← fromtimestampMs event.eventTimeMs
    ingestTs := ingestTs
    firstUpdateId := event.firstUpdateId
    lastUpdateId := event.lastUpdateId
    bids := event.bids
    asks := event.asks }

/-- An event together with the number of its frame. -/
structure Arrival where
  seq : ℕ
  event : BinanceDepthEvent
deriving DecidableEq

/-- The event of a frame that carries one. -/
def Frame.arrival (f : Frame) : Option Arrival :=
  match f.content with
  | .event event => if event.eventType ≠ "depthUpdate" then none else some ⟨f.seq, event⟩
  | _ => none

lemma Frame.arrival_seq {f : Frame} {a : Arrival} (h : f.arrival = some a) : a.seq = f.seq := by
  rw [Frame.arrival] at h
  split at h
  · split_ifs at h with htype
    rw [← Option.some.inj h]
  · cases h

/-! ## What reaches the book -/

/-- Neither stale nor a gap: the event's diff reaches `_apply`. -/
def OrderBook.Takes (book : OrderBook) (event : BinanceDepthEvent) : Prop :=
  book.lastUpdateId < event.lastUpdateId ∧ event.firstUpdateId ≤ book.lastUpdateId + 1

instance (book : OrderBook) (event : BinanceDepthEvent) : Decidable (book.Takes event) :=
  inferInstanceAs (Decidable (_ ∧ _))

/-- The arrivals whose diffs reach `_apply` when they are given to the book in order. -/
def appliedBy (book : OrderBook) : List Arrival → List Arrival
  | [] => []
  | a :: arrivals =>
      match book.apply a.event with
      | .error _ => []
      | .ok book' =>
          if book.Takes a.event then a :: appliedBy book' arrivals else appliedBy book' arrivals

/-! ## The session -/

/-- The inputs of a session; `none` among the polls is one that timed out. -/
structure Session where
  symbol : String
  polls : List (Option Frame)
  snapshot : Except PyError BinanceDepthSnapshot
  frames : List Frame
  distinct : ((polls.reduceOption ++ frames).map (·.seq)).Nodup

/-- What a session does to the outside. -/
inductive Effect
  | applied (a : Arrival)
  | produced (a : Arrival) (event : OrderBookEvent)

/-- The loop of `_initialize_book` until the snapshot is there. -/
def fillBuffer : List (Option Frame) → Except PyError (List Arrival)
  | [] => .ok []
  | none :: polls => fillBuffer polls
  | some f :: polls => do
      match ← parseEvent f.content with
      | none => fillBuffer polls
      | some event => return ⟨f.seq, event⟩ :: (← fillBuffer polls)

/-- `_initialize_book` -/
def initializeBook (s : Session) (book : OrderBook) : Except PyError (OrderBook × List Effect) := do
  let buffer ← fillBuffer s.polls
  let snapshot ← s.snapshot
  match book.initializeFrom snapshot (buffer.map (·.event)) with
  | .error (e, _) => .error e
  | .ok book' => return (book', (appliedBy (book.load snapshot) buffer).map .applied)

/-- The body of the live loop. -/
def onFrame (symbol : String) (book : OrderBook) (f : Frame) :
    Except PyError (OrderBook × List Effect) := do
  match ← parseEvent f.content with
  | none => return (book, [])
  | some event =>
      match book.apply event with
      | .error (e, _) => .error e
      | .ok book' =>
          let out ← toOrderbookEvent symbol event f.ingestTs
          return (book', (appliedBy book [⟨f.seq, event⟩]).map .applied
            ++ [.produced ⟨f.seq, event⟩ out])

/-- `_run_once`: the book at the end and everything done on the way, or the exception that ended the
session. -/
def runOnce (s : Session) : Except PyError (OrderBook × List Effect) := do
  let (book, effects) ← initializeBook s (OrderBook.new s.symbol)
  let (book, effects') ← Transducer.run (onFrame s.symbol) book s.frames
  return (book, effects ++ effects')

def Effect.appliedArrival : Effect → Option Arrival
  | .applied a => some a
  | .produced _ _ => none

def Effect.producedArrival : Effect → Option Arrival
  | .applied _ => none
  | .produced a _ => some a

/-- The arrivals whose diff reached the book, in order. -/
def appliedOf (effects : List Effect) : List Arrival := effects.filterMap Effect.appliedArrival

/-- The arrivals handed to the producer, in order. -/
def producedOf (effects : List Effect) : List Arrival := effects.filterMap Effect.producedArrival

def Effect.producedEvent : Effect → Option OrderBookEvent
  | .applied _ => none
  | .produced _ event => some event

/-- The events handed to the producer, in order. -/
def publishedOf (effects : List Effect) : List OrderBookEvent :=
  effects.filterMap Effect.producedEvent

/-- The depth updates that arrive before the snapshot. -/
def Session.buffered (s : Session) : List Arrival := s.polls.reduceOption.filterMap Frame.arrival

/-- The depth updates that arrive after it. -/
def Session.live (s : Session) : List Arrival := s.frames.filterMap Frame.arrival

/-- No arrival is both buffered and live. -/
lemma Session.buffered_live_disjoint (s : Session) {a : Arrival} (hb : a ∈ s.buffered)
    (hl : a ∈ s.live) : False := by
  rcases List.mem_filterMap.mp hb with ⟨f, hf, hfa⟩
  rcases List.mem_filterMap.mp hl with ⟨g, hg, hga⟩
  have hdistinct := s.distinct
  rw [List.map_append, List.nodup_append] at hdistinct
  refine hdistinct.2.2 f.seq (List.mem_map_of_mem hf) g.seq (List.mem_map_of_mem hg) ?_
  rw [← Frame.arrival_seq hfa, ← Frame.arrival_seq hga]

/-! ## The two loops over events are one -/

namespace OrderBook

lemma applyDiff_lastUpdateId {book book' : OrderBook} {event : BinanceDepthEvent}
    (h : book.applyDiff event = .ok book') : book'.lastUpdateId = event.lastUpdateId := by
  rw [applyDiff] at h
  cases hb : applyLevels book.bids event.bids with
  | error e => simp [hb] at h
  | ok bids =>
      cases ha : applyLevels book.asks event.asks with
      | error e => simp [hb, ha] at h
      | ok asks =>
          simp only [hb, ha, Except.ok.injEq] at h
          rw [← h]

/-- What an `apply` that does not raise did: nothing, for a stale event, or `_apply`. -/
lemma apply_ok {book book' : OrderBook} {event : BinanceDepthEvent}
    (h : book.apply event = .ok book') :
    (event.lastUpdateId ≤ book.lastUpdateId ∧ book' = book) ∨
      (book.Takes event ∧ book.applyDiff event = .ok book') := by
  rw [apply] at h
  split_ifs at h with hstale hgap
  · exact Or.inl ⟨hstale, (Except.ok.inj h).symm⟩
  · exact Or.inr ⟨⟨not_le.mp hstale, not_lt.mp hgap⟩, h⟩

lemma applyAll_cons_ok {book book' : OrderBook} {event : BinanceDepthEvent}
    {events : List BinanceDepthEvent} :
    book.applyAll (event :: events) = .ok book' ↔
      ∃ mid, book.apply event = .ok mid ∧ mid.applyAll events = .ok book' := by
  rw [applyAll]
  cases book.apply event <;> simp

/-- Where the replay loop of `initialize` does not raise, it does what `apply` does event by event.
-/
lemma applyAll_of_replayBuffer {book book' : OrderBook} {events : List BinanceDepthEvent}
    (h : book.replayBuffer events = .ok book') : book.applyAll events = .ok book' := by
  induction events generalizing book with
  | nil => exact h
  | cons event events ih =>
      rw [replayBuffer] at h
      rw [applyAll_cons_ok]
      split_ifs at h with hstale hgap
      · exact ⟨book, by rw [apply, if_pos hstale], ih h⟩
      · cases hdiff : book.applyDiff event with
        | error e => simp [hdiff] at h
        | ok mid =>
            simp only [hdiff] at h
            exact ⟨mid, by rw [apply, if_neg hstale, if_neg hgap, hdiff], ih h⟩

end OrderBook

/-! ## What was applied -/

lemma appliedBy_cons_stale {book : OrderBook} {a : Arrival}
    (h : a.event.lastUpdateId ≤ book.lastUpdateId) (arrivals : List Arrival) :
    appliedBy book (a :: arrivals) = appliedBy book arrivals := by
  have hnot : ¬ book.Takes a.event := fun htakes => absurd htakes.1 (not_lt.mpr h)
  rw [appliedBy, OrderBook.apply, if_pos h]
  simp only [if_neg hnot]

lemma appliedBy_cons_taken {book book' : OrderBook} {a : Arrival} (h : book.Takes a.event)
    (happly : book.apply a.event = .ok book') (arrivals : List Arrival) :
    appliedBy book (a :: arrivals) = a :: appliedBy book' arrivals := by
  rw [appliedBy, happly]
  simp only [if_pos h]

/-- A run of `apply` without an exception, and the arrivals it applied. -/
inductive AppliedRun : OrderBook → List Arrival → List Arrival → OrderBook → Prop
  | nil (book : OrderBook) : AppliedRun book [] [] book
  | stale {book book' : OrderBook} {a : Arrival} {arrivals applied : List Arrival}
      (hstale : a.event.lastUpdateId ≤ book.lastUpdateId)
      (run : AppliedRun book arrivals applied book') : AppliedRun book (a :: arrivals) applied book'
  | taken {book mid book' : OrderBook} {a : Arrival} {arrivals applied : List Arrival}
      (htakes : book.Takes a.event) (hdiff : book.applyDiff a.event = .ok mid)
      (run : AppliedRun mid arrivals applied book') :
      AppliedRun book (a :: arrivals) (a :: applied) book'

lemma appliedRun {book book' : OrderBook} {arrivals : List Arrival}
    (h : book.applyAll (arrivals.map (·.event)) = .ok book') :
    AppliedRun book arrivals (appliedBy book arrivals) book' := by
  induction arrivals generalizing book with
  | nil =>
      cases h
      exact .nil _
  | cons a arrivals ih =>
      rw [List.map_cons, OrderBook.applyAll_cons_ok] at h
      rcases h with ⟨mid, hmid, hrest⟩
      rcases OrderBook.apply_ok hmid with ⟨hstale, rfl⟩ | ⟨htakes, hdiff⟩
      · rw [appliedBy_cons_stale hstale]
        exact .stale hstale (ih hrest)
      · rw [appliedBy_cons_taken htakes hmid]
        exact .taken htakes hdiff (ih hrest)

section AppliedRuns

variable {book book' : OrderBook} {arrivals applied : List Arrival}
  (run : AppliedRun book arrivals applied book')

include run

/-- **The book is the fold of what was applied**: `_apply` with the applied arrivals, one after the
other, and nothing else. -/
theorem AppliedRun.foldlM : applied.foldlM (fun b a => b.applyDiff a.event) book = .ok book' := by
  induction run with
  | nil book => rfl
  | stale hstale run ih => exact ih
  | taken htakes hdiff run ih =>
      rw [List.foldlM_cons, hdiff]
      exact ih

lemma AppliedRun.sublist : applied.Sublist arrivals := by
  induction run with
  | nil book => exact List.Sublist.refl []
  | stale hstale run ih => exact ih.cons _
  | taken htakes hdiff run ih => exact ih.cons_cons _

/-- Nothing is applied exactly when everything is stale; the book is then the same as before. -/
lemma AppliedRun.eq_nil_iff :
    applied = [] ↔ ∀ a ∈ arrivals, a.event.lastUpdateId ≤ book.lastUpdateId := by
  induction run with
  | nil book => simp
  | stale hstale run ih =>
      rw [ih]
      simp [hstale]
  | taken htakes hdiff run ih => simp [htakes.1]

/-- Everything is applied exactly when the ids increase from the book's on. -/
lemma AppliedRun.eq_self_iff : applied = arrivals ↔
    List.IsChain (· < ·) (book.lastUpdateId :: arrivals.map (·.event.lastUpdateId)) := by
  induction run with
  | nil book => simp
  | stale hstale run ih =>
      rw [List.map_cons, List.isChain_cons_cons]
      constructor
      · intro heq
        have hlength := run.sublist.length_le
        rw [heq, List.length_cons] at hlength
        omega
      · rintro ⟨hlt, _⟩
        omega
  | taken htakes hdiff run ih =>
      rw [List.map_cons, List.isChain_cons_cons, List.cons.injEq, ih,
        OrderBook.applyDiff_lastUpdateId hdiff]
      simp [htakes.1]

end AppliedRuns

/-! ## The trace of a session -/

lemma parseEvent_ok {f : Frame} {event : Option BinanceDepthEvent}
    (h : parseEvent f.content = .ok event) : f.arrival = event.map fun e => ⟨f.seq, e⟩ := by
  cases hc : f.content with
  | undecodable e => simp [hc, parseEvent] at h
  | rejected =>
      simp only [hc, parseEvent, Except.ok.injEq] at h
      simp [Frame.arrival, hc, ← h]
  | event e =>
      simp only [hc, parseEvent, Except.ok.injEq] at h
      rw [← h, Frame.arrival, hc]
      by_cases htype : e.eventType ≠ "depthUpdate"
      · simp [htype]
      · simp [htype]

/-- The buffer holds the depth updates among the frames received. -/
lemma fillBuffer_ok {polls : List (Option Frame)} {buffer : List Arrival}
    (h : fillBuffer polls = .ok buffer) : buffer = polls.reduceOption.filterMap Frame.arrival := by
  induction polls generalizing buffer with
  | nil =>
      cases h
      rfl
  | cons poll polls ih =>
      cases poll with
      | none =>
          rw [List.reduceOption_cons_of_none]
          exact ih h
      | some f =>
          rw [fillBuffer] at h
          rcases bind_eq_ok.mp h with ⟨parsed, hparsed, h⟩
          rw [List.reduceOption_cons_of_some, List.filterMap_cons, parseEvent_ok hparsed]
          cases parsed with
          | none => exact ih h
          | some event =>
              rcases bind_eq_ok.mp h with ⟨rest, hrest, h⟩
              simp only [pure_eq_ok, Except.ok.injEq] at h
              rw [← h, ih hrest]
              rfl

lemma appliedOf_append (xs ys : List Effect) : appliedOf (xs ++ ys) = appliedOf xs ++ appliedOf ys :=
  List.filterMap_append

lemma producedOf_append (xs ys : List Effect) :
    producedOf (xs ++ ys) = producedOf xs ++ producedOf ys :=
  List.filterMap_append

@[simp] lemma appliedOf_map_applied (arrivals : List Arrival) :
    appliedOf (arrivals.map .applied) = arrivals := by
  simp [appliedOf, List.filterMap_map, Function.comp_def, Effect.appliedArrival]

@[simp] lemma producedOf_map_applied (arrivals : List Arrival) :
    producedOf (arrivals.map .applied) = [] := by
  simp [producedOf, Effect.producedArrival]

/-- A published event repeats the depth update it was made from. -/
structure Republishes (symbol : String) (a : Arrival) (out : OrderBookEvent) : Prop where
  exchange : out.exchange = "binance"
  symbol : out.symbol = symbol
  firstUpdateId : out.firstUpdateId = a.event.firstUpdateId
  lastUpdateId : out.lastUpdateId = a.event.lastUpdateId
  bids : out.bids = a.event.bids
  asks : out.asks = a.event.asks

lemma toOrderbookEvent_ok {symbol : String} {a : Arrival} {ingestTs : ℤ} {out : OrderBookEvent}
    (h : toOrderbookEvent symbol a.event ingestTs = .ok out) : Republishes symbol a out := by
  rcases bind_eq_ok.mp h with ⟨_, _, h⟩
  simp only [pure_eq_ok, Except.ok.injEq] at h
  rw [← h]
  exact ⟨rfl, rfl, rfl, rfl, rfl, rfl⟩

@[simp] lemma publishedOf_map_applied (arrivals : List Arrival) :
    publishedOf (arrivals.map .applied) = [] := by
  simp [publishedOf, Effect.producedEvent]

lemma publishedOf_append (xs ys : List Effect) :
    publishedOf (xs ++ ys) = publishedOf xs ++ publishedOf ys :=
  List.filterMap_append

/-- Nothing is published before the live loop. -/
lemma publishedOf_initializeBook {s : Session} {book book' : OrderBook} {effects : List Effect}
    (h : initializeBook s book = .ok (book', effects)) : publishedOf effects = [] := by
  rcases bind_eq_ok.mp h with ⟨buffer, _, h⟩
  rcases bind_eq_ok.mp h with ⟨snapshot, _, h⟩
  cases hload : book.initializeFrom snapshot (buffer.map (·.event)) with
  | error e => simp [hload] at h
  | ok book' =>
      simp only [hload, pure_eq_ok, Except.ok.injEq, Prod.mk.injEq] at h
      rw [← h.2, publishedOf_map_applied]

/-- **The live loop** applies what the book takes and publishes everything. -/
theorem run_onFrame_ok {symbol : String} {book book' : OrderBook} {frames : List Frame}
    {effects : List Effect} (h : Transducer.run (onFrame symbol) book frames = .ok (book', effects)) :
    let live := frames.filterMap Frame.arrival
    book.applyAll (live.map (·.event)) = .ok book' ∧ appliedOf effects = appliedBy book live ∧
      producedOf effects = live ∧ List.Forall₂ (Republishes symbol) live (publishedOf effects) := by
  induction frames generalizing book effects with
  | nil =>
      cases h
      exact ⟨rfl, rfl, rfl, .nil⟩
  | cons f frames ih =>
      rcases Transducer.run_cons_ok.mp h with ⟨mid, now, later, hstep, hrest, rfl⟩
      rcases bind_eq_ok.mp hstep with ⟨parsed, hparsed, hstep⟩
      rcases ih hrest with ⟨happly, happlied, hproduced, hpublished⟩
      cases parsed with
      | none =>
          simp only [pure_eq_ok, Except.ok.injEq, Prod.mk.injEq] at hstep
          rcases hstep with ⟨rfl, rfl⟩
          rw [List.filterMap_cons, parseEvent_ok hparsed]
          exact ⟨happly, happlied, hproduced, hpublished⟩
      | some event =>
          rw [List.filterMap_cons, parseEvent_ok hparsed]
          cases hmid : book.apply event with
          | error e => simp [hmid] at hstep
          | ok next =>
              simp only [hmid] at hstep
              rcases bind_eq_ok.mp hstep with ⟨out, hout, hstep⟩
              simp only [pure_eq_ok, Except.ok.injEq, Prod.mk.injEq] at hstep
              rcases hstep with ⟨rfl, rfl⟩
              refine ⟨?_, ?_, ?_, ?_⟩
              · rw [Option.map_some, List.map_cons, OrderBook.applyAll_cons_ok]
                exact ⟨next, hmid, happly⟩
              · rw [appliedOf_append, appliedOf_append, appliedOf_map_applied, happlied]
                simp [appliedBy, hmid, appliedOf, Effect.appliedArrival]
                split_ifs <;> rfl
              · rw [producedOf_append, producedOf_append, producedOf_map_applied, hproduced]
                rfl
              · rw [publishedOf_append, publishedOf_append, publishedOf_map_applied]
                exact .cons (toOrderbookEvent_ok hout) hpublished

/-- **What a session did.**  The book went through the buffered arrivals and then the live ones; the
live ones, all of them and nothing else, were published. -/
theorem runOnce_ok {s : Session} {book : OrderBook} {effects : List Effect}
    (h : runOnce s = .ok (book, effects)) :
    ∃ snapshot mid, s.snapshot = .ok snapshot ∧
      ((OrderBook.new s.symbol).load snapshot).applyAll (s.buffered.map (·.event)) = .ok mid ∧
      mid.applyAll (s.live.map (·.event)) = .ok book ∧
      appliedOf effects = appliedBy ((OrderBook.new s.symbol).load snapshot) s.buffered
        ++ appliedBy mid s.live ∧
      producedOf effects = s.live ∧
      List.Forall₂ (Republishes s.symbol) s.live (publishedOf effects) := by
  rcases bind_eq_ok.mp h with ⟨⟨mid, early⟩, hinit, h⟩
  rcases bind_eq_ok.mp h with ⟨⟨last, late⟩, hlive, h⟩
  simp only [pure_eq_ok, Except.ok.injEq, Prod.mk.injEq] at h
  rcases h with ⟨rfl, rfl⟩
  rcases bind_eq_ok.mp hinit with ⟨buffer, hbuffer, hinit⟩
  rcases bind_eq_ok.mp hinit with ⟨snapshot, hsnapshot, hinit⟩
  have hbuffered : buffer = s.buffered := fillBuffer_ok hbuffer
  rw [hbuffered] at hinit
  cases hreplay : (OrderBook.new s.symbol).initializeFrom snapshot (s.buffered.map (·.event)) with
  | error e => simp [hreplay] at hinit
  | ok book =>
      simp only [hreplay, pure_eq_ok, Except.ok.injEq, Prod.mk.injEq] at hinit
      rcases hinit with ⟨rfl, rfl⟩
      rcases run_onFrame_ok hlive with ⟨happly, happlied, hproduced, hpublished⟩
      refine ⟨snapshot, book, hsnapshot, OrderBook.applyAll_of_replayBuffer hreplay, happly, ?_, ?_,
        ?_⟩
      · rw [appliedOf_append, appliedOf_map_applied, happlied]
        rfl
      · rw [producedOf_append, producedOf_map_applied, hproduced]
        rfl
      · rw [publishedOf_append, publishedOf_map_applied]
        exact hpublished

/-- **When the published stream is the applied one.**  For every session that has not raised, the
arrivals handed to the producer are exactly those whose diff was applied, in the same order, if and
only if everything buffered was stale for the snapshot and every live depth update ended at a later
id than the snapshot and all live ones before it.  In any case the book is the fold of the applied
diffs over the snapshot. -/
theorem published_eq_applied_iff (s : Session) (book : OrderBook) (effects : List Effect)
    (h : runOnce s = .ok (book, effects)) :
    ∃ snapshot, s.snapshot = .ok snapshot ∧
      (appliedOf effects).foldlM (fun b a => b.applyDiff a.event)
        ((OrderBook.new s.symbol).load snapshot) = .ok book ∧
      (producedOf effects = appliedOf effects ↔
        (∀ a ∈ s.buffered, a.event.lastUpdateId ≤ snapshot.lastUpdateId) ∧
        List.IsChain (· < ·) (snapshot.lastUpdateId :: s.live.map (·.event.lastUpdateId))) := by
  rcases runOnce_ok h with ⟨snapshot, mid, hsnapshot, hbuffer, hlive, happlied, hproduced, _⟩
  refine ⟨snapshot, hsnapshot, ?_, ?_⟩
  · rw [happlied, List.foldlM_append, (appliedRun hbuffer).foldlM]
    exact (appliedRun hlive).foldlM
  · rw [happlied, hproduced]
    have hnil := (appliedRun hbuffer).eq_nil_iff
    have hself := (appliedRun hlive).eq_self_iff
    have hload : ((OrderBook.new s.symbol).load snapshot).lastUpdateId = snapshot.lastUpdateId := rfl
    rw [hload] at hnil
    have hsame : appliedBy ((OrderBook.new s.symbol).load snapshot) s.buffered = [] →
        mid = (OrderBook.new s.symbol).load snapshot := by
      intro hempty
      have hfold := (appliedRun hbuffer).foldlM
      rw [hempty] at hfold
      exact (Except.ok.inj hfold).symm
    constructor
    · intro heq
      -- an arrival applied from the buffer would have to be one of the live ones
      have hempty : appliedBy ((OrderBook.new s.symbol).load snapshot) s.buffered = [] := by
        by_contra hne
        rcases List.exists_mem_of_ne_nil _ hne with ⟨a, ha⟩
        have hbuf := (appliedRun hbuffer).sublist.subset ha
        have hliv : a ∈ s.live := by
          rw [heq]
          exact List.mem_append_left _ ha
        exact s.buffered_live_disjoint hbuf hliv
      rw [hempty, List.nil_append] at heq
      have hchain := hself.mp heq.symm
      rw [hsame hempty] at hchain
      exact ⟨hnil.mp hempty, hchain⟩
    · rintro ⟨hstale, hchain⟩
      have hempty := hnil.mpr hstale
      rw [hempty, List.nil_append]
      refine (hself.mpr ?_).symm
      rw [hsame hempty]
      exact hchain

/-- A session with these events, all live: the snapshot is there before the first frame. -/
def sessionOf (symbol : String) (events : List BinanceDepthEvent) : Session where
  symbol := symbol
  polls := [none]
  snapshot := .ok sampleSnapshot
  frames := events.zipIdx.map fun (event, seq) => ⟨seq, .event event, 1704067200000000⟩
  distinct := by
    have hseq : (events.zipIdx.map fun (event, seq) =>
        (⟨seq, .event event, 1704067200000000⟩ : Frame)).map (·.seq)
          = List.range' 0 events.length := by
      rw [List.map_map]
      exact List.zipIdx_map_snd 0 events
    show ((List.map _ _).map _).Nodup
    rw [hseq]
    exact List.nodup_range'

/-- What such a session publishes for an event. -/
def publicationOf (symbol : String) (event : BinanceDepthEvent) : OrderBookEvent where
  eventId := "binance#" ++ symbol ++ "#" ++ toString event.lastUpdateId
  exchange := "binance"
  symbol := symbol
  exchangeEventTs := 1704067200000000
  ingestTs := 1704067200000000
  firstUpdateId := event.firstUpdateId
  lastUpdateId := event.lastUpdateId
  bids := event.bids
  asks := event.asks

/-- A session whose published events have been computed. -/
lemma exists_run_of_published {s : Session} {events : List OrderBookEvent}
    (h : (runOnce s).toOption.map (fun r => publishedOf r.2) = some events) :
    ∃ book effects, runOnce s = .ok (book, effects) ∧ publishedOf effects = events := by
  cases hres : runOnce s with
  | error e =>
      rw [hres] at h
      cases h
  | ok r =>
      rw [hres] at h
      exact ⟨r.1, r.2, rfl, Option.some.inj h⟩

theorem published_eq_applied_iff_sample :
    ∃ book effects, runOnce (sessionOf "btcusdt" [sampleEvent]) = .ok (book, effects) ∧
      producedOf effects = appliedOf effects := by
  obtain ⟨book, effects, hrun, _⟩ := @exists_run_of_published (sessionOf "btcusdt" [sampleEvent])
    [publicationOf "btcusdt" sampleEvent] (by decide +kernel)
  rcases published_eq_applied_iff _ book effects hrun with ⟨snapshot, hsnapshot, _, hiff⟩
  cases hsnapshot
  exact ⟨book, effects, hrun, hiff.mpr (by decide)⟩

/-- The sample event twice: once before the snapshot, once more after it. -/
def overtakenSession : Session where
  symbol := "btcusdt"
  polls := [some ⟨0, .event sampleEvent, 1704067200000000⟩]
  snapshot := .ok sampleSnapshot
  frames := [⟨1, .event sampleEvent, 1704067200100000⟩]
  distinct := by decide

/-- **Applied but not published, published but not applied.**  The book takes the buffered event and
drops the second one as stale, and the topic gets the second one only. -/
theorem buffered_diff_is_not_published :
    ¬ ∀ (s : Session) (book : OrderBook) (effects : List Effect),
      runOnce s = .ok (book, effects) → producedOf effects = appliedOf effects := by
  intro h
  have hseq : (runOnce overtakenSession).toOption.map
      (fun r => ((producedOf r.2).map (·.seq), (appliedOf r.2).map (·.seq))) = some ([1], [0]) := by
    decide +kernel
  cases hres : runOnce overtakenSession with
  | error e =>
      rw [hres] at hseq
      cases hseq
  | ok r =>
      have heq := h overtakenSession r.1 r.2 hres
      rw [hres] at hseq
      simp only [Except.toOption, Option.map_some, Option.some.injEq, Prod.mk.injEq] at hseq
      rw [← heq, hseq.1] at hseq
      cases hseq.2

end Ticksense
