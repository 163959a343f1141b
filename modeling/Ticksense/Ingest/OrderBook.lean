import Ticksense.Lib.Dict
import Ticksense.Market.Exchange

/-!
# The ingest order book

`ingest/src/ingest/orderbook.py` and the messages it reads (`models.py`): the book the ingest
service keeps for gap detection, initialised from a REST snapshot and a buffer of diffs and then
advanced by one live diff at a time.

* `OrderBook.initializeFrom`, `OrderBook.apply`, `OrderBook.applyDiff` — the three methods.  A
  method that raises leaves the book as it was at the raise, so an error carries the book along.
* `OrderBook.replica` — the book as a copy of a versioned map, and `BinanceDepthEvent.diff` a depth
  event as a diff of it.
* `OrderBook.takeDiff` — the body that `apply` and the replay loop of `initialize` have in common.
* `OrderBook.applyAll_refines`, `OrderBook.replayBuffer_refines` — on events whose quantities are
  floats, both are the replica rule of `Lib/VersionedMap.lean`, refusal for refusal.
-/

namespace Ticksense

open VersionedMap

/-! ## Messages -/

/-- A diff of the depth stream, as validated from the WebSocket message. -/
structure BinanceDepthEvent where
  eventType : String
  eventTimeMs : ℤ
  symbol : String
  firstUpdateId : ℤ
  lastUpdateId : ℤ
  bids : List (String × String)
  asks : List (String × String)
deriving DecidableEq, Repr

/-- The response of the depth endpoint. -/
structure BinanceDepthSnapshot where
  lastUpdateId : ℤ
  bids : List (String × String)
  asks : List (String × String)
deriving DecidableEq, Repr

/-- The levels an event lists for a side. -/
def BinanceDepthEvent.levels (event : BinanceDepthEvent) (side : Side) : List (String × String) :=
  side.pick event.bids event.asks

/-- The levels a snapshot lists for a side. -/
def BinanceDepthSnapshot.levels (snapshot : BinanceDepthSnapshot) (side : Side) :
    List (String × String) :=
  side.pick snapshot.bids snapshot.asks

/-! ## The book -/

structure OrderBook where
  symbol : String
  lastUpdateId : ℤ
  bids : Dict String String
  asks : Dict String String
deriving DecidableEq, Repr

namespace OrderBook

/-- `OrderBook(symbol)`. -/
def new (symbol : String) : OrderBook := ⟨symbol, 0, Dict.empty, Dict.empty⟩

/-- The loop over one side's levels: a zero quantity pops the price, any other is stored.  A
quantity that is no float raises with the earlier levels already written. -/
def applyLevels (side : Dict String String) :
    List (String × String) → Except (PyError × Dict String String) (Dict String String)
  | [] => .ok side
  | (price, qty) :: levels =>
      match float qty with
      | .error e => .error (e, side)
      | .ok x => applyLevels (if x.isZero then side.pop price else side.set price qty) levels

/-- `_apply`: both sides, then the id. -/
def applyDiff (book : OrderBook) (event : BinanceDepthEvent) :
    Except (PyError × OrderBook) OrderBook :=
  match applyLevels book.bids event.bids with
  | .error (e, bids) => .error (e, { book with bids := bids })
  | .ok bids =>
      match applyLevels book.asks event.asks with
      | .error (e, asks) => .error (e, { book with bids := bids, asks := asks })
      | .ok asks =>
          .ok { book with bids := bids, asks := asks, lastUpdateId := event.lastUpdateId }

/-- The loop of `initialize` over the buffer. -/
def replayBuffer (book : OrderBook) :
    List BinanceDepthEvent → Except (PyError × OrderBook) OrderBook
  | [] => .ok book
  | event :: buffer =>
      -- stale; drop
      if event.lastUpdateId ≤ book.lastUpdateId then replayBuffer book buffer
      else if event.firstUpdateId > book.lastUpdateId + 1 then
        .error (.gapDetectedError (book.symbol ++ ": gap in buffer — U="
          ++ toString event.firstUpdateId ++ " > lastUpdateId+1="
          ++ toString (book.lastUpdateId + 1)), book)
      else
        match book.applyDiff event with
        | .error e => .error e
        | .ok book => replayBuffer book buffer

/-- The assignments of `initialize` before its loop. -/
def load (book : OrderBook) (snapshot : BinanceDepthSnapshot) : OrderBook :=
  { book with
    lastUpdateId := snapshot.lastUpdateId
    bids := Dict.ofList snapshot.bids
    asks := Dict.ofList snapshot.asks }

/-- `initialize`: load the snapshot, then replay the buffer. -/
def initializeFrom (book : OrderBook) (snapshot : BinanceDepthSnapshot)
    (buffer : List BinanceDepthEvent) : Except (PyError × OrderBook) OrderBook :=
  (book.load snapshot).replayBuffer buffer

/-- `apply`: one live diff. -/
def apply (book : OrderBook) (event : BinanceDepthEvent) :
    Except (PyError × OrderBook) OrderBook :=
  -- stale; safe to ignore
  if event.lastUpdateId ≤ book.lastUpdateId then .ok book
  else if event.firstUpdateId > book.lastUpdateId + 1 then
    .error (.gapDetectedError (book.symbol ++ ": gap — U="
      ++ toString event.firstUpdateId ++ " > lastUpdateId+1="
      ++ toString (book.lastUpdateId + 1)), book)
  else book.applyDiff event

/-- `apply` on a sequence of live diffs, up to the first exception. -/
def applyAll (book : OrderBook) : List BinanceDepthEvent → Except (PyError × OrderBook) OrderBook
  | [] => .ok book
  | event :: events =>
      match book.apply event with
      | .error e => .error e
      | .ok book => applyAll book events

/-! ## One loop -/

/-- The text of a gap found by `initialize`. -/
def bufferGap (book : OrderBook) (event : BinanceDepthEvent) : String :=
  book.symbol ++ ": gap in buffer — U=" ++ toString event.firstUpdateId ++ " > lastUpdateId+1="
    ++ toString (book.lastUpdateId + 1)

/-- The text of a gap found by `apply`. -/
def liveGap (book : OrderBook) (event : BinanceDepthEvent) : String :=
  book.symbol ++ ": gap — U=" ++ toString event.firstUpdateId ++ " > lastUpdateId+1="
    ++ toString (book.lastUpdateId + 1)

/-- The common body of the two loops. -/
def takeDiff (gap : OrderBook → BinanceDepthEvent → String) (book : OrderBook)
    (event : BinanceDepthEvent) : Except (PyError × OrderBook) OrderBook :=
  if event.lastUpdateId ≤ book.lastUpdateId then .ok book
  else if event.firstUpdateId > book.lastUpdateId + 1 then
    .error (.gapDetectedError (gap book event), book)
  else book.applyDiff event

lemma apply_eq_takeDiff (book : OrderBook) (event : BinanceDepthEvent) :
    book.apply event = book.takeDiff liveGap event := rfl

lemma applyAll_eq_foldlM (book : OrderBook) (events : List BinanceDepthEvent) :
    book.applyAll events = events.foldlM (takeDiff liveGap) book := by
  induction events generalizing book with
  | nil => rfl
  | cons event events ih =>
      rw [applyAll, List.foldlM_cons, apply_eq_takeDiff]
      cases book.takeDiff liveGap event with
      | error r => rfl
      | ok book' => exact ih book'

lemma replayBuffer_eq_foldlM (book : OrderBook) (events : List BinanceDepthEvent) :
    book.replayBuffer events = events.foldlM (takeDiff bufferGap) book := by
  induction events generalizing book with
  | nil => rfl
  | cons event events ih =>
      rw [replayBuffer, List.foldlM_cons, takeDiff]
      split_ifs with hstale hgap
      · exact ih book
      · rfl
      · cases book.applyDiff event with
        | error r => rfl
        | ok book' => exact ih book'

/-! ## Exceptions -/

/-- The loop over a side raises nothing but `ValueError`. -/
lemma eq_valueError_of_applyLevels {side : Dict String String} {levels : List (String × String)}
    {r : PyError × Dict String String} (h : applyLevels side levels = .error r) :
    r.1 = .valueError := by
  induction levels generalizing side with
  | nil => cases h
  | cons level levels ih =>
      rcases level with ⟨price, qty⟩
      rw [applyLevels] at h
      cases hqty : float qty with
      | error e =>
          rw [hqty] at h
          cases h
          exact eq_valueError_of_float hqty
      | ok x =>
          rw [hqty] at h
          exact ih h

/-- `_apply` raises nothing but `ValueError`. -/
lemma eq_valueError_of_applyDiff {book : OrderBook} {event : BinanceDepthEvent}
    {r : PyError × OrderBook} (h : book.applyDiff event = .error r) : r.1 = .valueError := by
  rw [applyDiff] at h
  cases hbids : applyLevels book.bids event.bids with
  | error rb =>
      rw [hbids] at h
      cases h
      exact eq_valueError_of_applyLevels hbids
  | ok bids =>
      rw [hbids] at h
      cases hasks : applyLevels book.asks event.asks with
      | error ra =>
          simp only [hasks] at h
          cases h
          exact eq_valueError_of_applyLevels hasks
      | ok asks =>
          simp only [hasks] at h
          cases h

/-! ## The book as a replica -/

/-- One side of the book. -/
def side (book : OrderBook) (side : Side) : Dict String String := side.pick book.bids book.asks

/-- The book as a copy of the exchange's level map. -/
def replica (book : OrderBook) : Replica Level String where
  last := book.lastUpdateId
  map := levelMap book.bids.get? book.asks.get?

lemma replica_map (book : OrderBook) (side : Side) (price : String) :
    book.replica.map (side, price) = (book.side side).get? price := by
  cases side <;> rfl

end OrderBook

/-- The quantities of a list of levels are floats, so that no loop over them raises. -/
def FloatQuantities (levels : List (String × String)) : Prop :=
  ∀ level ∈ levels, ∃ x, float level.2 = .ok x

instance (levels : List (String × String)) : Decidable (FloatQuantities levels) :=
  decidable_of_iff (∀ level ∈ levels, (float level.2).isOk = true) <| by
    refine forall₂_congr fun level _ => ?_
    cases float level.2 <;> simp [Except.isOk, Except.toBool]

/-- What a quantity leaves at its level, with nothing for a text that is no float. -/
def levelOrNone (qty : String) : Option String :=
  match levelOf qty with
  | .error _ => none
  | .ok level => level

/-- The point updates a list of levels stands for. -/
def levelEntries (levels : List (String × String)) : List (String × Option String) :=
  levels.map fun level => (level.1, levelOrNone level.2)

/-- The point updates of both sides. -/
def diffEntries (bids asks : List (String × String)) : List (Level × Option String) :=
  (levelEntries bids).map (fun e => ((Side.bid, e.1), e.2))
    ++ (levelEntries asks).map (fun e => ((Side.ask, e.1), e.2))

/-- Patching both sides at once is patching each. -/
lemma patch_diffEntries (bids asks : String → Option String)
    (bidLevels askLevels : List (String × String)) :
    patch (levelMap bids asks) (diffEntries bidLevels askLevels)
      = levelMap (patch bids (levelEntries bidLevels)) (patch asks (levelEntries askLevels)) := by
  funext level
  rcases level with ⟨side, price⟩
  rw [diffEntries, patch_append, patch_member, patch_member]
  cases side with
  | bid =>
      rw [if_neg (fun hside : Side.bid = Side.ask => Side.noConfusion hside), if_pos rfl]
      rfl
  | ask =>
      rw [if_pos rfl]
      congr 1
      funext b
      rw [patch_member, if_neg (fun hside : Side.ask = Side.bid => Side.noConfusion hside)]
      rfl

/-- A depth event as a diff of the exchange's level map. -/
def BinanceDepthEvent.diff (event : BinanceDepthEvent) : Diff Level String where
  first := event.firstUpdateId
  last := event.lastUpdateId
  entries := diffEntries event.bids event.asks

namespace OrderBook

/-- **The loop over a side is a patch** of the side's map. -/
theorem applyLevels_ok {levels : List (String × String)} (h : FloatQuantities levels)
    (side : Dict String String) :
    ∃ side', applyLevels side levels = .ok side' ∧
      side'.get? = patch side.get? (levelEntries levels) := by
  induction levels generalizing side with
  | nil => exact ⟨side, rfl, rfl⟩
  | cons level levels ih =>
      rcases level with ⟨price, qty⟩
      rcases h (price, qty) List.mem_cons_self with ⟨x, hx⟩
      have hlevel : levelOrNone qty = if x.isZero then none else some qty := by
        simp only [levelOrNone, levelOf, hx]
      have hset : (if x.isZero then side.pop price else side.set price qty).get?
          = Function.update side.get? price (levelOrNone qty) := by
        rw [hlevel]
        split_ifs
        · exact side.get?_pop price
        · exact side.get?_set price qty
      rcases ih (fun l hl => h l (List.mem_cons_of_mem _ hl))
        (if x.isZero then side.pop price else side.set price qty) with ⟨side', hrun, hmap⟩
      refine ⟨side', ?_, ?_⟩
      · rw [applyLevels, hx]
        exact hrun
      · rw [hmap, hset]
        rfl

/-- `_apply` succeeds on float quantities and patches the book. -/
theorem applyDiff_ok (book : OrderBook) {event : BinanceDepthEvent}
    (h : ∀ side, FloatQuantities (event.levels side)) :
    ∃ book', book.applyDiff event = .ok book' ∧
      book'.replica = ⟨event.lastUpdateId, patch book.replica.map event.diff.entries⟩ := by
  rcases applyLevels_ok (h .bid) book.bids with ⟨bids, hbids, hbidmap⟩
  rcases applyLevels_ok (h .ask) book.asks with ⟨asks, hasks, haskmap⟩
  refine ⟨{ book with bids := bids, asks := asks, lastUpdateId := event.lastUpdateId }, ?_, ?_⟩
  · have hbids' : applyLevels book.bids event.bids = .ok bids := hbids
    have hasks' : applyLevels book.asks event.asks = .ok asks := hasks
    rw [applyDiff, hbids']
    simp only [hasks']
  · rw [replica, Replica.mk.injEq]
    refine ⟨rfl, ?_⟩
    show levelMap bids.get? asks.get? = patch (levelMap book.bids.get? book.asks.get?) _
    rw [BinanceDepthEvent.diff, patch_diffEntries, hbidmap, haskmap]
    rfl

lemma floatQuantities_of_applyLevels {side side' : Dict String String}
    {levels : List (String × String)} (h : applyLevels side levels = .ok side') :
    FloatQuantities levels := by
  induction levels generalizing side with
  | nil =>
      intro level hlevel
      cases hlevel
  | cons level levels ih =>
      rcases level with ⟨price, qty⟩
      rw [applyLevels] at h
      cases hqty : float qty with
      | error e =>
          rw [hqty] at h
          cases h
      | ok x =>
          rw [hqty] at h
          intro level hlevel
          rcases List.mem_cons.mp hlevel with rfl | hlevel
          · exact ⟨x, hqty⟩
          · exact ih h level hlevel

/-- `_apply` gets through only when every quantity is a float. -/
lemma floatQuantities_of_applyDiff {book book' : OrderBook} {event : BinanceDepthEvent}
    (h : book.applyDiff event = .ok book') (side : Side) : FloatQuantities (event.levels side) := by
  rw [applyDiff] at h
  cases hbids : applyLevels book.bids event.bids with
  | error r =>
      rw [hbids] at h
      cases h
  | ok bids =>
      rw [hbids] at h
      cases hasks : applyLevels book.asks event.asks with
      | error r =>
          simp only [hasks] at h
          cases h
      | ok asks =>
          cases side with
          | bid => exact floatQuantities_of_applyLevels hbids
          | ask => exact floatQuantities_of_applyLevels hasks

/-- A book step and a replica offer agree: both take the event and arrive at the same copy, or the
book raises a gap, unchanged, exactly where the replica refuses. -/
def StepRefines (book : OrderBook) (event : BinanceDepthEvent)
    (result : Except (PyError × OrderBook) OrderBook) : Prop :=
  match result with
  | .ok book' => book.replica.offer event.diff = some book'.replica
  | .error (e, book') => (∃ message, e = .gapDetectedError message) ∧ book' = book ∧
      book.replica.offer event.diff = none

/-- **Taking a diff is the replica rule.** -/
theorem takeDiff_refines (gap : OrderBook → BinanceDepthEvent → String) (book : OrderBook)
    {event : BinanceDepthEvent} (h : ∀ side, FloatQuantities (event.levels side)) :
    StepRefines book event (book.takeDiff gap event) := by
  rw [takeDiff]
  split_ifs with hstale hgap
  · exact Replica.offer_stale hstale
  · exact ⟨⟨_, rfl⟩, rfl, Replica.offer_gap (not_le.mp hstale) hgap⟩
  · rcases book.applyDiff_ok h with ⟨book', hbook', hreplica⟩
    rw [hbook', StepRefines, hreplica]
    exact Replica.offer_next (not_le.mp hstale) (not_lt.mp hgap)

/-- A sequence of book steps and a sequence of offers agree.  Where the book raises, it stands at
the copy some prefix of the events leads to. -/
def RunRefines (book : OrderBook) (events : List BinanceDepthEvent)
    (result : Except (PyError × OrderBook) OrderBook) : Prop :=
  match result with
  | .ok book' => book.replica.offerAll (events.map (·.diff)) = some book'.replica
  | .error (e, book') => (∃ message, e = .gapDetectedError message) ∧
      ∃ taken rest, events = taken ++ rest ∧
        book.replica.offerAll (taken.map (·.diff)) = some book'.replica

/-- One more event in front of a run that refines. -/
lemma RunRefines.cons {book book' : OrderBook} {event : BinanceDepthEvent}
    {events : List BinanceDepthEvent} {result : Except (PyError × OrderBook) OrderBook}
    (hstep : book.replica.offer event.diff = some book'.replica)
    (hrun : RunRefines book' events result) : RunRefines book (event :: events) result := by
  have hcons : ∀ es : List BinanceDepthEvent, book.replica.offerAll ((event :: es).map (·.diff))
      = book'.replica.offerAll (es.map (·.diff)) := by
    intro es
    rw [List.map_cons, Replica.offerAll, List.foldlM_cons, hstep]
    rfl
  cases result with
  | ok b =>
      show book.replica.offerAll _ = _
      rw [hcons]
      exact hrun
  | error r =>
      rcases hrun with ⟨hgap, taken, rest, rfl, htaken⟩
      refine ⟨hgap, event :: taken, rest, rfl, ?_⟩
      rw [hcons]
      exact htaken

/-- **The loop is a run of the replica rule.** -/
theorem foldlM_refines (gap : OrderBook → BinanceDepthEvent → String) (book : OrderBook)
    {events : List BinanceDepthEvent}
    (h : ∀ event ∈ events, ∀ side, FloatQuantities (event.levels side)) :
    RunRefines book events (events.foldlM (takeDiff gap) book) := by
  induction events generalizing book with
  | nil => rfl
  | cons event events ih =>
      have hstep := book.takeDiff_refines gap (h event List.mem_cons_self)
      rw [List.foldlM_cons]
      cases hres : book.takeDiff gap event with
      | error r =>
          rw [hres] at hstep
          rcases hstep with ⟨hgap, hsame, _⟩
          exact ⟨hgap, [], event :: events, rfl, by rw [hsame]; rfl⟩
      | ok book' =>
          rw [hres] at hstep
          exact RunRefines.cons hstep (ih book' fun e he => h e (List.mem_cons_of_mem _ he))

/-- **A run of `apply` is a run of the replica rule.** -/
theorem applyAll_refines (book : OrderBook) {events : List BinanceDepthEvent}
    (h : ∀ event ∈ events, ∀ side, FloatQuantities (event.levels side)) :
    RunRefines book events (book.applyAll events) := by
  rw [applyAll_eq_foldlM]
  exact foldlM_refines liveGap book h

/-- **The replay loop of `initialize` is a run of the replica rule** too: its own copies of the
staleness and gap tests are those of `apply`, only the message differs. -/
theorem replayBuffer_refines (book : OrderBook) {events : List BinanceDepthEvent}
    (h : ∀ event ∈ events, ∀ side, FloatQuantities (event.levels side)) :
    RunRefines book events (book.replayBuffer events) := by
  rw [replayBuffer_eq_foldlM]
  exact foldlM_refines bufferGap book h

end OrderBook

end Ticksense
