import Mathlib.Algebra.Order.Field.Rat
import Ticksense.Lib.Sql
import Ticksense.Python.Json

/-!
# The two OHLCV queries

One-minute bars are computed twice from the same ticks: by the streaming job
(`flink/jobs/sql/ohlcv_1m/insert.sql`) as they arrive, and by the backfill
(`spark/jobs/sql/backfill_ohlcv.sql`, `spark/jobs/backfill_ohlcv.py`) for a range of dates.  Both
write `normalized.ohlcv_1m`, which is partitioned by exchange and symbol.

* `streamQuery` — the tumbling windows of the streaming job, over ticks in arrival order.
* `backfillQuery` — the windows of the backfill, over the rows of `normalized.book_ticker`; ties of
  its two orderings are up to the engine (`Engine`), and so is how it adds up an average (`Average`).
* `backfillMain` — the backfill with its write.

Prices and quantities are rational numbers, timestamps are in microseconds, dates are days since
1970-01-01.
-/

namespace Ticksense

/-- The columns of `normalized.book_ticker` that the queries use. -/
structure BookTick where
  exchange : String
  symbol : String
  exchangeEventTs : Option ℤ
  midPrice : Option ℚ
  bestBidQty : Option ℚ
deriving DecidableEq

/-- The event time of a row that has one. -/
def BookTick.eventTs (tick : BookTick) : ℤ := tick.exchangeEventTs.getD 0

def minuteMicros : ℤ := 60 * 1000 * 1000

/-- The beginning of the minute.  Time zones are whole minutes off. -/
def truncMinute (ts : ℤ) : ℤ := ts - ts % minuteMicros

/-- Exchange, symbol and beginning of the window. -/
abbrev WindowKey := String × String × ℤ

def BookTick.windowKey (tick : BookTick) : WindowKey :=
  (tick.exchange, tick.symbol, truncMinute tick.eventTs)

/-! ## The streaming job -/

/-- A row of `ohlcv_1m/insert.sql`. -/
structure StreamBar where
  exchange : String
  symbol : String
  windowStart : ℤ
  windowEnd : ℤ
  openPrice : Option ℚ
  highPrice : Option ℚ
  lowPrice : Option ℚ
  closePrice : Option ℚ
  volume : Option ℚ
  vwap : Option ℚ
  tickCount : ℕ
  firstTs : Option ℤ
  lastTs : Option ℤ
deriving DecidableEq

/-- `COALESCE(best_bid_qty, 0.0)` -/
def BookTick.qty (tick : BookTick) : ℚ := tick.bestBidQty.getD 0

/-- The select list of `insert.sql`, on the ticks of one window. -/
def streamBar (key : WindowKey) (ticks : List BookTick) : StreamBar :=
  let volume := Sql.sum (ticks.map fun tick => some tick.qty)
  let weighted := Sql.sum (ticks.map fun tick => tick.midPrice.map (· * tick.qty))
  { exchange := key.1
    symbol := key.2.1
    windowStart := key.2.2
    windowEnd := key.2.2 + minuteMicros
    openPrice := Sql.firstValue (ticks.map (·.midPrice))
    highPrice := Sql.max (ticks.map (·.midPrice))
    lowPrice := Sql.min (ticks.map (·.midPrice))
    closePrice := Sql.lastValue (ticks.map (·.midPrice))
    volume
    vwap :=
      -- a null volume is not positive
      if volume.any (0 < ·) then Option.map₂ (· / ·) weighted volume
      else Sql.avg (ticks.map (·.midPrice))
    tickCount := ticks.length
    firstTs := Sql.min (ticks.map (·.exchangeEventTs))
    lastTs := Sql.max (ticks.map (·.exchangeEventTs)) }

/-- `ohlcv_1m/insert.sql` on ticks none of which is late.  A tick without event time fails the job.
-/
def streamQuery (ticks : List BookTick) : Option (List StreamBar) :=
  if ticks.any (·.exchangeEventTs.isNone) then none
  else
    some <| (Sql.groupBy BookTick.windowKey (ticks.filter (·.midPrice.isSome))).map
      fun (key, ticks) => streamBar key ticks

/-! ## The backfill -/

/-- A row of `backfill_ohlcv.sql`; its prices are the columns `open`, `high`, `low` and `close`. -/
structure BackfillBar where
  exchange : String
  symbol : String
  windowStart : ℤ
  windowEnd : ℤ
  openPrice : Option ℚ
  highPrice : Option ℚ
  lowPrice : Option ℚ
  closePrice : Option ℚ
  vwap : Option ℚ
  tradeCount : ℕ
  eventDate : ℤ
  ingestTs : ℤ
deriving DecidableEq

/-- How an engine numbers the rows of a window, by event time upwards and downwards. -/
structure Engine where
  asc : ∀ ticks : List BookTick, Sql.RowNumber (fun a b => a.eventTs ≤ b.eventTs) ticks
  desc : ∀ ticks : List BookTick, Sql.RowNumber (fun a b => b.eventTs ≤ a.eventTs) ticks

/-- What an engine makes of `AVG`, from the values that are not null in the order of `rn_asc` and in
that of `rn_desc`.  The columns are doubles, so that an average depends on the order of the additions;
the engine adds the rows in the order of one of its numberings. -/
abbrev Average := List ℚ → List ℚ → Option ℚ

/-- `AVG` without rounding. -/
def exactAverage : Average := fun up _ => Sql.avg (up.map some)

/-- A row of the common table expression `ranked`. -/
structure RankedTick where
  midPrice : Option ℚ
  rnAsc : ℕ
  rnDesc : ℕ

/-- The rows of `ranked` for one window. -/
def ranked (engine : Engine) (ticks : List BookTick) : List RankedTick :=
  List.ofFn fun i =>
    ⟨(ticks.get i).midPrice, (engine.asc ticks).number i, (engine.desc ticks).number i⟩

/-- The local date of an instant, in a zone given in minutes east of UTC. -/
def dateOf (zone ts : ℤ) : ℤ := (ts + zone * minuteMicros) / (1440 * minuteMicros)

/-- The instant `{date}T00:00:00`. -/
def startOfDay (zone date : ℤ) : ℤ := (date * 1440 - zone) * minuteMicros

/-- The select list of `backfill_ohlcv.sql`, on one window. -/
def backfillBar (average : Average) (engine : Engine) (zone now : ℤ) (key : WindowKey)
    (ticks : List BookTick) : BackfillBar :=
  let rows := ranked engine ticks
  { exchange := key.1
    symbol := key.2.1
    windowStart := key.2.2
    windowEnd := key.2.2 + minuteMicros
    openPrice := Sql.max (rows.map fun row => if row.rnAsc = 1 then row.midPrice else none)
    highPrice := Sql.max (rows.map (·.midPrice))
    lowPrice := Sql.min (rows.map (·.midPrice))
    closePrice := Sql.max (rows.map fun row => if row.rnDesc = 1 then row.midPrice else none)
    vwap := average ((engine.asc ticks).inOrder.filterMap (·.midPrice))
      ((engine.desc ticks).inOrder.filterMap (·.midPrice))
    tradeCount := rows.length
    eventDate := dateOf zone key.2.2
    ingestTs := now }

/-- The `WHERE` clause; a null is not in the range. -/
def inRange (startTs endTs : ℤ) (tick : BookTick) : Bool :=
  match tick.exchangeEventTs with
  | none => false
  | some ts => startTs ≤ ts && ts < endTs

/-- `ORDER BY exchange, symbol, window_start` -/
def barOrder (a b : BackfillBar) : Prop :=
  a.exchange < b.exchange ∨ a.exchange = b.exchange ∧
    (a.symbol < b.symbol ∨ a.symbol = b.symbol ∧ a.windowStart ≤ b.windowStart)

instance : DecidableRel barOrder :=
  fun a b => inferInstanceAs (Decidable (a.exchange < b.exchange ∨ a.exchange = b.exchange ∧
    (a.symbol < b.symbol ∨ a.symbol = b.symbol ∧ a.windowStart ≤ b.windowStart)))

/-- `backfill_ohlcv.sql` -/
def backfillQuery (average : Average) (engine : Engine) (zone now startTs endTs : ℤ)
    (ticks : List BookTick) : List BackfillBar :=
  ((Sql.groupBy BookTick.windowKey (ticks.filter (inRange startTs endTs))).map fun (key, ticks) =>
    backfillBar average engine zone now key ticks).insertionSort barOrder

/-! ## The write -/

/-- A row of `normalized.ohlcv_1m`, with the columns of the job it comes from. -/
inductive OhlcvRow
  | stream (bar : StreamBar)
  | backfill (bar : BackfillBar)
deriving DecidableEq

/-- `PARTITIONED BY (exchange, symbol)` -/
def OhlcvRow.partition : OhlcvRow → String × String
  | .stream bar => (bar.exchange, bar.symbol)
  | .backfill bar => (bar.exchange, bar.symbol)

def OhlcvRow.windowStart : OhlcvRow → ℤ
  | .stream bar => bar.windowStart
  | .backfill bar => bar.windowStart

/-- `validate_date_range` -/
def validateDateRange (start stop : ℤ) : Except PyError Unit :=
  if stop ≤ start then .error .valueError
  else if stop - start > 90 then .error .valueError
  else .ok ()

/-- `main` of `backfill_ohlcv.py` from the parsed dates on: the content of `normalized.ohlcv_1m`
after the write. -/
def backfillMain (average : Average) (engine : Engine) (zone now start stop : ℤ)
    (ticks : List BookTick) (table : List OhlcvRow) : Except PyError (List OhlcvRow) := do
  validateDateRange start stop
  let frame :=
    backfillQuery average engine zone now (startOfDay zone start) (startOfDay zone stop) ticks
  return Sql.overwritePartitions OhlcvRow.partition table (frame.map OhlcvRow.backfill)

end Ticksense
