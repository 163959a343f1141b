import Ticksense.Lib.Dict
import Ticksense.Python.Datetime

/-!
# Rows of the query engine and responses of the API

`trino_client.py` returns a row as a dictionary of cells, and `models/*.py` are the classes that
`model_validate` builds from it, one required field after the other (`updated_at` of a symbol may be
absent).

* `Cell`, `Row` — a value of a result set, and a row by column names.
* `Libraries` — what the code takes from libraries: how texts change case, how the response
  classes coerce a cell to the type of a field, and what a gauge accepts.
* `SpreadResponse.modelValidate` and its siblings.
-/

namespace Ticksense

/-- A value in a result set. -/
inductive Cell
  | null
  | bool (b : Bool)
  | int (n : ℤ)
  | real (x : PyFloat)
  | decimal (q : ℚ)
  | str (text : String)
  | timestamp (ts : Datetime)

/-- `dict(zip(cols, row))` -/
abbrev Row := Dict String Cell

/-- `r[key]` -/
def Row.getItem (r : Row) (key : String) : Except PyError Cell :=
  match r.get? key with
  | some v => .ok v
  | none => .error .keyError

/-- The part of the libraries that the API rests on. -/
structure Libraries where
  /-- `str.upper` -/
  upper : String → String
  /-- `str.lower` -/
  lower : String → String
  /-- `str(v)` of a value that is not a text -/
  render : Cell → String
  /-- validation of a `str` field -/
  asStr : Cell → Option String
  /-- validation of a `float` field -/
  asFloat : Cell → Option PyFloat
  /-- validation of an `int` field -/
  asInt : Cell → Option ℤ
  /-- validation of a `datetime` field -/
  asDatetime : Cell → Option Datetime
  /-- the value that `Gauge.set` stores -/
  gaugeValue : Cell → Except PyError PyFloat

namespace Libraries

/-- `str(v)` -/
def str (lib : Libraries) : Cell → String
  | .str text => text
  | v => lib.render v

end Libraries

/-- A required field; what cannot be coerced is a `ValidationError`, a kind of `ValueError`. -/
def Row.field {α : Type} (r : Row) (coerce : Cell → Option α) (name : String) :
    Except PyError α :=
  match (r.get? name).bind coerce with
  | some a => .ok a
  | none => .error .valueError

/-- A field whose annotation is `T | None = None`. -/
def Row.optionalField {α : Type} (r : Row) (coerce : Cell → Option α) (name : String) :
    Except PyError (Option α) :=
  match r.get? name with
  | none => .ok none
  | some .null => .ok none
  | some v =>
      match coerce v with
      | some a => .ok (some a)
      | none => .error .valueError

/-! ## `models/liquidity.py` -/

structure SpreadResponse where
  exchange : String
  symbol : String
  latestTs : Datetime
  bestBidPrice : PyFloat
  bestAskPrice : PyFloat
  spread : PyFloat
  midPrice : PyFloat
  spreadBps : PyFloat

def SpreadResponse.modelValidate (lib : Libraries) (r : Row) : Except PyError SpreadResponse := do
  return { exchange := ← r.field lib.asStr "exchange"
           symbol := ← r.field lib.asStr "symbol"
           latestTs := ← r.field lib.asDatetime "latest_ts"
           bestBidPrice := ← r.field lib.asFloat "best_bid_price"
           bestAskPrice := ← r.field lib.asFloat "best_ask_price"
           spread := ← r.field lib.asFloat "spread"
           midPrice := ← r.field lib.asFloat "mid_price"
           spreadBps := ← r.field lib.asFloat "spread_bps" }

structure LiquidityResponse where
  exchange : String
  symbol : String
  latestTs : Datetime
  bestBidPrice : PyFloat
  bestAskPrice : PyFloat
  spread : PyFloat
  midPrice : PyFloat
  spreadBps : PyFloat
  bestBidQty : PyFloat
  bestAskQty : PyFloat
  imbalance : PyFloat
  marketSignal : String
  stalenessSeconds : ℤ
  freshnessStatus : String

def LiquidityResponse.modelValidate (lib : Libraries) (r : Row) :
    Except PyError LiquidityResponse := do
  return { exchange := ← r.field lib.asStr "exchange"
           symbol := ← r.field lib.asStr "symbol"
           latestTs := ← r.field lib.asDatetime "latest_ts"
           bestBidPrice := ← r.field lib.asFloat "best_bid_price"
           bestAskPrice := ← r.field lib.asFloat "best_ask_price"
           spread := ← r.field lib.asFloat "spread"
           midPrice := ← r.field lib.asFloat "mid_price"
           spreadBps := ← r.field lib.asFloat "spread_bps"
           bestBidQty := ← r.field lib.asFloat "best_bid_qty"
           bestAskQty := ← r.field lib.asFloat "best_ask_qty"
           imbalance := ← r.field lib.asFloat "imbalance"
           marketSignal := ← r.field lib.asStr "market_signal"
           stalenessSeconds := ← r.field lib.asInt "staleness_seconds"
           freshnessStatus := ← r.field lib.asStr "freshness_status" }

/-! ## `models/ohlcv.py` -/

structure OHLCVBar where
  exchange : String
  symbol : String
  windowStart : Datetime
  windowEnd : Datetime
  openPrice : PyFloat
  highPrice : PyFloat
  lowPrice : PyFloat
  closePrice : PyFloat
  volume : PyFloat
  vwap : PyFloat
  tickCount : ℤ
  firstTs : Datetime
  lastTs : Datetime

def OHLCVBar.modelValidate (lib : Libraries) (r : Row) : Except PyError OHLCVBar := do
  return { exchange := ← r.field lib.asStr "exchange"
           symbol := ← r.field lib.asStr "symbol"
           windowStart := ← r.field lib.asDatetime "window_start"
           windowEnd := ← r.field lib.asDatetime "window_end"
           openPrice := ← r.field lib.asFloat "open_price"
           highPrice := ← r.field lib.asFloat "high_price"
           lowPrice := ← r.field lib.asFloat "low_price"
           closePrice := ← r.field lib.asFloat "close_price"
           volume := ← r.field lib.asFloat "volume"
           vwap := ← r.field lib.asFloat "vwap"
           tickCount := ← r.field lib.asInt "tick_count"
           firstTs := ← r.field lib.asDatetime "first_ts"
           lastTs := ← r.field lib.asDatetime "last_ts" }

structure OHLCVResponse where
  symbol : String
  exchange : String
  interval : String := "1m"
  bars : List OHLCVBar
  count : ℕ

/-! ## `models/pipeline.py` -/

structure PipelineLagItem where
  exchange : String
  symbol : String
  latestEventTs : Datetime
  latestIngestTs : Datetime
  stalenessSeconds : ℤ
  freshnessStatus : String
  healthScore : PyFloat

def PipelineLagItem.modelValidate (lib : Libraries) (r : Row) :
    Except PyError PipelineLagItem := do
  return { exchange := ← r.field lib.asStr "exchange"
           symbol := ← r.field lib.asStr "symbol"
           latestEventTs := ← r.field lib.asDatetime "latest_event_ts"
           latestIngestTs := ← r.field lib.asDatetime "latest_ingest_ts"
           stalenessSeconds := ← r.field lib.asInt "staleness_seconds"
           freshnessStatus := ← r.field lib.asStr "freshness_status"
           healthScore := ← r.field lib.asFloat "health_score" }

structure PipelineLagResponse where
  items : List PipelineLagItem
  checkedAt : Datetime
  healthyCount : ℕ
  totalCount : ℕ

/-! ## `models/symbols.py` -/

structure SymbolItem where
  symbol : String
  exchange : String
  status : String
  baseAsset : String
  quoteAsset : String
  updatedAt : Option Datetime

def SymbolItem.modelValidate (lib : Libraries) (r : Row) : Except PyError SymbolItem := do
  return { symbol := ← r.field lib.asStr "symbol"
           exchange := ← r.field lib.asStr "exchange"
           status := ← r.field lib.asStr "status"
           baseAsset := ← r.field lib.asStr "base_asset"
           quoteAsset := ← r.field lib.asStr "quote_asset"
           updatedAt := ← r.optionalField lib.asDatetime "updated_at" }

structure SymbolsResponse where
  symbols : List SymbolItem
  count : ℕ

end Ticksense
