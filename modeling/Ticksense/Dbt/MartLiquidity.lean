import Mathlib.Algebra.Order.Floor.Ring
import Mathlib.Data.Int.ConditionallyCompleteOrder
import Mathlib.Data.Rat.Floor
import Ticksense.Lib.Sql

/-!
# The liquidity mart

`mart_liquidity.sql` joins three queries over `normalized.book_ticker`: the latest prices, the
latest imbalance and the freshness of each (exchange, symbol).  The latest row is chosen twice, each
time by a `ROW_NUMBER()` that orders by event time alone.

* `Numberings` — how the engine numbers the rows of a group in the two queries.
* `intSpreadMetrics`, `intOrderBookImbalance`, `intFreshnessStatus`, `martLiquidity` — the models.
* `martLiquidity_eq` — the mart has one row for each group; its prices are those of the row numbered
  first by one query, its imbalance is that of the row numbered first by the other.
* `mart_one_tick_iff` — when they describe one tick, whatever the engine does.
-/

namespace Ticksense

/-- The columns of `normalized.book_ticker` that the mart uses. -/
structure BookRow where
  exchange : Option String
  symbol : Option String
  exchangeEventTs : Option ℤ
  bestBidPrice : Option ℚ
  bestAskPrice : Option ℚ
  spread : Option ℚ
  midPrice : Option ℚ
  bestBidQty : Option ℚ
  bestAskQty : Option ℚ
  imbalance : Option ℚ
deriving DecidableEq

/-- Exchange and symbol. -/
abbrev GroupKey := Option String × Option String

def BookRow.key (r : BookRow) : GroupKey := (r.exchange, r.symbol)

/-- The sort key; nulls come last in a descending order. -/
def BookRow.latest (r : BookRow) : WithBot ℤ := r.exchangeEventTs

/-- `order by exchange_event_ts desc` -/
def LatestFirst (a b : BookRow) : Prop := OrderDual.toDual a.latest ≤ OrderDual.toDual b.latest

/-- How the engine numbers the rows of a group in the two queries that rank them. -/
structure Numberings where
  spread : ∀ group : List BookRow, Sql.RowNumber LatestFirst group
  imbalance : ∀ group : List BookRow, Sql.RowNumber LatestFirst group

/-- The rows with `rn = 1`. -/
def rankedFirst (number : ∀ group : List BookRow, Sql.RowNumber LatestFirst group)
    (rows : List BookRow) : List BookRow :=
  (Sql.groupBy BookRow.key rows).flatMap fun g => (number g.2).firstRows

/-- `round(x, 4)`: half away from zero. -/
def round4 (x : ℚ) : ℚ :=
  if 0 ≤ x then ⌊x * 10000 + 1 / 2⌋ / 10000 else -(⌊-x * 10000 + 1 / 2⌋ / 10000)

/-- A row of `int_spread_metrics.sql`. -/
structure SpreadMetrics where
  exchange : Option String
  symbol : Option String
  latestTs : Option ℤ
  bestBidPrice : Option ℚ
  bestAskPrice : Option ℚ
  spread : Option ℚ
  midPrice : Option ℚ
  spreadBps : Option ℚ
  bestBidQty : Option ℚ
  bestAskQty : Option ℚ

/-- `round(spread / nullif(mid_price, 0) * 10000, 4)` -/
def spreadBpsOf (spread midPrice : Option ℚ) : Option ℚ :=
  (Option.map₂ (· / ·) spread (midPrice.filter (· ≠ 0))).map fun x => round4 (x * 10000)

/-- The select list of `int_spread_metrics.sql`. -/
def BookRow.spreadMetrics (r : BookRow) : SpreadMetrics where
  exchange := r.exchange
  symbol := r.symbol
  latestTs := r.exchangeEventTs
  bestBidPrice := r.bestBidPrice
  bestAskPrice := r.bestAskPrice
  spread := r.spread
  midPrice := r.midPrice
  spreadBps := spreadBpsOf r.spread r.midPrice
  bestBidQty := r.bestBidQty
  bestAskQty := r.bestAskQty

/-- `int_spread_metrics.sql` -/
def intSpreadMetrics (numberings : Numberings) (rows : List BookRow) : List SpreadMetrics :=
  (rankedFirst numberings.spread rows).map BookRow.spreadMetrics

/-- A row of `int_order_book_imbalance.sql`, without the columns that the mart does not use. -/
structure OrderBookImbalance where
  exchange : Option String
  symbol : Option String
  imbalance : Option ℚ
  marketSignal : String

/-- The `case` of `int_order_book_imbalance.sql`; a null imbalance is neither. -/
def marketSignalOf (imbalance : Option ℚ) : String :=
  if imbalance.any (3 / 5 < ·) then "BUY_PRESSURE"
  else if imbalance.any (· < 2 / 5) then "SELL_PRESSURE"
  else "NEUTRAL"

def BookRow.orderBookImbalance (r : BookRow) : OrderBookImbalance where
  exchange := r.exchange
  symbol := r.symbol
  imbalance := r.imbalance
  marketSignal := marketSignalOf r.imbalance

/-- `int_order_book_imbalance.sql` -/
def intOrderBookImbalance (numberings : Numberings) (rows : List BookRow) :
    List OrderBookImbalance :=
  (rankedFirst numberings.imbalance rows).map BookRow.orderBookImbalance

/-- A row of `int_freshness_status.sql`, without the columns that the mart does not use. -/
structure Freshness where
  exchange : Option String
  symbol : Option String
  stalenessSeconds : Option ℤ
  freshnessStatus : String

/-- The select list of `int_freshness_status.sql`, on one group; the time is in microseconds. -/
def freshness (now : ℤ) (key : GroupKey) (group : List BookRow) : Freshness :=
  let stalenessSeconds :=
    (Sql.max (group.map (·.exchangeEventTs))).map fun ts => (now - ts).tdiv (1000 * 1000)
  { exchange := key.1
    symbol := key.2
    stalenessSeconds
    freshnessStatus :=
      if stalenessSeconds.any (· ≤ 60) then "FRESH"
      else if stalenessSeconds.any (· ≤ 120) then "WARN"
      else "STALE" }

/-- `int_freshness_status.sql` -/
def intFreshnessStatus (now : ℤ) (rows : List BookRow) : List Freshness :=
  (Sql.groupBy BookRow.key rows).map fun g => freshness now g.1 g.2

/-- A row of `mart_liquidity.sql`; the columns of a left join that matches nothing are null. -/
structure MartRow where
  exchange : Option String
  symbol : Option String
  latestTs : Option ℤ
  bestBidPrice : Option ℚ
  bestAskPrice : Option ℚ
  spread : Option ℚ
  midPrice : Option ℚ
  spreadBps : Option ℚ
  bestBidQty : Option ℚ
  bestAskQty : Option ℚ
  imbalance : Option ℚ
  marketSignal : Option String
  stalenessSeconds : Option ℤ
  freshnessStatus : Option String

/-- The select list of `mart_liquidity.sql`. -/
def martRow (s : SpreadMetrics) (i : Option OrderBookImbalance) (f : Option Freshness) :
    MartRow where
  exchange := s.exchange
  symbol := s.symbol
  latestTs := s.latestTs
  bestBidPrice := s.bestBidPrice
  bestAskPrice := s.bestAskPrice
  spread := s.spread
  midPrice := s.midPrice
  spreadBps := s.spreadBps
  bestBidQty := s.bestBidQty
  bestAskQty := s.bestAskQty
  imbalance := i.bind (·.imbalance)
  marketSignal := i.map (·.marketSignal)
  stalenessSeconds := f.bind (·.stalenessSeconds)
  freshnessStatus := f.map (·.freshnessStatus)

/-- `mart_liquidity.sql` -/
def martLiquidity (numberings : Numberings) (now : ℤ) (rows : List BookRow) : List MartRow :=
  let withImbalance := Sql.leftJoin
    (fun (s : SpreadMetrics) (i : OrderBookImbalance) =>
      Sql.eq s.exchange i.exchange && Sql.eq s.symbol i.symbol)
    (intSpreadMetrics numberings rows) (intOrderBookImbalance numberings rows)
  let withFreshness := Sql.leftJoin
    (fun (si : SpreadMetrics × Option OrderBookImbalance) (f : Freshness) =>
      Sql.eq si.1.exchange f.exchange && Sql.eq si.1.symbol f.symbol)
    withImbalance (intFreshnessStatus now rows)
  withFreshness.map fun sif => martRow sif.1.1 sif.1.2 sif.2

/-! ## What a row has to be -/

def MartRow.key (m : MartRow) : GroupKey := (m.exchange, m.symbol)

/-- A row with the greatest event time of its group. -/
def IsLatest (rows : List BookRow) (r : BookRow) : Prop :=
  r ∈ rows ∧ ∀ r' ∈ rows, r'.key = r.key → r'.latest ≤ r.latest

/-- The prices and quantities are those of a row. -/
def MartRow.PricesOf (m : MartRow) (r : BookRow) : Prop :=
  m.bestBidPrice = r.bestBidPrice ∧ m.bestAskPrice = r.bestAskPrice ∧ m.spread = r.spread ∧
    m.midPrice = r.midPrice ∧ m.bestBidQty = r.bestBidQty ∧ m.bestAskQty = r.bestAskQty

/-- Imbalance and signal are those of a row. -/
def MartRow.ImbalanceOf (m : MartRow) (r : BookRow) : Prop :=
  m.imbalance = r.imbalance ∧ m.marketSignal = some (marketSignalOf r.imbalance)

/-- The same prices and quantities. -/
def BookRow.SamePrices (r r' : BookRow) : Prop :=
  r.bestBidPrice = r'.bestBidPrice ∧ r.bestAskPrice = r'.bestAskPrice ∧ r.spread = r'.spread ∧
    r.midPrice = r'.midPrice ∧ r.bestBidQty = r'.bestBidQty ∧ r.bestAskQty = r'.bestAskQty

/-- One row for each group. -/
def OneRowPerGroup (rows : List BookRow) (mart : List MartRow) : Prop :=
  (mart.map MartRow.key).Nodup ∧ ∀ key, key ∈ mart.map MartRow.key ↔ key ∈ rows.map BookRow.key

/-- One row for each group, and each of them describes one of the latest rows of its group. -/
def OneTickPerGroup (rows : List BookRow) (mart : List MartRow) : Prop :=
  OneRowPerGroup rows mart ∧
    ∀ m ∈ mart, ∃ r, IsLatest rows r ∧ r.key = m.key ∧ m.PricesOf r ∧ m.ImbalanceOf r

/-! ## The mart, group by group -/

section Mart

variable {rows : List BookRow} {numberings : Numberings} {now : ℤ} {m : MartRow}

variable (number : ∀ group : List BookRow, Sql.RowNumber LatestFirst group)

/-- The first row of a group is one of the latest. -/
lemma firstRows_of_group {g : GroupKey × List BookRow} (hg : g ∈ Sql.groupBy BookRow.key rows) :
    ∃ r, (number g.2).firstRows = [r] ∧ IsLatest rows r ∧ r.key = g.1 := by
  obtain ⟨key, group⟩ := g
  obtain ⟨hgroup, hne⟩ := Sql.mem_groupBy.mp hg
  have hpos : 0 < group.length := List.length_pos_iff.mpr hne
  have hmem : ∀ r, r ∈ group ↔ r ∈ rows ∧ r.key = key := by
    intro r
    rw [hgroup, List.mem_filter, decide_eq_true_eq]
  obtain ⟨hrow, hkey⟩ := (hmem _).mp (List.get_mem group ((number group).first hpos))
  refine ⟨_, (number group).firstRows_eq hpos, ⟨hrow, ?_⟩, hkey⟩
  intro r hr hsame
  obtain ⟨i, rfl⟩ := List.get_of_mem ((hmem r).mpr ⟨hr, hsame.trans hkey⟩)
  exact OrderDual.toDual_le_toDual.mp ((number group).first_le hpos i)

lemma mem_rankedFirst {r : BookRow} :
    r ∈ rankedFirst number rows ↔
      ∃ g ∈ Sql.groupBy BookRow.key rows, (number g.2).firstRows = [r] := by
  rw [rankedFirst, List.mem_flatMap]
  refine exists_congr fun g => and_congr_right fun hg => ?_
  obtain ⟨r', hr', -⟩ := firstRows_of_group number hg
  rw [hr', List.mem_singleton, List.cons.injEq, and_iff_left rfl]
  exact eq_comm

/-- There is one row for each group. -/
lemma map_key_rankedFirst :
    (rankedFirst number rows).map BookRow.key = (Sql.groupBy BookRow.key rows).map Prod.fst := by
  rw [rankedFirst, List.map_flatMap, ← List.flatMap_singleton' (List.map Prod.fst _),
    List.flatMap_map]
  refine List.flatMap_congr fun g hg => ?_
  obtain ⟨r, hr, -, hkey⟩ := firstRows_of_group number hg
  rw [hr, List.map_singleton, hkey]

/-- Exchange and symbol are known; otherwise a join does not find them. -/
def Known (key : GroupKey) : Prop := key.1 ≠ none ∧ key.2 ≠ none

instance (key : GroupKey) : Decidable (Known key) := inferInstanceAs (Decidable (_ ∧ _))

lemma keys_equal_iff {exchange symbol exchange' symbol' : Option String} :
    (Sql.eq exchange exchange' && Sql.eq symbol symbol') = true ↔
      (exchange', symbol') = (exchange, symbol) ∧ Known (exchange, symbol) := by
  rw [Bool.and_eq_true, Sql.eq_iff, Sql.eq_iff, Known, Prod.mk.injEq]
  constructor
  · rintro ⟨⟨hexchange, hknown⟩, hsymbol, hknown'⟩
    exact ⟨⟨hexchange.symm, hsymbol.symm⟩, hknown, hknown'⟩
  · rintro ⟨⟨hexchange, hsymbol⟩, hknown, hknown'⟩
    exact ⟨⟨hexchange.symm, hknown⟩, hsymbol.symm, hknown'⟩

lemma nodup_keys_imbalance :
    ((intOrderBookImbalance numberings rows).map fun i => (i.exchange, i.symbol)).Nodup := by
  have hkeys : (intOrderBookImbalance numberings rows).map (fun i => (i.exchange, i.symbol)) =
      (rankedFirst numberings.imbalance rows).map BookRow.key := by
    rw [intOrderBookImbalance, List.map_map]
    rfl
  rw [hkeys, map_key_rankedFirst]
  exact Sql.nodup_keys_groupBy _ _

lemma nodup_keys_freshness :
    ((intFreshnessStatus now rows).map fun f => (f.exchange, f.symbol)).Nodup := by
  have hkeys : (intFreshnessStatus now rows).map (fun f => (f.exchange, f.symbol)) =
      (Sql.groupBy BookRow.key rows).map Prod.fst := by
    rw [intFreshnessStatus, List.map_map]
    rfl
  rw [hkeys]
  exact Sql.nodup_keys_groupBy _ _

lemma leftJoin_imbalance {left : List SpreadMetrics} :
    Sql.leftJoin (fun (s : SpreadMetrics) (i : OrderBookImbalance) =>
        Sql.eq s.exchange i.exchange && Sql.eq s.symbol i.symbol)
      left (intOrderBookImbalance numberings rows) =
      left.map fun s => (s, (intOrderBookImbalance numberings rows).find? fun i =>
        Sql.eq s.exchange i.exchange && Sql.eq s.symbol i.symbol) :=
  Sql.leftJoin_eq_map (fun s => (s.exchange, s.symbol)) nodup_keys_imbalance fun _ _ h =>
    (keys_equal_iff.mp h).1

lemma leftJoin_freshness {left : List (SpreadMetrics × Option OrderBookImbalance)} :
    Sql.leftJoin (fun (si : SpreadMetrics × Option OrderBookImbalance) (f : Freshness) =>
        Sql.eq si.1.exchange f.exchange && Sql.eq si.1.symbol f.symbol)
      left (intFreshnessStatus now rows) =
      left.map fun si => (si, (intFreshnessStatus now rows).find? fun f =>
        Sql.eq si.1.exchange f.exchange && Sql.eq si.1.symbol f.symbol) :=
  Sql.leftJoin_eq_map (fun si => (si.1.exchange, si.1.symbol)) nodup_keys_freshness fun _ _ h =>
    (keys_equal_iff.mp h).1

/-- **The mart**: a row for each row of `int_spread_metrics`, with what the other two have for its
key. -/
theorem martLiquidity_eq : martLiquidity numberings now rows =
    (rankedFirst numberings.spread rows).map fun a => martRow a.spreadMetrics
      ((intOrderBookImbalance numberings rows).find? fun i =>
        Sql.eq a.exchange i.exchange && Sql.eq a.symbol i.symbol)
      ((intFreshnessStatus now rows).find? fun f =>
        Sql.eq a.exchange f.exchange && Sql.eq a.symbol f.symbol) := by
  rw [martLiquidity, leftJoin_imbalance, leftJoin_freshness, intSpreadMetrics, List.map_map,
    List.map_map, List.map_map]
  rfl

/-- The mart has one row for each group. -/
lemma martLiquidity_oneRowPerGroup : OneRowPerGroup rows (martLiquidity numberings now rows) := by
  have hkeys : (martLiquidity numberings now rows).map MartRow.key =
      (Sql.groupBy BookRow.key rows).map Prod.fst := by
    rw [martLiquidity_eq, List.map_map, ← map_key_rankedFirst numberings.spread]
    rfl
  rw [OneRowPerGroup, hkeys]
  exact ⟨Sql.nodup_keys_groupBy _ _, fun _ => Sql.mem_keys_groupBy⟩

/-- What the join finds for a group. -/
lemma find?_imbalance {g : GroupKey × List BookRow} (hg : g ∈ Sql.groupBy BookRow.key rows)
    {a b : BookRow} (ha : a.key = g.1) (hb : (numberings.imbalance g.2).firstRows = [b])
    (hbkey : b.key = g.1) :
    ((intOrderBookImbalance numberings rows).find? fun i =>
        Sql.eq a.exchange i.exchange && Sql.eq a.symbol i.symbol) =
      if Known g.1 then some b.orderBookImbalance else none := by
  split_ifs with hknown
  · refine Sql.find?_of_key BookRow.key nodup_keys_imbalance
      (fun _ _ h => (keys_equal_iff.mp h).1)
      (List.mem_map_of_mem ((mem_rankedFirst _).mpr ⟨g, hg, hb⟩)) (keys_equal_iff.mpr ?_)
    rw [← ha] at hknown hbkey
    exact ⟨hbkey, hknown⟩
  · refine List.find?_eq_none.mpr fun i _ h => hknown ?_
    rw [← ha]
    exact (keys_equal_iff.mp h).2

/-- The row of a group in the mart. -/
lemma exists_martRow {g : GroupKey × List BookRow} (hg : g ∈ Sql.groupBy BookRow.key rows)
    {a b : BookRow} (ha : (numberings.spread g.2).firstRows = [a]) (hakey : a.key = g.1)
    (hb : (numberings.imbalance g.2).firstRows = [b]) (hbkey : b.key = g.1) :
    ∃ f, martRow a.spreadMetrics (if Known g.1 then some b.orderBookImbalance else none) f ∈
      martLiquidity numberings now rows := by
  rw [martLiquidity_eq, ← find?_imbalance hg hakey hb hbkey]
  exact ⟨_, List.mem_map_of_mem ((mem_rankedFirst _).mpr ⟨g, hg, ha⟩)⟩

/-- Every row of the mart is the row of a group. -/
lemma martRow_of_mem (hm : m ∈ martLiquidity numberings now rows) :
    ∃ g ∈ Sql.groupBy BookRow.key rows, ∃ a b f, IsLatest rows a ∧ a.key = g.1 ∧
      IsLatest rows b ∧ b.key = g.1 ∧
      m = martRow a.spreadMetrics (if Known g.1 then some b.orderBookImbalance else none) f := by
  rw [martLiquidity_eq] at hm
  obtain ⟨a, ha, rfl⟩ := List.mem_map.mp hm
  obtain ⟨g, hg, hfirst⟩ := (mem_rankedFirst _).mp ha
  obtain ⟨a', ha', halatest, hakey⟩ := firstRows_of_group numberings.spread hg
  obtain ⟨b, hb, hblatest, hbkey⟩ := firstRows_of_group numberings.imbalance hg
  obtain rfl : a = a' := List.singleton_inj.mp (hfirst.symm.trans ha')
  have hjoin := find?_imbalance hg hakey hb hbkey
  exact ⟨g, hg, a, b, _, halatest, hakey, hblatest, hbkey, by rw [hjoin]⟩

/-- Any latest row of a group may be numbered first. -/
lemma exists_numbering_of_latest {a : BookRow} (ha : IsLatest rows a) :
    ∃ number : ∀ group : List BookRow, Sql.RowNumber LatestFirst group,
      (number (rows.filter (·.key = a.key))).firstRows = [a] := by
  have hmem : a ∈ rows.filter (·.key = a.key) :=
    List.mem_filter.mpr ⟨ha.1, decide_eq_true rfl⟩
  obtain ⟨number, hnumber⟩ := Sql.RowNumber.exists_numbering
    (fun r : BookRow => OrderDual.toDual r.latest) hmem fun b hb =>
      OrderDual.toDual_le_toDual.mpr
        (ha.2 b (List.mem_filter.mp hb).1 (of_decide_eq_true (List.mem_filter.mp hb).2))
  refine ⟨number, ?_⟩
  have hpos := List.length_pos_of_mem hmem
  exact ((number _).firstRows_eq hpos).trans (by rw [hnumber hpos])

variable (now) in
/-- **The mart may mix two ticks**: any two latest rows of a group, for an engine that numbers them
so. -/
lemma exists_mixed_row {a b : BookRow} (ha : IsLatest rows a) (hb : IsLatest rows b)
    (hkey : b.key = a.key) :
    ∃ numberings f, martRow a.spreadMetrics
      (if Known a.key then some b.orderBookImbalance else none) f ∈
        martLiquidity numberings now rows := by
  obtain ⟨spread, hspread⟩ := exists_numbering_of_latest ha
  obtain ⟨imbalance, himbalance⟩ := exists_numbering_of_latest hb
  rw [hkey] at himbalance
  have hg : (a.key, rows.filter (·.key = a.key)) ∈ Sql.groupBy BookRow.key rows :=
    Sql.mem_groupBy.mpr ⟨rfl, List.ne_nil_of_mem (List.mem_filter.mpr ⟨ha.1, decide_eq_true rfl⟩)⟩
  let numberings : Numberings := ⟨spread, imbalance⟩
  have hspread' : (numberings.spread (rows.filter (·.key = a.key))).firstRows = [a] := hspread
  have himbalance' : (numberings.imbalance (rows.filter (·.key = a.key))).firstRows = [b] :=
    himbalance
  obtain ⟨f, hf⟩ := exists_martRow hg hspread' rfl himbalance' hkey
  exact ⟨numberings, f, hf⟩

/-- Every group has a latest row. -/
lemma exists_latest {r : BookRow} (hr : r ∈ rows) : ∃ a, IsLatest rows a ∧ a.key = r.key := by
  have hg : (r.key, rows.filter (·.key = r.key)) ∈ Sql.groupBy BookRow.key rows :=
    Sql.mem_groupBy.mpr ⟨rfl, List.ne_nil_of_mem (List.mem_filter.mpr ⟨hr, decide_eq_true rfl⟩)⟩
  obtain ⟨a, -, ha, hkey⟩ := firstRows_of_group (Sql.RowNumber.ofKey _) hg
  exact ⟨a, ha, hkey⟩

/-- A row whose prices and imbalance are those of `c`, where they came from `a` and `b`. -/
lemma martRow_describes_iff {a b c : BookRow} {f : Option Freshness} :
    (martRow a.spreadMetrics (some b.orderBookImbalance) f).PricesOf c ∧
        (martRow a.spreadMetrics (some b.orderBookImbalance) f).ImbalanceOf c ↔
      c.SamePrices a ∧ c.imbalance = b.imbalance := by
  constructor
  · rintro ⟨⟨hbid, hask, hspread, hmid, hbidQty, haskQty⟩, himbalance, -⟩
    exact ⟨⟨hbid.symm, hask.symm, hspread.symm, hmid.symm, hbidQty.symm, haskQty.symm⟩,
      himbalance.symm⟩
  · rintro ⟨⟨hbid, hask, hspread, hmid, hbidQty, haskQty⟩, himbalance⟩
    refine ⟨⟨hbid.symm, hask.symm, hspread.symm, hmid.symm, hbidQty.symm, haskQty.symm⟩,
      himbalance.symm, ?_⟩
    rw [himbalance]
    rfl

end Mart

/-- **When the mart describes ticks**, whatever the engine does: all rows have exchange and symbol,
and for any two latest rows of a group, there is one with the prices of the first and the imbalance
of the second. -/
theorem mart_one_tick_iff (rows : List BookRow) :
    (∀ numberings now, OneTickPerGroup rows (martLiquidity numberings now rows)) ↔
      (∀ r ∈ rows, Known r.key) ∧
        ∀ a b, IsLatest rows a → IsLatest rows b → a.key = b.key →
          ∃ c, IsLatest rows c ∧ c.key = a.key ∧ c.SamePrices a ∧ c.imbalance = b.imbalance := by
  constructor
  · intro h
    have hknown : ∀ r ∈ rows, Known r.key := by
      intro r hr
      by_contra hunknown
      obtain ⟨a, ha, hkey⟩ := exists_latest hr
      obtain ⟨numberings, f, hm⟩ := exists_mixed_row 0 ha ha rfl
      obtain ⟨c, -, -, -, -, hsignal⟩ := (h numberings 0).2 _ hm
      -- the join found nothing, and the signal is null
      rw [hkey, if_neg hunknown] at hsignal
      cases hsignal
    refine ⟨hknown, fun a b ha hb hkey => ?_⟩
    obtain ⟨numberings, f, hm⟩ := exists_mixed_row 0 ha hb hkey.symm
    obtain ⟨c, hc, hckey, hdescribes⟩ := (h numberings 0).2 _ hm
    rw [if_pos (hknown a ha.1)] at hdescribes
    exact ⟨c, hc, hckey, martRow_describes_iff.mp hdescribes⟩
  · rintro ⟨hknown, hmix⟩ numberings now
    refine ⟨martLiquidity_oneRowPerGroup, fun m hm => ?_⟩
    obtain ⟨g, hg, a, b, f, ha, hakey, hb, hbkey, rfl⟩ := martRow_of_mem hm
    obtain ⟨c, hc, hckey, hdescribes⟩ := hmix a b ha hb (hakey.trans hbkey.symm)
    rw [if_pos (hakey ▸ hknown a ha.1)]
    exact ⟨c, hc, hckey, martRow_describes_iff.mpr hdescribes⟩

/-- A tick with a wall of asks. -/
def askHeavy : BookRow :=
  ⟨some "binance", some "BTC-USD", some 1000, some 99, some 101, some 2, some 100, some 1, some 3,
    some (1 / 4)⟩

/-- A tick of the same millisecond with a wall of bids. -/
def bidHeavy : BookRow :=
  ⟨some "binance", some "BTC-USD", some 1000, some 98, some 104, some 6, some 101, some 3, some 1,
    some (3 / 4)⟩

/-- **A mixed row**: the prices of one tick with the imbalance of the other. -/
theorem mart_mixes_ticks :
    ¬ ∀ rows numberings now, OneTickPerGroup rows (martLiquidity numberings now rows) := by
  intro h
  -- the engine takes the prices of the first and the imbalance of the second
  have hlatest : ∀ r ∈ [askHeavy, bidHeavy], IsLatest [askHeavy, bidHeavy] r := by
    intro r hr
    refine ⟨hr, ?_⟩
    revert r
    decide
  obtain ⟨numberings, f, hm⟩ := exists_mixed_row 0 (hlatest askHeavy List.mem_cons_self)
    (hlatest bidHeavy (List.mem_cons_of_mem _ List.mem_cons_self)) rfl
  obtain ⟨c, ⟨hc, -⟩, -, hdescribes⟩ := (h _ numberings 0).2 _ hm
  rw [if_pos (by decide)] at hdescribes
  obtain ⟨⟨hbid, -⟩, himbalance⟩ := martRow_describes_iff.mp hdescribes
  rcases List.mem_pair.mp hc with rfl | rfl
  · norm_num [askHeavy, bidHeavy] at himbalance
  · norm_num [askHeavy, bidHeavy] at hbid

end Ticksense
