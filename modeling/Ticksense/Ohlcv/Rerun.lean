import Ticksense.Ohlcv.Agreement

/-!
# Backfills of the same range

Two runs of the backfill over the same ticks.  Both number the ticks of a window by event time, and
each run may number ticks of one event time in its own order.

* `exists_bar_open`, `exists_bar_close` — a bar may open with any of the first ticks of its window,
  and close with any of the last; `exists_prices_ne` — tied prices may be added in either order.
* `SettledEnds`, `Settled` — the ticks an engine may choose from have one price, at the ends of the
  window, or everywhere.
* `reruns_identical_iff` — the runs make the same bars, whatever their engines do, if and only if
  all windows are settled; without rounding, if and only if their ends are.
* `rerun_keeps_bars` — a second backfill then leaves the bars of the table as they are.
-/

namespace Ticksense

/-! ## The ticks of a window -/

/-- The ticks in the range that belong to a window. -/
def windowTicks (startTs endTs : ℤ) (ticks : List BookTick) (key : WindowKey) : List BookTick :=
  (ticks.filter (inRange startTs endTs)).filter (·.windowKey = key)

/-- No tick of the window is earlier. -/
def IsFirst (ticks : List BookTick) (tick : BookTick) : Prop :=
  tick ∈ ticks ∧ ∀ other ∈ ticks, tick.eventTs ≤ other.eventTs

/-- No tick of the window is later. -/
def IsLast (ticks : List BookTick) (tick : BookTick) : Prop :=
  tick ∈ ticks ∧ ∀ other ∈ ticks, other.eventTs ≤ tick.eventTs

/-- All first ticks have one price, and all last ticks have one price. -/
structure SettledEnds (ticks : List BookTick) : Prop where
  first : ∀ a b, IsFirst ticks a → IsFirst ticks b → a.midPrice = b.midPrice
  last : ∀ a b, IsLast ticks a → IsLast ticks b → a.midPrice = b.midPrice

/-- Besides, ticks of one event time that have a price have the same price. -/
structure Settled (ticks : List BookTick) : Prop extends SettledEnds ticks where
  tied : ∀ a ∈ ticks, ∀ b ∈ ticks, a.eventTs = b.eventTs →
    ∀ p ∈ a.midPrice, ∀ q ∈ b.midPrice, p = q

/-- The columns of a bar that do not say when it was written. -/
def BackfillBar.columns (bar : BackfillBar) : SharedColumns × Option ℚ := (bar.shared, bar.vwap)

/-- The same bars, up to `ingest_ts`. -/
def SameBars (bars bars' : List BackfillBar) : Prop :=
  ∀ columns, columns ∈ bars.map BackfillBar.columns ↔ columns ∈ bars'.map BackfillBar.columns

/-! ## The bar of a window -/

section Bars

variable {average : Average} {engine engine' : Engine} {zone now now' startTs endTs : ℤ}
  {key : WindowKey} {ticks : List BookTick}

lemma isFirst_asc (hpos : 0 < ticks.length) :
    IsFirst ticks (ticks.get ((engine.asc ticks).first hpos)) := by
  refine ⟨List.get_mem _ _, fun other hother => ?_⟩
  obtain ⟨i, rfl⟩ := List.get_of_mem hother
  exact (engine.asc ticks).first_le hpos i

lemma isLast_desc (hpos : 0 < ticks.length) :
    IsLast ticks (ticks.get ((engine.desc ticks).first hpos)) := by
  refine ⟨List.get_mem _ _, fun other hother => ?_⟩
  obtain ⟨i, rfl⟩ := List.get_of_mem hother
  exact (engine.desc ticks).first_le hpos i

/-- **The bar of a window with settled ends** depends on the engine in its average only. -/
lemma columns_eq_of_settledEnds (hpos : 0 < ticks.length) (h : SettledEnds ticks)
    (hvwap : (backfillBar average engine zone now key ticks).vwap =
      (backfillBar average engine' zone now' key ticks).vwap) :
    (backfillBar average engine zone now key ticks).columns =
      (backfillBar average engine' zone now' key ticks).columns := by
  have hopen : (backfillBar average engine zone now key ticks).openPrice =
      (backfillBar average engine' zone now' key ticks).openPrice := by
    rw [openPrice_eq hpos, openPrice_eq hpos]
    exact h.first _ _ (isFirst_asc hpos) (isFirst_asc hpos)
  have hclose : (backfillBar average engine zone now key ticks).closePrice =
      (backfillBar average engine' zone now' key ticks).closePrice := by
    rw [closePrice_eq hpos, closePrice_eq hpos]
    exact h.last _ _ (isLast_desc hpos) (isLast_desc hpos)
  rw [BackfillBar.columns, BackfillBar.columns, BackfillBar.shared, BackfillBar.shared, hopen,
    hclose, hvwap]
  simp only [backfillBar, ranked_midPrice, length_ranked]

/-- **The average of a settled window**: its prices have one order, upwards and downwards. -/
lemma vwap_eq_of_settled (h : Settled ticks) :
    (backfillBar average engine zone now key ticks).vwap =
      (backfillBar average engine' zone now' key ticks).vwap := by
  have hasc : (engine.asc ticks).inOrder.filterMap (·.midPrice)
      = (engine'.asc ticks).inOrder.filterMap (·.midPrice) :=
    Sql.RowNumber.filterMap_inOrder_eq h.tied _ _
  have hdesc : (engine.desc ticks).inOrder.filterMap (·.midPrice)
      = (engine'.desc ticks).inOrder.filterMap (·.midPrice) :=
    @Sql.RowNumber.filterMap_inOrder_eq _ _ _ _ _
      (fun tick : BookTick => OrderDual.toDual tick.eventTs) _ h.tied (engine.desc ticks)
      (engine'.desc ticks)
  exact congrArg₂ average hasc hdesc

/-- The exact average does not depend on the engine. -/
lemma exact_vwap_eq : (backfillBar exactAverage engine zone now key ticks).vwap =
    (backfillBar exactAverage engine' zone now' key ticks).vwap := by
  have hperm : ((engine.asc ticks).inOrder.filterMap (·.midPrice)).Perm
      ((engine'.asc ticks).inOrder.filterMap (·.midPrice)) :=
    ((engine.asc ticks).inOrder_perm.trans (engine'.asc ticks).inOrder_perm.symm).filterMap _
  exact Sql.avg_perm (hperm.map some)

/-- The bars of a frame, window by window. -/
lemma mem_columns_iff {columns : SharedColumns × Option ℚ} :
    columns ∈ (backfillQuery average engine zone now startTs endTs ticks).map BackfillBar.columns ↔
      ∃ key, 0 < (windowTicks startTs endTs ticks key).length ∧
        (backfillBar average engine zone now key (windowTicks startTs endTs ticks key)).columns =
          columns := by
  rw [List.mem_map]
  constructor
  · rintro ⟨bar, hbar, rfl⟩
    obtain ⟨key, group, hgroup, rfl⟩ := mem_backfillQuery.mp hbar
    obtain ⟨rfl, hne⟩ := Sql.mem_groupBy.mp hgroup
    exact ⟨key, List.length_pos_iff.mpr hne, rfl⟩
  · rintro ⟨key, hpos, rfl⟩
    refine ⟨_, mem_backfillQuery.mpr ⟨key, _, Sql.mem_groupBy.mpr ⟨rfl, ?_⟩, rfl⟩, rfl⟩
    exact List.length_pos_iff.mp hpos

/-- Frames with the same bars have the same bar in each window. -/
lemma columns_eq_of_sameBars
    (h : SameBars (backfillQuery average engine zone now startTs endTs ticks)
      (backfillQuery average engine' zone now' startTs endTs ticks))
    (hpos : 0 < (windowTicks startTs endTs ticks key).length) :
    (backfillBar average engine zone now key (windowTicks startTs endTs ticks key)).columns =
      (backfillBar average engine' zone now' key (windowTicks startTs endTs ticks key)).columns := by
  obtain ⟨key', -, hcolumns⟩ := mem_columns_iff.mp ((h _).mp (mem_columns_iff.mpr ⟨key, hpos, rfl⟩))
  -- exchange, symbol and beginning of a bar are the key of its window
  have hkey : key' = key := by
    have hexchange := congrArg (fun columns => columns.1.exchange) hcolumns
    have hsymbol := congrArg (fun columns => columns.1.symbol) hcolumns
    have hstart := congrArg (fun columns => columns.1.windowStart) hcolumns
    exact Prod.ext hexchange (Prod.ext hsymbol hstart)
  rw [← hcolumns, hkey]

lemma sameBars_of_columns (h : ∀ key, 0 < (windowTicks startTs endTs ticks key).length →
      (backfillBar average engine zone now key (windowTicks startTs endTs ticks key)).columns =
        (backfillBar average engine' zone now' key (windowTicks startTs endTs ticks key)).columns) :
    SameBars (backfillQuery average engine zone now startTs endTs ticks)
      (backfillQuery average engine' zone now' startTs endTs ticks) := by
  intro columns
  rw [mem_columns_iff, mem_columns_iff]
  refine exists_congr fun key => and_congr_right fun hpos => ?_
  rw [h key hpos]

lemma sameBars_of_settled (h : ∀ key, Settled (windowTicks startTs endTs ticks key)) :
    SameBars (backfillQuery average engine zone now startTs endTs ticks)
      (backfillQuery average engine' zone now' startTs endTs ticks) :=
  sameBars_of_columns fun key hpos =>
    columns_eq_of_settledEnds hpos (h key).toSettledEnds (vwap_eq_of_settled (h key))

lemma sameBars_of_settledEnds (h : ∀ key, SettledEnds (windowTicks startTs endTs ticks key)) :
    SameBars (backfillQuery exactAverage engine zone now startTs endTs ticks)
      (backfillQuery exactAverage engine' zone now' startTs endTs ticks) :=
  sameBars_of_columns fun key hpos => columns_eq_of_settledEnds hpos (h key) exact_vwap_eq

end Bars

/-! ## The choices of an engine -/

section Choices

variable {average : Average} {zone startTs endTs : ℤ} {key : WindowKey} {ticks : List BookTick}
  {a b : BookTick}

variable (average) (key) (zone now : ℤ) in
/-- A bar may open with any of the first ticks. -/
lemma exists_bar_open (ha : IsFirst ticks a) :
    ∃ engine, (backfillBar average engine zone now key ticks).openPrice = a.midPrice := by
  obtain ⟨asc, hasc⟩ := Sql.RowNumber.exists_numbering BookTick.eventTs ha.1 ha.2
  have hpos := List.length_pos_of_mem ha.1
  refine ⟨⟨asc, sortingEngine.desc⟩, ?_⟩
  rw [openPrice_eq hpos, hasc]

variable (average) (key) (zone now : ℤ) in
/-- A bar may close with any of the last ticks. -/
lemma exists_bar_close (ha : IsLast ticks a) :
    ∃ engine, (backfillBar average engine zone now key ticks).closePrice = a.midPrice := by
  obtain ⟨desc, hdesc⟩ := Sql.RowNumber.exists_numbering
    (fun tick : BookTick => OrderDual.toDual tick.eventTs) ha.1 fun other hother =>
      OrderDual.toDual_le_toDual.mpr (ha.2 other hother)
  have hpos := List.length_pos_of_mem ha.1
  refine ⟨⟨sortingEngine.asc, fun ticks => desc ticks⟩, ?_⟩
  rw [closePrice_eq hpos]
  exact congrArg BookTick.midPrice (hdesc hpos)

/-- The prices of tied ticks may come in either order. -/
lemma exists_prices_ne (ha : a ∈ ticks) (hb : b ∈ ticks) (hts : a.eventTs = b.eventTs) {p q : ℚ}
    (hp : a.midPrice = some p) (hq : b.midPrice = some q) (hne : p ≠ q) :
    ∃ engine engine' : Engine, (engine.asc ticks).inOrder.filterMap BookTick.midPrice ≠
      (engine'.asc ticks).inOrder.filterMap BookTick.midPrice := by
  obtain ⟨rn, rn', hdiffer⟩ := Sql.RowNumber.exists_filterMap_inOrder_ne ha hb hts hp hq hne
  obtain ⟨asc, rfl⟩ := Sql.RowNumber.exists_extension BookTick.eventTs rn
  obtain ⟨asc', rfl⟩ := Sql.RowNumber.exists_extension BookTick.eventTs rn'
  exact ⟨⟨asc, sortingEngine.desc⟩, ⟨asc', sortingEngine.desc⟩, hdiffer⟩

/-- If no engine makes a difference, the ends of each window are settled. -/
lemma settledEnds_of_sameBars
    (h : ∀ engine engine' now now',
      SameBars (backfillQuery average engine zone now startTs endTs ticks)
        (backfillQuery average engine' zone now' startTs endTs ticks)) (key : WindowKey) :
    SettledEnds (windowTicks startTs endTs ticks key) := by
  constructor
  · intro a b ha hb
    obtain ⟨engine, hopen⟩ := exists_bar_open average key zone 0 ha
    obtain ⟨engine', hopen'⟩ := exists_bar_open average key zone 0 hb
    have hcolumns := columns_eq_of_sameBars (h engine engine' 0 0) (List.length_pos_of_mem ha.1)
    rw [← hopen, ← hopen']
    exact congrArg (fun columns => columns.1.openPrice) hcolumns
  · intro a b ha hb
    obtain ⟨engine, hclose⟩ := exists_bar_close average key zone 0 ha
    obtain ⟨engine', hclose'⟩ := exists_bar_close average key zone 0 hb
    have hcolumns := columns_eq_of_sameBars (h engine engine' 0 0) (List.length_pos_of_mem ha.1)
    rw [← hclose, ← hclose']
    exact congrArg (fun columns => columns.1.closePrice) hcolumns

/-- If besides no way of averaging makes one, each window is settled: an average can tell one order
of the prices from all others. -/
lemma settled_of_sameBars
    (h : ∀ average engine engine' now now',
      SameBars (backfillQuery average engine zone now startTs endTs ticks)
        (backfillQuery average engine' zone now' startTs endTs ticks)) (key : WindowKey) :
    Settled (windowTicks startTs endTs ticks key) := by
  refine ⟨settledEnds_of_sameBars (h exactAverage) key, ?_⟩
  intro a ha b hb hts p hp q hq
  by_contra hne
  obtain ⟨engine, engine', hdiffer⟩ := exists_prices_ne ha hb hts hp hq hne
  let average : Average := fun up _ =>
    if up = (engine.asc (windowTicks startTs endTs ticks key)).inOrder.filterMap BookTick.midPrice
    then some 1 else none
  have hcolumns := columns_eq_of_sameBars (h average engine engine' 0 0) (List.length_pos_of_mem ha)
  have hvwap : (some 1 : Option ℚ) = none := by
    have hsame := congrArg Prod.snd hcolumns
    simp only [BackfillBar.columns, backfillBar, average, if_true, if_neg hdiffer.symm] at hsame
    exact hsame
  cases hvwap

end Choices

/-- **When reruns are identical.**  For any two runs to make the same bars, whatever their engines
do with ticks of one event time, the first ticks of every window must have one price, and so must
the last ticks.  Without rounding this is enough.  Whatever becomes of an average by rounding in the
order of its rows, they make the same bars if and only if also the ticks of each event time have one
price. -/
theorem reruns_identical_iff (zone startTs endTs : ℤ) (ticks : List BookTick) :
    (∀ average, (∀ engine engine' now now',
        SameBars (backfillQuery average engine zone now startTs endTs ticks)
          (backfillQuery average engine' zone now' startTs endTs ticks)) →
      ∀ key, SettledEnds (windowTicks startTs endTs ticks key)) ∧
    ((∀ engine engine' now now',
        SameBars (backfillQuery exactAverage engine zone now startTs endTs ticks)
          (backfillQuery exactAverage engine' zone now' startTs endTs ticks)) ↔
      ∀ key, SettledEnds (windowTicks startTs endTs ticks key)) ∧
    ((∀ average engine engine' now now',
        SameBars (backfillQuery average engine zone now startTs endTs ticks)
          (backfillQuery average engine' zone now' startTs endTs ticks)) ↔
      ∀ key, Settled (windowTicks startTs endTs ticks key)) := by
  refine ⟨fun average h key => settledEnds_of_sameBars h key, ⟨fun h key => ?_, ?_⟩, ⟨?_, ?_⟩⟩
  · exact settledEnds_of_sameBars h key
  · intro h engine engine' now now'
    exact sameBars_of_settledEnds h
  · intro h key
    exact settled_of_sameBars h key
  · intro h average engine engine' now now'
    exact sameBars_of_settled h

/-- Two ticks of one event time with different prices. -/
def tiedTicks : List BookTick := [sampleTick, { sampleTick with midPrice := some 200 }]

/-- **Two runs that differ**: one opens with the first of the tied ticks, the other with the second.
-/
theorem reruns_may_differ :
    ¬ ∀ (average : Average) (zone start stop : ℤ) (ticks : List BookTick),
      validateDateRange start stop = .ok () → ∀ engine engine' now now',
        SameBars
          (backfillQuery average engine zone now (startOfDay zone start) (startOfDay zone stop) ticks)
          (backfillQuery average engine' zone now' (startOfDay zone start) (startOfDay zone stop)
            ticks) := by
  intro h
  have hsettled := settledEnds_of_sameBars (h exactAverage 0 19724 19725 tiedTicks (by decide))
    ("binance", "btcusdt", startOfDay 0 19724)
  have hwindow : windowTicks (startOfDay 0 19724) (startOfDay 0 19725) tiedTicks
      ("binance", "btcusdt", startOfDay 0 19724) = tiedTicks := by
    decide
  rw [hwindow] at hsettled
  have hfirst : ∀ tick ∈ tiedTicks, IsFirst tiedTicks tick := by
    intro tick htick
    refine ⟨htick, ?_⟩
    revert tick
    decide
  have hprices := hsettled.first _ _ (hfirst sampleTick List.mem_cons_self)
    (hfirst _ (List.mem_cons_of_mem _ List.mem_cons_self))
  norm_num [sampleTick] at hprices

/-! ## The table after a rerun -/

/-- A row of `normalized.ohlcv_1m`, up to the time of a backfill. -/
def OhlcvRow.columns : OhlcvRow → StreamBar ⊕ SharedColumns × Option ℚ
  | .stream bar => .inl bar
  | .backfill bar => .inr bar.columns

/-- All runs write the same partitions. -/
lemma partition_frame_iff (average : Average) (engine engine' : Engine)
    (zone now now' startTs endTs : ℤ) (ticks : List BookTick) (p : String × String) :
    p ∈ ((backfillQuery average engine zone now startTs endTs ticks).map OhlcvRow.backfill).map
        OhlcvRow.partition ↔
      p ∈ ((backfillQuery average engine' zone now' startTs endTs ticks).map OhlcvRow.backfill).map
        OhlcvRow.partition :=
  mem_partition_frame.trans mem_partition_frame.symm

/-- The rows of frames with the same bars. -/
lemma SameBars.rows {bars bars' : List BackfillBar} (h : SameBars bars bars')
    (columns : StreamBar ⊕ SharedColumns × Option ℚ) :
    columns ∈ (bars.map OhlcvRow.backfill).map OhlcvRow.columns ↔
      columns ∈ (bars'.map OhlcvRow.backfill).map OhlcvRow.columns := by
  have hcolumns : ∀ bars : List BackfillBar, (bars.map OhlcvRow.backfill).map OhlcvRow.columns =
      (bars.map BackfillBar.columns).map Sum.inr := by
    intro bars
    rw [List.map_map, List.map_map]
    rfl
  rw [hcolumns, hcolumns, List.mem_map, List.mem_map]
  exact exists_congr fun c => and_congr_left' (h c)

/-- **A rerun keeps the bars**, once all windows of the range are settled. -/
theorem rerun_keeps_bars (average : Average) (engine engine' : Engine)
    (zone now now' start stop : ℤ) (ticks : List BookTick) (table : List OhlcvRow)
    (hvalid : validateDateRange start stop = .ok ())
    (h : ∀ key, Settled (windowTicks (startOfDay zone start) (startOfDay zone stop) ticks key)) :
    ∃ once twice, backfillMain average engine zone now start stop ticks table = .ok once ∧
      backfillMain average engine' zone now' start stop ticks once = .ok twice ∧
      ∀ columns, columns ∈ once.map OhlcvRow.columns ↔ columns ∈ twice.map OhlcvRow.columns := by
  refine ⟨_, _, backfillMain_of_valid hvalid, backfillMain_of_valid hvalid, fun columns => ?_⟩
  have hpartitions := partition_frame_iff average engine engine' zone now now'
    (startOfDay zone start) (startOfDay zone stop) ticks
  rw [Sql.overwritePartitions_twice hpartitions, Sql.overwritePartitions,
    Sql.overwritePartitions, Sql.survivors_congr hpartitions, List.map_append, List.map_append,
    List.mem_append, List.mem_append]
  exact or_congr_right ((sameBars_of_settled h).rows columns)

end Ticksense
