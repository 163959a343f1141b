import Ticksense.Ohlcv.Queries

/-!
# What a backfill overwrites

The backfill selects ticks by time, but its write replaces whole partitions, and a partition of
`normalized.ohlcv_1m` is an exchange and a symbol.

* `mem_backfillQuery` — the bars of the frame; `windowStart_mem` — all lie in the range.
* `mem_partition_frame` — the partitions of the frame are those of the ticks in the range.
* `outside_survives_iff` — the bars outside the range all survive if and only if none shares its
  exchange and symbol with a tick in the range.
-/

namespace Ticksense

variable {average : Average} {engine : Engine} {zone now startTs endTs : ℤ} {ticks : List BookTick}

lemma mem_backfillQuery {bar : BackfillBar} :
    bar ∈ backfillQuery average engine zone now startTs endTs ticks ↔
      ∃ key group,
        (key, group) ∈ Sql.groupBy BookTick.windowKey (ticks.filter (inRange startTs endTs)) ∧
        bar = backfillBar average engine zone now key group := by
  constructor
  · intro h
    obtain ⟨⟨key, group⟩, hgroup, rfl⟩ := List.mem_map.mp ((List.mem_insertionSort _).mp h)
    exact ⟨key, group, hgroup, rfl⟩
  · rintro ⟨key, group, hgroup, rfl⟩
    exact (List.mem_insertionSort _).mpr (List.mem_map.mpr ⟨(key, group), hgroup, rfl⟩)

/-- A window of the backfill has a tick in it. -/
lemma exists_tick_of_group {key : WindowKey} {group : List BookTick}
    (h : (key, group) ∈ Sql.groupBy BookTick.windowKey (ticks.filter (inRange startTs endTs))) :
    ∃ tick ∈ ticks, inRange startTs endTs tick = true ∧ tick.windowKey = key := by
  obtain ⟨rfl, hne⟩ := Sql.mem_groupBy.mp h
  obtain ⟨tick, htick⟩ := List.exists_mem_of_ne_nil _ hne
  obtain ⟨hmem, hkey⟩ := List.mem_filter.mp htick
  obtain ⟨hmem, hrange⟩ := List.mem_filter.mp hmem
  exact ⟨tick, hmem, hrange, of_decide_eq_true hkey⟩

lemma startOfDay_aligned (zone date : ℤ) : startOfDay zone date % minuteMicros = 0 :=
  Int.mul_emod_left _ _

/-- A tick in a range that begins on a minute lies in a window of the range. -/
lemma truncMinute_mem {tick : BookTick} (haligned : startTs % minuteMicros = 0)
    (h : inRange startTs endTs tick = true) :
    startTs ≤ truncMinute tick.eventTs ∧ truncMinute tick.eventTs < endTs := by
  cases hts : tick.exchangeEventTs with
  | none => simp [inRange, hts] at h
  | some ts =>
      simp only [inRange, hts, Bool.and_eq_true, decide_eq_true_eq] at h
      simp only [BookTick.eventTs, hts, Option.getD_some, truncMinute, minuteMicros] at haligned ⊢
      omega

/-- Every bar of the frame lies in the range. -/
lemma windowStart_mem {bar : BackfillBar} (haligned : startTs % minuteMicros = 0)
    (h : bar ∈ backfillQuery average engine zone now startTs endTs ticks) :
    startTs ≤ bar.windowStart ∧ bar.windowStart < endTs := by
  obtain ⟨key, group, hgroup, rfl⟩ := mem_backfillQuery.mp h
  obtain ⟨tick, _, hrange, rfl⟩ := exists_tick_of_group hgroup
  exact truncMinute_mem haligned hrange

/-- The frame has rows in the partitions of the ticks in the range. -/
lemma mem_partition_frame {p : String × String} :
    p ∈ ((backfillQuery average engine zone now startTs endTs ticks).map OhlcvRow.backfill).map
        OhlcvRow.partition ↔
      ∃ tick ∈ ticks, inRange startTs endTs tick = true ∧ (tick.exchange, tick.symbol) = p := by
  simp only [List.map_map, List.mem_map, Function.comp]
  constructor
  · rintro ⟨bar, hbar, rfl⟩
    obtain ⟨key, group, hgroup, rfl⟩ := mem_backfillQuery.mp hbar
    obtain ⟨tick, htick, hrange, rfl⟩ := exists_tick_of_group hgroup
    exact ⟨tick, htick, hrange, rfl⟩
  · rintro ⟨tick, htick, hrange, rfl⟩
    have hmem : tick ∈ ticks.filter (inRange startTs endTs) := List.mem_filter.mpr ⟨htick, hrange⟩
    have hgroup := Sql.mem_groupBy.mpr ⟨rfl, List.ne_nil_of_mem
      (List.mem_filter.mpr ⟨hmem, decide_eq_true (Eq.refl tick.windowKey)⟩)⟩
    exact ⟨_, mem_backfillQuery.mpr ⟨_, _, hgroup, rfl⟩, rfl⟩

/-! ## The frame condition -/

/-- The bar begins before the first day of the range, or on its last day or later. -/
def OhlcvRow.Outside (zone start stop : ℤ) (row : OhlcvRow) : Prop :=
  ¬ (startOfDay zone start ≤ row.windowStart ∧ row.windowStart < startOfDay zone stop)

lemma outside_notMem_frame {start stop : ℤ} {row : OhlcvRow} (h : row.Outside zone start stop) :
    row ∉ (backfillQuery average engine zone now (startOfDay zone start) (startOfDay zone stop)
      ticks).map OhlcvRow.backfill := by
  intro hmem
  obtain ⟨bar, hbar, rfl⟩ := List.mem_map.mp hmem
  exact h (windowStart_mem (startOfDay_aligned zone start) hbar)

lemma backfillMain_of_valid {start stop : ℤ} {table : List OhlcvRow}
    (hvalid : validateDateRange start stop = .ok ()) :
    backfillMain average engine zone now start stop ticks table = .ok (Sql.overwritePartitions
      OhlcvRow.partition table ((backfillQuery average engine zone now (startOfDay zone start)
        (startOfDay zone stop) ticks).map OhlcvRow.backfill)) := by
  rw [backfillMain, hvalid]
  rfl

/-- **One bar outside the range** survives if no tick in the range has its exchange and symbol, and
only then. -/
lemma outside_mem_iff {start stop : ℤ} {table : List OhlcvRow} {row : OhlcvRow} (hrow : row ∈ table)
    (houtside : row.Outside zone start stop) :
    row ∈ Sql.overwritePartitions OhlcvRow.partition table
        ((backfillQuery average engine zone now (startOfDay zone start) (startOfDay zone stop)
          ticks).map OhlcvRow.backfill) ↔
      ∀ tick ∈ ticks, inRange (startOfDay zone start) (startOfDay zone stop) tick = true →
        (tick.exchange, tick.symbol) ≠ row.partition := by
  rw [Sql.survives_iff hrow (outside_notMem_frame houtside), mem_partition_frame]
  simp only [not_exists, not_and, ne_eq]

/-- **When a backfill touches only its range.**  The write succeeds for every accepted range, and
every bar outside the range is still there, unchanged, if and only if no such bar has the exchange
and symbol of a tick in the range. -/
theorem outside_survives_iff (average : Average) (engine : Engine) (zone now start stop : ℤ)
    (ticks : List BookTick) (table : List OhlcvRow) (hvalid : validateDateRange start stop = .ok ()) :
    ∃ table', backfillMain average engine zone now start stop ticks table = .ok table' ∧
      ((∀ row ∈ table, row.Outside zone start stop → row ∈ table') ↔
        ∀ row ∈ table, row.Outside zone start stop → ∀ tick ∈ ticks,
          inRange (startOfDay zone start) (startOfDay zone stop) tick = true →
            (tick.exchange, tick.symbol) ≠ row.partition) := by
  refine ⟨_, backfillMain_of_valid hvalid, ?_⟩
  constructor
  · intro h row hrow houtside
    exact (outside_mem_iff hrow houtside).mp (h row hrow houtside)
  · intro h row hrow houtside
    exact (outside_mem_iff hrow houtside).mpr (h row hrow houtside)

/-! ## A backfill of one day -/

/-- An engine that sorts by event time. -/
def sortingEngine : Engine where
  asc := Sql.RowNumber.ofKey BookTick.eventTs
  desc := fun ticks =>
    Sql.RowNumber.ofKey (fun tick : BookTick => OrderDual.toDual tick.eventTs) ticks

/-- A tick on 2024-01-02. -/
def sampleTick : BookTick where
  exchange := "binance"
  symbol := "btcusdt"
  exchangeEventTs := some (startOfDay 0 19724)
  midPrice := some 100
  bestBidQty := some 1

/-- The streamed bar of a tick of the same symbol on the day before. -/
def sampleBar : OhlcvRow :=
  .stream (streamBar ("binance", "btcusdt", startOfDay 0 19723)
    [{ sampleTick with exchangeEventTs := some (startOfDay 0 19723) }])

theorem outside_survives_iff_sample :
    ∃ table', backfillMain exactAverage sortingEngine 0 0 19724 19725
        [{ sampleTick with symbol := "ethusdt" }] [sampleBar] = .ok table' ∧
      ∀ row ∈ [sampleBar], row.Outside 0 19724 19725 → row ∈ table' := by
  rcases outside_survives_iff exactAverage sortingEngine 0 0 19724 19725
    [{ sampleTick with symbol := "ethusdt" }] [sampleBar] (by decide) with ⟨table', hmain, hiff⟩
  refine ⟨table', hmain, hiff.mpr ?_⟩
  intro row hrow _ tick htick _
  rw [List.mem_singleton.mp hrow, List.mem_singleton.mp htick]
  decide

/-- **A backfill of one day drops the day before.** -/
theorem backfill_drops_the_day_before :
    ¬ ∀ (average : Average) (engine : Engine) (zone now start stop : ℤ) (ticks : List BookTick)
        (table table' : List OhlcvRow), validateDateRange start stop = .ok () →
      backfillMain average engine zone now start stop ticks table = .ok table' →
      ∀ row ∈ table, row.Outside zone start stop → row ∈ table' := by
  intro h
  have houtside : sampleBar.Outside 0 19724 19725 := by
    rw [OhlcvRow.Outside]
    decide
  have hmem := h exactAverage sortingEngine 0 0 19724 19725 [sampleTick] [sampleBar] _ (by decide)
    (backfillMain_of_valid (by decide)) sampleBar (List.mem_singleton_self _) houtside
  exact (outside_mem_iff (List.mem_singleton_self _) houtside).mp hmem sampleTick
    (List.mem_singleton_self _) (by decide) rfl

end Ticksense
