import Ticksense.Flink.TopicRows
import Ticksense.Ohlcv.WindowJob

/-!
# The bars after the normalize job was restarted

The streaming OHLCV job reads the topic of the normalize job, which has rows more than once after a
failure; the backfill reads the table, which has each row once.  The rows that come again are old,
so that the partition is out of order, by as much as there is between two checkpoints.

* `BookTickerRow.tick` — the tick that the OHLCV job reads in a row of the topic.
* `mem_ticks_iff` — the topic has the ticks of the table, some of them several times.
* `extremes_survive_restarts` — the windows of the bars, their high and low prices and their first
  and last times are those of the table; volume, count and averages see the repeats.
-/

namespace Ticksense

open Checkpoint

/-! ## The ticks -/

/-- What the OHLCV job reads in a row.  The times are in milliseconds in the row and in microseconds
in the tick.  No message has a row without a tick (`tick_of_sent`). -/
def BookTickerRow.tick (row : BookTickerRow) : Option BookTick :=
  match row.exchange, row.symbol, row.midPrice, row.bestBidQty with
  | .str exchange, .str symbol, .fin mid, .fin qty =>
      some ⟨exchange, symbol, some (row.exchangeEventTsMs * 1000), some mid, some qty⟩
  | _, _, _, _ => none

/-- The tick does not have the time of processing. -/
@[simp] lemma tick_untimed (row : BookTickerRow) : row.untimed.tick = row.tick := rfl

lemma BookTickerRow.timed {row : BookTickerRow} {tick : BookTick} (h : row.tick = some tick) :
    tick.exchangeEventTs.isSome := by
  rw [BookTickerRow.tick] at h
  split at h
  · cases h
    rfl
  · cases h

section Normalize

variable {render : Json → String} {log : List KafkaRow}
  {sys : System ℤ KafkaRow (String → ProcessorState) BookTickerRow}
  (h : Machine.Reaches (Step (normalizeJob render OnTime))
    (System.fresh (normalizeJob render OnTime) log) sys)
  {partitionOf : String → ℤ}
  (hpartition : ∀ a ∈ sys.log, ∀ key, kafkaKey render a = .ok key → a.partition = partitionOf key)

include h hpartition

/-- Every row of the topic has a tick. -/
lemma tick_of_sent : ∀ row ∈ sys.topic, row.tick.isSome := by
  intro row hrow
  obtain ⟨snapshot, rows, hcomputes, hmem⟩ := (consistent_of_reaches h).computed row hrow
  obtain ⟨ds, _, _, hin, _⟩ := computed_row hcomputes hmem
    (p := partitionOf (row.key render)) fun a ha hk => hpartition a ha _ hk
  obtain ⟨_, d, _, _, hd⟩ := Transducer.mem_runPure hin
  obtain ⟨q, rfl⟩ := ProcessorState.eq_row_of_mem_step hd
  rfl

/-- **The ticks of the topic** are those of the table, when all of the raw topic has been processed
and committed. -/
lemma mem_ticks_iff (hend : sys.saved.AtEnd (normalizeJob render OnTime) sys.log)
    (hprepared : sys.prepared = []) (tick : BookTick) :
    tick ∈ sys.topic.filterMap BookTickerRow.tick ↔
      tick ∈ sys.table.filterMap BookTickerRow.tick := by
  rw [List.mem_filterMap, List.mem_filterMap]
  constructor
  · rintro ⟨row, hrow, htick⟩
    obtain ⟨row', hrow', hsame⟩ := topic_row_committed h hpartition hend hrow
    rw [hprepared, List.append_nil] at hrow'
    exact ⟨row', hrow', by rw [← tick_untimed, hsame, tick_untimed, htick]⟩
  · rintro ⟨row, hrow, htick⟩
    exact ⟨row, (consistent_of_reaches h).sent.subset (List.mem_append_left _ hrow), htick⟩

end Normalize

/-! ## The bars -/

/-- What a bar says that does not depend on how often its ticks come. -/
def StreamBar.extremes (bar : StreamBar) :
    WindowKey × Option ℚ × Option ℚ × Option ℤ × Option ℤ :=
  (bar.primaryKey, bar.highPrice, bar.lowPrice, bar.firstTs, bar.lastTs)

lemma extremes_congr (key : WindowKey) {ticks ticks' : List BookTick}
    (h : ∀ tick, tick ∈ ticks ↔ tick ∈ ticks') :
    (streamBar key ticks).extremes = (streamBar key ticks').extremes := by
  have hcolumn : ∀ {α : Type} (f : BookTick → α) (v : α), v ∈ ticks.map f ↔ v ∈ ticks'.map f := by
    intro α f v
    simp only [List.mem_map, h]
  have hhigh := Sql.max_congr (hcolumn (·.midPrice))
  have hlow := Sql.min_congr (hcolumn (·.midPrice))
  have hfirst := Sql.min_congr (hcolumn (·.exchangeEventTs))
  have hlast := Sql.max_congr (hcolumn (·.exchangeEventTs))
  simp only [StreamBar.extremes, StreamBar.primaryKey, streamBar, hhigh, hlow, hfirst, hlast]

lemma extremes_barsOf (ticks : List BookTick) :
    (barsOf (Sql.groupBy BookTick.windowKey ticks)).map StreamBar.extremes
      = ((Sql.groupBy BookTick.windowKey ticks).map Prod.fst).map fun key =>
        (streamBar key (ticks.filter (·.windowKey = key))).extremes := by
  rw [barsOf, List.map_map, List.map_map]
  refine List.map_congr_left fun group hgroup => ?_
  obtain ⟨key, rows⟩ := group
  obtain ⟨rfl, _⟩ := Sql.mem_groupBy.mp hgroup
  rfl

/-- The same ticks, whatever their number and order, have the same windows and extremes. -/
lemma extremes_perm {ticks ticks' : List BookTick} (h : ∀ tick, tick ∈ ticks ↔ tick ∈ ticks') :
    ((barsOf (Sql.groupBy BookTick.windowKey ticks)).map StreamBar.extremes).Perm
      ((barsOf (Sql.groupBy BookTick.windowKey ticks')).map StreamBar.extremes) := by
  have hkeys : ((Sql.groupBy BookTick.windowKey ticks).map Prod.fst).Perm
      ((Sql.groupBy BookTick.windowKey ticks').map Prod.fst) := by
    refine (List.perm_ext_iff_of_nodup (Sql.nodup_keys_groupBy _ _)
      (Sql.nodup_keys_groupBy _ _)).mpr fun key => ?_
    rw [Sql.mem_keys_groupBy, Sql.mem_keys_groupBy, List.mem_map, List.mem_map]
    simp only [h]
  rw [extremes_barsOf, extremes_barsOf]
  refine (hkeys.map _).trans (List.Perm.of_eq (List.map_congr_left fun key _ => ?_))
  refine extremes_congr key fun tick => ?_
  simp only [List.mem_filter, h]

/-- **The extremes survive restarts.**  The normalize job fails and is restored at any points until
all of the raw topic is processed and committed, no record being read late; the OHLCV job reads what
is in its topic, in any order in which only repeated ticks are five seconds behind, and fails and is
restored itself.  Then its bars, in the table and prepared, are for the same windows as those of the
query over the ticks of the book-ticker table that the saved watermarks have closed, and they have
the same high and low prices and the same first and last times. -/
theorem extremes_survive_restarts (render : Json → String) {raw : List KafkaRow}
    {sys : System ℤ KafkaRow (String → ProcessorState) BookTickerRow}
    (h : Machine.Reaches (Step (normalizeJob render OnTime))
      (System.fresh (normalizeJob render OnTime) raw) sys)
    (partitionOf : String → ℤ)
    (hpartition : ∀ a ∈ sys.log, ∀ key, kafkaKey render a = .ok key →
      a.partition = partitionOf key)
    (hend : sys.saved.AtEnd (normalizeJob render OnTime) sys.log) (hprepared : sys.prepared = [])
    {n : ℕ} {S : Type} [DecidableEq S] (subtask : String × String → S) {log : List (TickRecord n)}
    {osys : System (Fin n) (TickRecord n) (WindowState n S) StreamBar}
    (ho : Machine.Reaches (Step (ohlcvJob subtask)) (System.fresh (ohlcvJob subtask) log) osys)
    (hread : (sys.topic.filterMap BookTickerRow.tick).Perm (ticksOf osys.log))
    (horder : OrderlyButRepeats osys.log) :
    (∀ row ∈ sys.topic, row.tick.isSome) ∧
      ∃ bars, streamQuery (sys.table.filterMap BookTickerRow.tick) = some bars ∧
        ((osys.table ++ osys.prepared).map StreamBar.extremes).Perm
          ((bars.filter fun bar =>
            osys.saved.state.windows.Closed (tumble subtask) bar.primaryKey).map
              StreamBar.extremes) := by
  refine ⟨tick_of_sent h hpartition, ?_⟩
  have hticks : ∀ tick, tick ∈ ticksOf osys.log ↔
      tick ∈ sys.table.filterMap BookTickerRow.tick := fun tick =>
    hread.mem_iff.symm.trans (mem_ticks_iff h hpartition hend hprepared tick)
  have htimed : ∀ tick ∈ sys.table.filterMap BookTickerRow.tick, tick.exchangeEventTs.isSome := by
    intro tick htick
    obtain ⟨row, _, hrow⟩ := List.mem_filterMap.mp htick
    exact BookTickerRow.timed hrow
  obtain ⟨ticks, hbars, hmem⟩ := bars_with_repeats ho horder fun tick htick =>
    htimed tick ((hticks tick).mp htick)
  have hsame : ∀ tick, tick ∈ ticks ↔
      tick ∈ ((sys.table.filterMap BookTickerRow.tick).filter (·.midPrice.isSome)).filter
        fun tick => osys.saved.state.windows.Closed (tumble subtask) tick.windowKey := by
    intro tick
    rw [hmem, List.mem_filter, pricedTicks, List.mem_filter, List.mem_filter, hticks,
      decide_eq_true_eq]
  refine ⟨_, streamQuery_of_timed htimed, ((hbars.map _).trans (extremes_perm hsame)).trans ?_⟩
  have hfilter := Windows.filter_groupBy_perm BookTick.windowKey
    ((sys.table.filterMap BookTickerRow.tick).filter (·.midPrice.isSome))
    (fun key => osys.saved.state.windows.Closed (tumble subtask) key)
  refine List.Perm.map _ ((hfilter.map _).symm.trans (List.Perm.of_eq ?_))
  rw [barsOf, List.filter_map]
  rfl

/-- What the OHLCV job reads, in one partition. -/
def repeatedLog : List (TickRecord 1) :=
  [1704067200000, 1704067200000, 1704067266000].map fun ms =>
    { partition := 0
      tick := some ⟨"binance", "btcusdt", some (ms * 1000), some (201 / 2), some 1⟩
      millis := by
        rintro t ⟨⟩ ts ⟨⟩
        exact Dvd.intro_left _ rfl }

theorem extremes_survive_restarts_sample :
    ∃ (sys : System ℤ KafkaRow (String → ProcessorState) BookTickerRow)
      (osys : System (Fin 1) (TickRecord 1) (WindowState 1 Unit) StreamBar) (bars : List StreamBar),
      sys.table.length = 2 ∧ sys.topic.length = 3 ∧ osys.table ≠ [] ∧
      (sys.topic.filterMap BookTickerRow.tick).Perm (ticksOf osys.log) ∧
      streamQuery (sys.table.filterMap BookTickerRow.tick) = some bars ∧
      ((osys.table ++ osys.prepared).map StreamBar.extremes).Subperm
        (bars.map StreamBar.extremes) := by
  have honTime : ∀ d ∈ [sampleDelivery 5, sampleDelivery 20000, laterDelivery],
      OnTime d.element := by
    intro d hd
    refine ⟨d, rfl, ?_⟩
    revert d
    decide +kernel
  obtain ⟨sys, hreach, hlog, hend, hprepared, htable, htopic⟩ :=
    reaches_twoRecords (fun _ => "") OnTime honTime
  have hticks : sys.topic.filterMap BookTickerRow.tick = ticksOf repeatedLog := by
    rw [htopic, htable]
    decide +kernel
  have horderly : Orderly repeatedLog := by decide +kernel
  obtain ⟨osys, hreach', hlog', bar, hbar, _⟩ := reaches_bar (Relation.ReflTransGen.refl
    (a := System.fresh (ohlcvJob fun _ => ()) repeatedLog)) horderly (by decide +kernel)
    (show ⟨"binance", "btcusdt", some 1704067200000000, some (201 / 2), some 1⟩
      ∈ pricedTicks repeatedLog by decide +kernel) (possible_fresh (by decide +kernel))
  have hpartition : ∀ a ∈ twoRecords, a.partition = 0 := by decide +kernel
  obtain ⟨_, bars, hquery, hperm⟩ := extremes_survive_restarts (fun _ => "") hreach (fun _ => 0)
    (fun a ha key _ => hpartition a (hlog ▸ ha)) (hlog ▸ hend) hprepared (fun _ => ()) hreach'
    (.of_eq (hlog' ▸ hticks)) (hlog' ▸ horderly.butRepeats)
  refine ⟨sys, osys, bars, ?_, ?_, List.ne_nil_of_mem hbar, .of_eq (hlog' ▸ hticks), hquery,
    hperm.subperm.trans (List.filter_sublist.map _).subperm⟩
  · rw [htable]
    decide +kernel
  · rw [htopic, htable]
    decide +kernel

end Ticksense
