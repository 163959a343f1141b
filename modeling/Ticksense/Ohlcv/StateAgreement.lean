import Mathlib.Data.Int.ConditionallyCompleteOrder
import Ticksense.Ohlcv.Accumulator
import Ticksense.Ohlcv.Agreement

/-!
# The accumulator against the streaming job

`OHLCVState`, updated with the ticks of one window as they arrive, and the row that
`ohlcv_1m/insert.sql` computes from the same ticks.  The ticks may arrive in any order.

* `SameTrades`, `SameVwap`, `SameFirstTs`, `SameLastTs` — the fields, compared.
* `accumulator_agrees` — the fields that are always the same, and what the others need.
* `accumulator_disagrees` — the others are not always the same.
-/

namespace Ticksense

/-- A timestamp of the queries in milliseconds. -/
def msOf (ts : ℤ) : ℤ := ts / 1000

/-- What the accumulator gets from a row. -/
def BookTick.priceTick (tick : BookTick) : PriceTick := ⟨tick.mid, tick.qty, msOf tick.eventTs⟩

/-- Ticks of one window as they arrive, with a price and a quantity that is not negative. -/
structure Arrivals (key : WindowKey) (ticks : List BookTick) : Prop where
  key : ∀ tick ∈ ticks, tick.windowKey = key
  timed : ∀ tick ∈ ticks, tick.exchangeEventTs ≠ none
  priced : ∀ tick ∈ ticks, tick.midPrice ≠ none
  qty : ∀ tick ∈ ticks, ∃ qty, tick.bestBidQty = some qty ∧ 0 ≤ qty

/-! ## State and row -/

/-- Open, high, low, close, volume and tick count. -/
structure SameTrades (state : OHLCVState) (bar : StreamBar) : Prop where
  openPrice : bar.openPrice.map .fin = some state.openPrice
  highPrice : bar.highPrice.map .fin = some state.highPrice
  lowPrice : bar.lowPrice.map .fin = some state.lowPrice
  closePrice : bar.closePrice.map .fin = some state.closePrice
  volume : bar.volume.map .fin = some state.volume
  tickCount : bar.tickCount = state.tickCount

def SameVwap (state : OHLCVState) (bar : StreamBar) : Prop :=
  ∃ vwap, state.vwap = .ok (.fin vwap) ∧ bar.vwap = some vwap

def SameFirstTs (state : OHLCVState) (bar : StreamBar) : Prop :=
  bar.firstTs.map msOf = some state.firstTsMs

def SameLastTs (state : OHLCVState) (bar : StreamBar) : Prop :=
  bar.lastTs.map msOf = some state.lastTsMs

/-- All fields. -/
def SameBar (state : OHLCVState) (bar : StreamBar) : Prop :=
  SameTrades state bar ∧ SameVwap state bar ∧ SameFirstTs state bar ∧ SameLastTs state bar

section Window

variable {key : WindowKey} {ticks : List BookTick}

lemma priceTicks_mid : (ticks.map BookTick.priceTick).map (·.midPrice) = ticks.map BookTick.mid :=
  List.map_map

lemma priceTicks_qty : (ticks.map BookTick.priceTick).map (·.bidQty) = ticks.map BookTick.qty :=
  List.map_map

lemma priceTicks_weighted :
    ((ticks.map BookTick.priceTick).map fun tick => tick.midPrice * tick.bidQty) =
      ticks.map fun tick => tick.mid * tick.qty :=
  List.map_map

lemma priceTicks_ts :
    (ticks.map BookTick.priceTick).map (·.tsMs) = (ticks.map BookTick.eventTs).map msOf := by
  rw [List.map_map, List.map_map]
  rfl

lemma map_exchangeEventTs (h : ∀ tick ∈ ticks, tick.exchangeEventTs ≠ none) :
    ticks.map (·.exchangeEventTs) = (ticks.map BookTick.eventTs).map some := by
  rw [List.map_map]
  refine List.map_congr_left fun tick htick => ?_
  cases hts : tick.exchangeEventTs with
  | none => exact absurd hts (h tick htick)
  | some ts => simp [BookTick.eventTs, hts]

lemma summarizes_priceTicks (hne : ticks ≠ []) :
    Summarizes (ticks.map BookTick.priceTick) (accumulate (ticks.map BookTick.priceTick)) :=
  summarizes_accumulate (by simpa using hne)

/-- **The prices, the volume and the count are the same.** -/
lemma sameTrades (h : Arrivals key ticks) (hne : ticks ≠ []) :
    SameTrades (accumulate (ticks.map BookTick.priceTick)) (streamBar key ticks) := by
  have hsum := summarizes_priceTicks hne
  refine ⟨?_, ?_, ?_, ?_, ?_, ?_⟩
  · rw [streamBar, map_midPrice h.priced, Sql.firstValue_map_some, ← hsum.openPrice, priceTicks_mid]
  · rw [streamBar, map_midPrice h.priced, Sql.max_map_some, ← hsum.highPrice, priceTicks_mid]
  · rw [streamBar, map_midPrice h.priced, Sql.min_map_some, ← hsum.lowPrice, priceTicks_mid]
  · rw [streamBar, map_midPrice h.priced, Sql.lastValue_map_some, ← hsum.closePrice, priceTicks_mid]
  · rw [streamBar, sum_qty_column hne, hsum.volume, priceTicks_qty]
    rfl
  · rw [streamBar, hsum.tickCount, List.length_map]

/-- **With volume, the weighted prices are the same.** -/
lemma sameVwap_of_pos (h : Arrivals key ticks) (hne : ticks ≠ [])
    (hpos : 0 < (ticks.map BookTick.qty).sum) :
    SameVwap (accumulate (ticks.map BookTick.priceTick)) (streamBar key ticks) := by
  have hsum := summarizes_priceTicks hne
  refine ⟨_, ?_, streamVwap_of_pos h.priced hne hpos⟩
  rw [OHLCVState.vwap, hsum.volume, hsum.vwapNumerator, priceTicks_qty, priceTicks_weighted,
    PyFloat.lt_fin, if_pos (decide_eq_true hpos), PyFloat.div_fin _ hpos.ne']

/-- Without, the state has the last price. -/
lemma stateVwap_of_zero (hne : ticks ≠ []) (hzero : (ticks.map BookTick.qty).sum = 0) :
    (accumulate (ticks.map BookTick.priceTick)).vwap =
      .ok (accumulate (ticks.map BookTick.priceTick)).closePrice := by
  rw [OHLCVState.vwap, (summarizes_priceTicks hne).volume, priceTicks_qty, hzero, PyFloat.lt_fin,
    if_neg (by simp)]

lemma monotone_msOf : Monotone msOf := fun _ _ h => Int.ediv_le_ediv (by norm_num) h

/-- **The first timestamp is the same** if no tick is older than the first to arrive. -/
lemma sameFirstTs_of_first (h : Arrivals key ticks) (hne : ticks ≠ [])
    (hfirst : ∀ tick ∈ ticks, (ticks.head hne).eventTs ≤ tick.eventTs) :
    SameFirstTs (accumulate (ticks.map BookTick.priceTick)) (streamBar key ticks) := by
  have hsum := (summarizes_priceTicks hne).firstTsMs
  have hhead : (ticks.map BookTick.eventTs).head? = some (ticks.head hne).eventTs := by
    rw [List.head?_map, List.head?_eq_some_head hne]
    rfl
  have hmin : (ticks.map BookTick.eventTs).min? = some (ticks.head hne).eventTs := by
    refine List.min?_eq_some_iff.mpr ⟨List.mem_map_of_mem (List.head_mem hne), fun ts hts => ?_⟩
    obtain ⟨tick, htick, rfl⟩ := List.mem_map.mp hts
    exact hfirst tick htick
  rw [priceTicks_ts, List.head?_map, hhead] at hsum
  rw [SameFirstTs, ← hsum, streamBar, map_exchangeEventTs h.timed, Sql.min_map_some, hmin]

/-- No tick of a window is before it. -/
lemma windowStart_le (h : Arrivals key ticks) {tick : BookTick} (htick : tick ∈ ticks) :
    key.2.2 ≤ tick.eventTs := by
  rw [← h.key tick htick, BookTick.windowKey, truncMinute, minuteMicros]
  have := Int.emod_nonneg tick.eventTs (show (60 * 1000 * 1000 : ℤ) ≠ 0 by norm_num)
  simp only
  omega

/-- **The last timestamp is the same** in a window that is not before 1970. -/
lemma sameLastTs_of_nonneg (h : Arrivals key ticks) (hne : ticks ≠ []) (hkey : 0 ≤ key.2.2) :
    SameLastTs (accumulate (ticks.map BookTick.priceTick)) (streamBar key ticks) := by
  have hts : ∀ tick ∈ ticks.map BookTick.priceTick, 0 ≤ tick.tsMs := by
    intro priceTick hmem
    obtain ⟨tick, htick, rfl⟩ := List.mem_map.mp hmem
    exact Int.ediv_nonneg (hkey.trans (windowStart_le h htick)) (by norm_num)
  have hlast := (summarizes_priceTicks hne).last hts
  rw [priceTicks_ts] at hlast
  obtain ⟨last, hmax⟩ : ∃ last, (ticks.map BookTick.eventTs).max? = some last := by
    refine Option.ne_none_iff_exists'.mp fun hnone => hne ?_
    simpa using hnone
  rw [SameLastTs, ← hlast, RunningStats.max?_map monotone_msOf hmax, streamBar,
    map_exchangeEventTs h.timed, Sql.max_map_some, hmax]
  rfl

end Window

/-- **What accumulator and query agree on.**  The prices, the volume and the count are always the
same.  The weighted price is the same if anything was bid; otherwise the accumulator has the last
price and the query the average.  The first timestamp is the same if no tick is older than the first
to arrive, the last one if the window is not before 1970. -/
theorem accumulator_agrees (key : WindowKey) (ticks : List BookTick) (hne : ticks ≠ [])
    (h : Arrivals key ticks) :
    ∃ bar, streamQuery ticks = some [bar] ∧
      SameTrades (accumulate (ticks.map BookTick.priceTick)) bar ∧
      (0 < (ticks.map BookTick.qty).sum →
        SameVwap (accumulate (ticks.map BookTick.priceTick)) bar) ∧
      ((ticks.map BookTick.qty).sum = 0 →
        (accumulate (ticks.map BookTick.priceTick)).vwap =
            .ok (accumulate (ticks.map BookTick.priceTick)).closePrice ∧
          bar.vwap = some ((ticks.map BookTick.mid).sum / (ticks.length : ℚ))) ∧
      ((∀ tick ∈ ticks, (ticks.head hne).eventTs ≤ tick.eventTs) →
        SameFirstTs (accumulate (ticks.map BookTick.priceTick)) bar) ∧
      (0 ≤ key.2.2 → SameLastTs (accumulate (ticks.map BookTick.priceTick)) bar) := by
  refine ⟨streamBar key ticks, streamQuery_of_window h.key h.timed h.priced hne, sameTrades h hne,
    sameVwap_of_pos h hne, fun hzero => ⟨stateVwap_of_zero hne hzero, ?_⟩,
    sameFirstTs_of_first h hne, sameLastTs_of_nonneg h hne⟩
  exact streamVwap_of_not_pos h.priced hne hzero.not_gt

lemma arrivals_twoTicks {first second : ℚ} (hfirst : 0 ≤ first) (hsecond : 0 ≤ second) :
    Arrivals ("binance", "btcusdt", startOfDay 0 19724) (twoTicks first second) := by
  have h := oneWindow_twoTicks first second hfirst hsecond
  refine ⟨h.key, by simp [twoTicks, sampleTick], h.priced, fun tick htick => ?_⟩
  rcases List.mem_pair.mp htick with rfl | rfl
  · exact ⟨first, rfl, hfirst⟩
  · exact ⟨second, rfl, hsecond⟩

theorem accumulator_agrees_sample :
    ∃ bar, streamQuery (twoTicks 1 3) = some [bar] ∧
      SameBar (accumulate ((twoTicks 1 3).map BookTick.priceTick)) bar := by
  obtain ⟨bar, hbar, htrades, hvwap, -, hfirst, hlast⟩ := accumulator_agrees
    ("binance", "btcusdt", startOfDay 0 19724) (twoTicks 1 3) (by simp [twoTicks])
    (arrivals_twoTicks (by norm_num) (by norm_num))
  refine ⟨bar, hbar, htrades, hvwap ?_, hfirst ?_, hlast ?_⟩
  · decide +kernel
  · decide
  · decide

/-! ## Where they differ -/

/-- A comparison that holds for all ticks of all windows. -/
def AlwaysSame (Same : OHLCVState → StreamBar → Prop) : Prop :=
  ∀ key ticks, ticks ≠ [] → Arrivals key ticks → ∃ bar, streamQuery ticks = some [bar] ∧
    Same (accumulate (ticks.map BookTick.priceTick)) bar

/-- One window is enough to see a difference. -/
lemma not_alwaysSame {Same : OHLCVState → StreamBar → Prop} {key : WindowKey}
    {ticks : List BookTick} (hne : ticks ≠ []) (h : Arrivals key ticks)
    (hdiffer : ¬ Same (accumulate (ticks.map BookTick.priceTick)) (streamBar key ticks)) :
    ¬ AlwaysSame Same := by
  intro hsame
  obtain ⟨bar, hbar, hsame⟩ := hsame key ticks hne h
  rw [streamQuery_of_window h.key h.timed h.priced hne, Option.some.injEq, List.singleton_inj]
    at hbar
  exact hdiffer (hbar ▸ hsame)

/-- Ticks may arrive in another order. -/
lemma Arrivals.reverse {key : WindowKey} {ticks : List BookTick} (h : Arrivals key ticks) :
    Arrivals key ticks.reverse :=
  ⟨fun tick htick => h.key tick (List.mem_reverse.mp htick),
    fun tick htick => h.timed tick (List.mem_reverse.mp htick),
    fun tick htick => h.priced tick (List.mem_reverse.mp htick),
    fun tick htick => h.qty tick (List.mem_reverse.mp htick)⟩

/-- Without quantity, ticks at 100 and 200 have the weighted price 200 in the accumulator and 150 in
the query. -/
lemma vwap_differs : ¬ AlwaysSame SameVwap := by
  have hne : twoTicks 0 0 ≠ [] := List.cons_ne_nil _ _
  have harrivals := arrivals_twoTicks (le_refl 0) (le_refl 0)
  refine not_alwaysSame hne harrivals ?_
  rintro ⟨vwap, hstate, hbar⟩
  have hclose : (accumulate ((twoTicks 0 0).map BookTick.priceTick)).closePrice = .fin 200 := rfl
  rw [stateVwap_of_zero hne (by decide +kernel), hclose, Except.ok.injEq, PyFloat.fin.injEq]
    at hstate
  rw [streamVwap_of_not_pos harrivals.priced hne (by decide +kernel), Option.some.injEq] at hbar
  revert hbar
  rw [← hstate]
  decide +kernel

/-- Of ticks that arrive in reverse the accumulator keeps the later timestamp as the first. -/
lemma firstTs_differs : ¬ AlwaysSame SameFirstTs := by
  refine not_alwaysSame (by simp [twoTicks])
    (arrivals_twoTicks (zero_le_one (α := ℚ)) (zero_le_one (α := ℚ))).reverse ?_
  rw [SameFirstTs]
  decide

/-- A tick one second before 1970. -/
def earlyTick : BookTick := { sampleTick with exchangeEventTs := some (-1000 * 1000) }

/-- Before 1970 the last timestamp of the accumulator stays at the epoch. -/
lemma lastTs_differs : ¬ AlwaysSame SameLastTs := by
  have harrivals : Arrivals earlyTick.windowKey [earlyTick] := by
    refine ⟨?_, ?_, ?_, ?_⟩ <;> intro tick htick <;> rw [List.mem_singleton.mp htick]
    · decide
    · decide
    · exact ⟨1, rfl, zero_le_one⟩
  refine not_alwaysSame (List.cons_ne_nil _ _) harrivals ?_
  rw [SameLastTs]
  decide

/-- **The differences**: each of the three fields may differ. -/
theorem accumulator_disagrees :
    ¬ AlwaysSame SameBar ∧ ¬ AlwaysSame SameVwap ∧ ¬ AlwaysSame SameFirstTs ∧
      ¬ AlwaysSame SameLastTs := by
  refine ⟨fun h => vwap_differs fun key ticks hne harrivals => ?_, vwap_differs, firstTs_differs,
    lastTs_differs⟩
  obtain ⟨bar, hbar, -, hsame, -⟩ := h key ticks hne harrivals
  exact ⟨bar, hbar, hsame⟩

end Ticksense
