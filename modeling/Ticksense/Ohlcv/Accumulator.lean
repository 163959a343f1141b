import Mathlib.Data.List.Induction
import Ticksense.Lib.RunningStats
import Ticksense.Python.Float

/-!
# The OHLCV accumulator

`OHLCVState` of `flink/jobs/flink_lib/logic.py`: the bar of a window, updated tick by tick.

* `OHLCVState.update`, `OHLCVState.vwap` — the models, on floats.
* `Summarizes` — what the fields of a state say about the ticks it has seen.  One update extends it
  by the tick (`Summarizes.update`), so it holds after any run (`summarizes_accumulate`).
* `ohlcv_invariant` — the order of the prices, with the volume-weighted price between the extremes.
-/

namespace Ticksense

/-- `OHLCVState` -/
structure OHLCVState where
  openPrice : PyFloat := .fin 0
  highPrice : PyFloat := .negInf
  lowPrice : PyFloat := .posInf
  closePrice : PyFloat := .fin 0
  volume : PyFloat := .fin 0
  vwapNumerator : PyFloat := .fin 0
  tickCount : ℕ := 0
  firstTsMs : ℤ := 0
  lastTsMs : ℤ := 0
deriving DecidableEq

namespace OHLCVState

/-- `update` -/
def update (state : OHLCVState) (midPrice bidQty : PyFloat) (tsMs : ℤ) : OHLCVState where
  openPrice := if state.tickCount = 0 then midPrice else state.openPrice
  firstTsMs := if state.tickCount = 0 then tsMs else state.firstTsMs
  highPrice := state.highPrice.maxOf midPrice
  lowPrice := state.lowPrice.minOf midPrice
  closePrice := midPrice
  volume := state.volume.add bidQty
  vwapNumerator := state.vwapNumerator.add (midPrice.mul bidQty)
  tickCount := state.tickCount + 1
  lastTsMs := max state.lastTsMs tsMs

/-- `vwap` -/
def vwap (state : OHLCVState) : Except PyError PyFloat :=
  if (PyFloat.fin 0).lt state.volume then state.vwapNumerator.div state.volume
  else .ok state.closePrice

/-- `from_tick` -/
def fromTick (midPrice bidQty : PyFloat) (tsMs : ℤ) : OHLCVState :=
  ({} : OHLCVState).update midPrice bidQty tsMs

end OHLCVState

/-- A tick, with exact numbers. -/
structure PriceTick where
  midPrice : ℚ
  bidQty : ℚ
  tsMs : ℤ
deriving DecidableEq

def OHLCVState.apply (state : OHLCVState) (tick : PriceTick) : OHLCVState :=
  state.update (.fin tick.midPrice) (.fin tick.bidQty) tick.tsMs

/-- A fresh state after some ticks. -/
def accumulate (ticks : List PriceTick) : OHLCVState := ticks.foldl OHLCVState.apply {}

/-! ## What a state knows -/

/-- The state has seen these ticks, in this order. -/
structure Summarizes (ticks : List PriceTick) (state : OHLCVState) : Prop where
  openPrice : (ticks.map (·.midPrice)).head?.map .fin = some state.openPrice
  highPrice : (ticks.map (·.midPrice)).max?.map .fin = some state.highPrice
  lowPrice : (ticks.map (·.midPrice)).min?.map .fin = some state.lowPrice
  closePrice : (ticks.map (·.midPrice)).getLast?.map .fin = some state.closePrice
  volume : state.volume = .fin (ticks.map (·.bidQty)).sum
  vwapNumerator : state.vwapNumerator = .fin (ticks.map fun tick => tick.midPrice * tick.bidQty).sum
  tickCount : state.tickCount = ticks.length
  firstTsMs : (ticks.map (·.tsMs)).head? = some state.firstTsMs
  -- the fresh state counts as a tick at the epoch
  lastTsMs : (0 :: ticks.map (·.tsMs)).max? = some state.lastTsMs

section Runs

variable {ticks : List PriceTick} {state : OHLCVState}

lemma accumulate_concat (ticks : List PriceTick) (tick : PriceTick) :
    accumulate (ticks ++ [tick]) = (accumulate ticks).apply tick := List.foldl_concat _ _ _ _

/-- **The first tick.** -/
lemma summarizes_fromTick (tick : PriceTick) :
    Summarizes [tick] (OHLCVState.fromTick (.fin tick.midPrice) (.fin tick.bidQty) tick.tsMs) where
  openPrice := rfl
  highPrice := rfl
  lowPrice := rfl
  closePrice := rfl
  volume := by simp [OHLCVState.fromTick, OHLCVState.update]
  vwapNumerator := by simp [OHLCVState.fromTick, OHLCVState.update]
  tickCount := rfl
  firstTsMs := rfl
  lastTsMs := rfl

/-- **One update**: the state has seen one more tick. -/
lemma Summarizes.update (h : Summarizes ticks state) (tick : PriceTick) :
    Summarizes (ticks ++ [tick]) (state.apply tick) := by
  have hne : ticks ≠ [] := by
    rintro rfl
    cases h.openPrice
  have hcount : state.tickCount ≠ 0 := by
    rw [h.tickCount]
    exact (List.length_pos_iff.mpr hne).ne'
  obtain ⟨high, hhigh, hhighPrice⟩ := Option.map_eq_some_iff.mp h.highPrice
  obtain ⟨low, hlow, hlowPrice⟩ := Option.map_eq_some_iff.mp h.lowPrice
  refine ⟨?_, ?_, ?_, ?_, ?_, ?_, ?_, ?_, ?_⟩ <;>
    simp only [OHLCVState.apply, OHLCVState.update, List.map_append, List.map_cons, List.map_nil,
      if_neg hcount]
  · rw [List.head?_append_of_ne_nil _ (by simpa using hne)]
    exact h.openPrice
  · rw [RunningStats.max?_concat hhigh, ← hhighPrice, PyFloat.maxOf_fin]
    rfl
  · rw [RunningStats.min?_concat hlow, ← hlowPrice, PyFloat.minOf_fin]
    rfl
  · rw [List.getLast?_concat]
    rfl
  · rw [h.volume, PyFloat.add_fin, List.sum_append, List.sum_singleton]
  · rw [h.vwapNumerator, PyFloat.mul_fin, PyFloat.add_fin, List.sum_append, List.sum_singleton]
  · rw [h.tickCount, List.length_append, List.length_singleton]
  · rw [List.head?_append_of_ne_nil _ (by simpa using hne)]
    exact h.firstTsMs
  · rw [← List.cons_append]
    exact RunningStats.max?_concat h.lastTsMs tick.tsMs

/-- **Any run.** -/
theorem summarizes_accumulate (hne : ticks ≠ []) : Summarizes ticks (accumulate ticks) := by
  induction ticks using List.reverseRecOn with
  | nil => exact absurd rfl hne
  | append_singleton ticks tick ih =>
      rw [accumulate_concat]
      by_cases hnil : ticks = []
      · subst hnil
        exact summarizes_fromTick tick
      · exact (ih hnil).update tick

/-! ## The invariant -/

/-- The order of the fields, and where they come from. -/
structure OHLCVInvariant (ticks : List PriceTick) (state : OHLCVState) : Prop where
  prices : ∃ openPrice highPrice lowPrice closePrice vwap : ℚ,
    state.openPrice = .fin openPrice ∧ state.highPrice = .fin highPrice ∧
      state.lowPrice = .fin lowPrice ∧ state.closePrice = .fin closePrice ∧
      state.vwap = .ok (.fin vwap) ∧
      (lowPrice ≤ openPrice ∧ openPrice ≤ highPrice) ∧
      (lowPrice ≤ closePrice ∧ closePrice ≤ highPrice) ∧
      (lowPrice ≤ vwap ∧ vwap ≤ highPrice)
  high_attained : ∃ tick ∈ ticks, state.highPrice = .fin tick.midPrice
  low_attained : ∃ tick ∈ ticks, state.lowPrice = .fin tick.midPrice
  volume : state.volume = .fin (ticks.map (·.bidQty)).sum
  vwapNumerator : state.vwapNumerator = .fin (ticks.map fun tick => tick.midPrice * tick.bidQty).sum
  tickCount : state.tickCount = ticks.length
  first_le_last : state.firstTsMs ≤ state.lastTsMs
  last_attained : ∃ tick ∈ ticks, tick.tsMs = state.lastTsMs
  le_last : ∀ tick ∈ ticks, tick.tsMs ≤ state.lastTsMs

/-- The extremes of the prices are fields of the state. -/
lemma Summarizes.extremes (h : Summarizes ticks state) :
    ∃ low high, state.lowPrice = .fin low ∧ state.highPrice = .fin high ∧
      low ∈ ticks.map (·.midPrice) ∧ high ∈ ticks.map (·.midPrice) ∧
      ∀ tick ∈ ticks, low ≤ tick.midPrice ∧ tick.midPrice ≤ high := by
  obtain ⟨high, hhigh, hhighPrice⟩ := Option.map_eq_some_iff.mp h.highPrice
  obtain ⟨low, hlow, hlowPrice⟩ := Option.map_eq_some_iff.mp h.lowPrice
  obtain ⟨hhighMem, hle⟩ := List.max?_eq_some_iff.mp hhigh
  obtain ⟨hlowMem, hge⟩ := List.min?_eq_some_iff.mp hlow
  refine ⟨low, high, hlowPrice.symm, hhighPrice.symm, hlowMem, hhighMem, fun tick htick => ?_⟩
  exact ⟨hge _ (List.mem_map_of_mem htick), hle _ (List.mem_map_of_mem htick)⟩

/-- Open and close are prices of ticks. -/
lemma Summarizes.ends (h : Summarizes ticks state) :
    (∃ tick ∈ ticks, state.openPrice = .fin tick.midPrice) ∧
      ∃ tick ∈ ticks, state.closePrice = .fin tick.midPrice := by
  obtain ⟨first, hfirst, hopen⟩ := Option.map_eq_some_iff.mp h.openPrice
  obtain ⟨last, hlast, hclose⟩ := Option.map_eq_some_iff.mp h.closePrice
  obtain ⟨tick, htick, rfl⟩ := List.mem_map.mp (List.mem_of_head? hfirst)
  obtain ⟨tick', htick', rfl⟩ := List.mem_map.mp (List.mem_of_getLast? hlast)
  exact ⟨⟨tick, htick, hopen.symm⟩, tick', htick', hclose.symm⟩

/-- **The volume-weighted price** never divides by zero and lies between any bounds of the prices. -/
lemma Summarizes.vwap_between {low high : ℚ} (h : Summarizes ticks state)
    (hqty : ∀ tick ∈ ticks, 0 ≤ tick.bidQty)
    (hbounds : ∀ tick ∈ ticks, low ≤ tick.midPrice ∧ tick.midPrice ≤ high) :
    ∃ vwap, state.vwap = .ok (.fin vwap) ∧ low ≤ vwap ∧ vwap ≤ high := by
  rw [OHLCVState.vwap, h.volume, h.vwapNumerator, PyFloat.lt_fin]
  by_cases hpos : 0 < (ticks.map (·.bidQty)).sum
  · rw [if_pos (decide_eq_true hpos), PyFloat.div_fin _ hpos.ne']
    exact ⟨_, rfl,
      RunningStats.le_weightedMean hqty (fun tick htick => (hbounds tick htick).1) hpos,
      RunningStats.weightedMean_le hqty (fun tick htick => (hbounds tick htick).2) hpos⟩
  · rw [if_neg (by simpa using hpos)]
    obtain ⟨-, tick, htick, hclose⟩ := h.ends
    exact ⟨tick.midPrice, by rw [hclose], hbounds tick htick⟩

/-- The last timestamp, from the epoch on. -/
lemma Summarizes.last (h : Summarizes ticks state) (hts : ∀ tick ∈ ticks, 0 ≤ tick.tsMs) :
    (ticks.map (·.tsMs)).max? = some state.lastTsMs := by
  obtain ⟨hmem, hle⟩ := List.max?_eq_some_iff.mp h.lastTsMs
  refine List.max?_eq_some_iff.mpr ⟨?_, fun ts hts => hle ts (List.mem_cons_of_mem _ hts)⟩
  rcases List.mem_cons.mp hmem with hzero | hmem
  · -- no timestamp is after the epoch, so the first is the epoch
    have hfirst := List.mem_of_head? h.firstTsMs
    obtain ⟨tick, htick, heq⟩ := List.mem_map.mp hfirst
    have hlast := hle _ (List.mem_cons_of_mem _ hfirst)
    have := hts tick htick
    have hepoch : state.lastTsMs = state.firstTsMs := by omega
    rwa [hepoch]
  · exact hmem

end Runs

/-- **The accumulator invariant**, after any non-empty run. -/
theorem ohlcv_invariant (ticks : List PriceTick) (hne : ticks ≠ [])
    (hqty : ∀ tick ∈ ticks, 0 ≤ tick.bidQty) (hts : ∀ tick ∈ ticks, 0 ≤ tick.tsMs) :
    OHLCVInvariant ticks (accumulate ticks) := by
  have h := summarizes_accumulate hne
  obtain ⟨low, high, hlow, hhigh, hlowMem, hhighMem, hbounds⟩ := h.extremes
  obtain ⟨⟨first, hfirst, hopen⟩, last, hlast, hclose⟩ := h.ends
  obtain ⟨vwap, hvwap, hvwapBounds⟩ := h.vwap_between hqty hbounds
  obtain ⟨hlastMem, hle⟩ := List.max?_eq_some_iff.mp (h.last hts)
  refine ⟨?_, ?_, ?_, h.volume, h.vwapNumerator, h.tickCount, ?_, ?_, ?_⟩
  · exact ⟨first.midPrice, high, low, last.midPrice, vwap, hopen, hhigh, hlow, hclose, hvwap,
      hbounds first hfirst, hbounds last hlast, hvwapBounds⟩
  · obtain ⟨tick, htick, rfl⟩ := List.mem_map.mp hhighMem
    exact ⟨tick, htick, hhigh⟩
  · obtain ⟨tick, htick, rfl⟩ := List.mem_map.mp hlowMem
    exact ⟨tick, htick, hlow⟩
  · exact hle _ (List.mem_of_head? h.firstTsMs)
  · exact List.mem_map.mp hlastMem
  · intro tick htick
    exact hle _ (List.mem_map_of_mem htick)

/-- Three ticks out of order, one without quantity. -/
theorem ohlcv_invariant_sample :
    OHLCVInvariant [⟨100, 0, 20⟩, ⟨90, 2, 10⟩, ⟨110, 1, 30⟩]
      (accumulate [⟨100, 0, 20⟩, ⟨90, 2, 10⟩, ⟨110, 1, 30⟩]) :=
  ohlcv_invariant _ (by simp) (by simp) (by simp)

end Ticksense
