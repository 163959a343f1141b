import Mathlib.Algebra.BigOperators.Group.List.Basic
import Mathlib.Algebra.Order.BigOperators.Group.List
import Mathlib.Tactic.NormNum
import Ticksense.Ohlcv.Backfill

/-!
# The backfill against the streaming job

Both queries on the ticks of one window, in arrival order.

* `first_of_increasing`, `last_of_increasing` — with increasing event times the tick ranked first is
  the first to arrive, and the one ranked last the last.
* `shared_agree` — open, high, low, close and count are the same in both bars.
* `vwap_agrees_iff` — the volume-weighted price is the same if and only if the weights do not
  matter: the backfill takes the plain average.
* `backfill_agrees_iff` — the two queries on a window.
-/

namespace Ticksense

/-! ## Ticks in order -/

section Ranking

variable {ticks : List BookTick}

lemma eventTs_lt (h : (ticks.map BookTick.eventTs).Pairwise (· < ·)) {i j : Fin ticks.length}
    (hij : i < j) : (ticks.get i).eventTs < (ticks.get j).eventTs :=
  List.pairwise_iff_get.mp (List.pairwise_map.mp h) i j hij

/-- The tick ranked first arrived first. -/
lemma first_of_increasing (h : (ticks.map BookTick.eventTs).Pairwise (· < ·))
    (rn : Sql.RowNumber (fun a b => a.eventTs ≤ b.eventTs) ticks) (hpos : 0 < ticks.length) :
    rn.first hpos = ⟨0, hpos⟩ := by
  by_contra hne
  have hlt : (⟨0, hpos⟩ : Fin ticks.length) < rn.first hpos := by
    rw [Fin.lt_def]
    have : (rn.first hpos : ℕ) ≠ 0 := fun hzero => hne (Fin.ext hzero)
    simp only
    omega
  have hle := rn.first_le hpos ⟨0, hpos⟩
  have := eventTs_lt h hlt
  omega

/-- The tick ranked last arrived last. -/
lemma last_of_increasing (h : (ticks.map BookTick.eventTs).Pairwise (· < ·))
    (rn : Sql.RowNumber (fun a b => b.eventTs ≤ a.eventTs) ticks) (hpos : 0 < ticks.length) :
    rn.first hpos = ⟨ticks.length - 1, by omega⟩ := by
  by_contra hne
  have hlt : rn.first hpos < (⟨ticks.length - 1, by omega⟩ : Fin ticks.length) := by
    rw [Fin.lt_def]
    have hbound := (rn.first hpos).isLt
    have : (rn.first hpos : ℕ) ≠ ticks.length - 1 := fun hlast => hne (Fin.ext hlast)
    simp only
    omega
  have hle := rn.first_le hpos ⟨ticks.length - 1, by omega⟩
  have := eventTs_lt h hlt
  omega

end Ranking

/-! ## One window -/

/-- Ticks of one window in the range of a backfill, with a price and without negative quantities, in
the order of their event times. -/
structure OneWindow (startTs endTs : ℤ) (key : WindowKey) (ticks : List BookTick) : Prop where
  key : ∀ tick ∈ ticks, tick.windowKey = key
  timed : ∀ tick ∈ ticks, inRange startTs endTs tick = true
  priced : ∀ tick ∈ ticks, tick.midPrice ≠ none
  qty : ∀ tick ∈ ticks, ∀ qty ∈ tick.bestBidQty, 0 ≤ qty
  increasing : (ticks.map BookTick.eventTs).Pairwise (· < ·)

/-- The price of a tick that has one. -/
def BookTick.mid (tick : BookTick) : ℚ := tick.midPrice.getD 0

/-- The columns both bars have, but for the volume-weighted price. -/
structure SharedColumns where
  exchange : String
  symbol : String
  windowStart : ℤ
  windowEnd : ℤ
  openPrice : Option ℚ
  highPrice : Option ℚ
  lowPrice : Option ℚ
  closePrice : Option ℚ
  count : ℕ
deriving DecidableEq

def StreamBar.shared (bar : StreamBar) : SharedColumns :=
  ⟨bar.exchange, bar.symbol, bar.windowStart, bar.windowEnd, bar.openPrice, bar.highPrice,
    bar.lowPrice, bar.closePrice, bar.tickCount⟩

def BackfillBar.shared (bar : BackfillBar) : SharedColumns :=
  ⟨bar.exchange, bar.symbol, bar.windowStart, bar.windowEnd, bar.openPrice, bar.highPrice,
    bar.lowPrice, bar.closePrice, bar.tradeCount⟩

section Window

variable {average : Average} {engine : Engine} {zone now startTs endTs : ℤ} {key : WindowKey}
  {ticks : List BookTick}

lemma midPrice_eq {tick : BookTick} (h : tick.midPrice ≠ none) : tick.midPrice = some tick.mid := by
  cases hmid : tick.midPrice with
  | none => exact absurd hmid h
  | some m => simp [BookTick.mid, hmid]

lemma map_midPrice (h : ∀ tick ∈ ticks, tick.midPrice ≠ none) :
    ticks.map (·.midPrice) = (ticks.map BookTick.mid).map some := by
  rw [List.map_map]
  exact List.map_congr_left fun tick htick => midPrice_eq (h tick htick)

lemma map_weighted (h : ∀ tick ∈ ticks, tick.midPrice ≠ none) :
    (ticks.map fun tick => tick.midPrice.map (· * tick.qty)) =
      (ticks.map fun tick => tick.mid * tick.qty).map some := by
  rw [List.map_map]
  refine List.map_congr_left fun tick htick => ?_
  rw [midPrice_eq (h tick htick)]
  rfl

lemma ranked_midPrice (engine : Engine) (ticks : List BookTick) :
    (ranked engine ticks).map (·.midPrice) = ticks.map (·.midPrice) := by
  rw [ranked, List.map_ofFn]
  exact List.ofFn_getElem_eq_map ticks (·.midPrice)

lemma length_ranked (engine : Engine) (ticks : List BookTick) :
    (ranked engine ticks).length = ticks.length := by
  rw [ranked, List.length_ofFn]

/-- A backfilled bar opens with the tick numbered first. -/
lemma openPrice_eq (hpos : 0 < ticks.length) :
    (backfillBar average engine zone now key ticks).openPrice =
      (ticks.get ((engine.asc ticks).first hpos)).midPrice := by
  simp only [backfillBar, ranked, List.map_ofFn, Function.comp_def]
  exact (engine.asc ticks).max_case_first hpos (·.midPrice)

/-- It closes with the tick numbered first from behind. -/
lemma closePrice_eq (hpos : 0 < ticks.length) :
    (backfillBar average engine zone now key ticks).closePrice =
      (ticks.get ((engine.desc ticks).first hpos)).midPrice := by
  simp only [backfillBar, ranked, List.map_ofFn, Function.comp_def]
  exact (engine.desc ticks).max_case_first hpos (·.midPrice)

/-- **Open, high, low, close and count agree.** -/
lemma shared_agree (engine : Engine) (zone now : ℤ) (h : OneWindow startTs endTs key ticks)
    (hne : ticks ≠ []) :
    (backfillBar exactAverage engine zone now key ticks).shared = (streamBar key ticks).shared := by
  have hpos : 0 < ticks.length := List.length_pos_iff.mpr hne
  have hmid : ∀ i, (ticks.get i).midPrice = some (ticks.get i).mid := by
    intro i
    exact midPrice_eq (h.priced _ (List.get_mem ticks i))
  have hopen : (backfillBar exactAverage engine zone now key ticks).openPrice
      = (streamBar key ticks).openPrice := by
    rw [openPrice_eq hpos, first_of_increasing h.increasing, hmid, streamBar,
      map_midPrice h.priced, Sql.firstValue_map_some]
    simp [List.head?_eq_getElem?, hpos]
  have hclose : (backfillBar exactAverage engine zone now key ticks).closePrice
      = (streamBar key ticks).closePrice := by
    rw [closePrice_eq hpos, last_of_increasing h.increasing, hmid, streamBar,
      map_midPrice h.priced, Sql.lastValue_map_some]
    simp [List.getLast?_eq_getElem?, hpos]
  rw [BackfillBar.shared, StreamBar.shared, hopen, hclose]
  simp only [backfillBar, streamBar, ranked_midPrice, length_ranked]

lemma sum_qty_nonneg (h : OneWindow startTs endTs key ticks) :
    0 ≤ (ticks.map BookTick.qty).sum := by
  refine List.sum_nonneg fun q hq => ?_
  obtain ⟨tick, htick, rfl⟩ := List.mem_map.mp hq
  cases hqty : tick.bestBidQty with
  | none => simp [BookTick.qty, hqty]
  | some q => simpa [BookTick.qty, hqty] using h.qty tick htick q hqty

lemma sum_qty_column (hne : ticks ≠ []) :
    Sql.sum (ticks.map fun tick => some tick.qty) = some (ticks.map BookTick.qty).sum := by
  have hsum : ticks.map BookTick.qty ≠ [] := by simpa using hne
  have := Sql.sum_map_some hsum
  rwa [List.map_map] at this

/-- The streamed price is weighted if anything was bid. -/
lemma streamVwap_of_pos (hpriced : ∀ tick ∈ ticks, tick.midPrice ≠ none) (hne : ticks ≠ [])
    (hpos : 0 < (ticks.map BookTick.qty).sum) :
    (streamBar key ticks).vwap =
      some ((ticks.map fun tick => tick.mid * tick.qty).sum / (ticks.map BookTick.qty).sum) := by
  have hweighted : Sql.sum (ticks.map fun tick => tick.midPrice.map (· * tick.qty)) =
      some (ticks.map fun tick => tick.mid * tick.qty).sum := by
    rw [map_weighted hpriced, Sql.sum_map_some (by simpa using hne)]
  simp only [streamBar, sum_qty_column hne, hweighted, Option.any_some, decide_eq_true_eq,
    if_pos hpos, Option.map₂_some_some]

/-- Otherwise it is the plain average. -/
lemma streamVwap_of_not_pos (hpriced : ∀ tick ∈ ticks, tick.midPrice ≠ none) (hne : ticks ≠ [])
    (hpos : ¬ 0 < (ticks.map BookTick.qty).sum) :
    (streamBar key ticks).vwap = some ((ticks.map BookTick.mid).sum / (ticks.length : ℚ)) := by
  simp only [streamBar, sum_qty_column hne, Option.any_some, decide_eq_true_eq, if_neg hpos]
  rw [map_midPrice hpriced, Sql.avg_map_some (by simpa using hne), List.length_map]

/-- Without rounding, the backfill writes the plain average, in whatever order it adds. -/
lemma backfillVwap_eq (hpriced : ∀ tick ∈ ticks, tick.midPrice ≠ none) (hne : ticks ≠ []) :
    (backfillBar exactAverage engine zone now key ticks).vwap =
      some ((ticks.map BookTick.mid).sum / (ticks.length : ℚ)) := by
  have hmids : ticks.filterMap (·.midPrice) = ticks.map BookTick.mid := by
    rw [← List.filterMap_eq_map]
    exact List.filterMap_congr fun tick htick => midPrice_eq (hpriced tick htick)
  have hperm : ((engine.asc ticks).inOrder.filterMap (·.midPrice)).Perm (ticks.map BookTick.mid) :=
    hmids ▸ (engine.asc ticks).inOrder_perm.filterMap _
  have hlength := hperm.length_eq
  rw [List.length_map] at hlength
  have hsome : (engine.asc ticks).inOrder.filterMap (·.midPrice) ≠ [] := by
    rw [← List.length_pos_iff, hlength]
    exact List.length_pos_iff.mpr hne
  rw [backfillBar, exactAverage, Sql.avg_map_some hsome, hperm.sum_eq, hlength]

/-- **When the volume-weighted prices agree**: nothing was bid, or weighting makes no difference. -/
lemma vwap_agrees_iff (h : OneWindow startTs endTs key ticks) (hne : ticks ≠ []) :
    (backfillBar exactAverage engine zone now key ticks).vwap = (streamBar key ticks).vwap ↔
      (ticks.map BookTick.qty).sum = 0 ∨
        (ticks.length : ℚ) * (ticks.map fun tick => tick.mid * tick.qty).sum =
          (ticks.map BookTick.mid).sum * (ticks.map BookTick.qty).sum := by
  have hlength : (ticks.length : ℚ) ≠ 0 := by
    simpa using hne
  rw [backfillVwap_eq h.priced hne]
  by_cases hpos : 0 < (ticks.map BookTick.qty).sum
  · rw [streamVwap_of_pos h.priced hne hpos, Option.some.injEq, div_eq_div_iff hlength hpos.ne']
    constructor
    · intro heq
      refine Or.inr ?_
      rw [heq, mul_comm]
    · rintro (hzero | heq)
      · exact absurd hzero hpos.ne'
      · rw [← heq, mul_comm]
  · have hzero : (ticks.map BookTick.qty).sum = 0 :=
      le_antisymm (not_lt.mp hpos) (sum_qty_nonneg h)
    rw [streamVwap_of_not_pos h.priced hne hpos]
    constructor
    · intro _
      exact Or.inl hzero
    · intro _
      rfl

/-- The streaming job makes one bar of a window. -/
lemma streamQuery_of_window (hkey : ∀ tick ∈ ticks, tick.windowKey = key)
    (htimed : ∀ tick ∈ ticks, tick.exchangeEventTs ≠ none)
    (hpriced : ∀ tick ∈ ticks, tick.midPrice ≠ none) (hne : ticks ≠ []) :
    streamQuery ticks = some [streamBar key ticks] := by
  have hall : ticks.filter (·.midPrice.isSome) = ticks :=
    List.filter_eq_self.mpr fun tick htick => Option.isSome_iff_ne_none.mpr (hpriced tick htick)
  have hnone : ticks.any (·.exchangeEventTs.isNone) = false := by
    refine List.any_eq_false.mpr fun tick htick => ?_
    rw [Option.isNone_iff_eq_none]
    exact htimed tick htick
  rw [streamQuery, hnone, hall, Sql.groupBy_of_forall hkey hne]
  rfl

/-- Each query makes one bar of the window. -/
lemma queries_of_window (engine : Engine) (zone now : ℤ) (h : OneWindow startTs endTs key ticks)
    (hne : ticks ≠ []) :
    backfillQuery exactAverage engine zone now startTs endTs ticks =
        [backfillBar exactAverage engine zone now key ticks] ∧
      streamQuery ticks = some [streamBar key ticks] := by
  have hrange : ticks.filter (inRange startTs endTs) = ticks := List.filter_eq_self.mpr h.timed
  have htimed : ∀ tick ∈ ticks, tick.exchangeEventTs ≠ none := by
    intro tick htick hts
    have hin := h.timed tick htick
    simp [inRange, hts] at hin
  refine ⟨?_, streamQuery_of_window h.key htimed h.priced hne⟩
  rw [backfillQuery, hrange, Sql.groupBy_of_forall h.key hne]
  rfl

end Window

/-- **When the backfill agrees with the streaming job.**  On the ticks of one window both queries
make the same bars up to the volume-weighted price, and the same bars if and only if nothing was bid
or the weighted average of the prices is their average. -/
theorem backfill_agrees_iff (engine : Engine) (zone now startTs endTs : ℤ) (key : WindowKey)
    (ticks : List BookTick) (h : OneWindow startTs endTs key ticks) :
    ∃ streamed, streamQuery ticks = some streamed ∧
      (backfillQuery exactAverage engine zone now startTs endTs ticks).map BackfillBar.shared =
        streamed.map StreamBar.shared ∧
      ((backfillQuery exactAverage engine zone now startTs endTs ticks).map
            (fun bar => (bar.shared, bar.vwap)) =
          streamed.map (fun bar => (bar.shared, bar.vwap)) ↔
        (ticks.map BookTick.qty).sum = 0 ∨
          (ticks.length : ℚ) * (ticks.map fun tick => tick.mid * tick.qty).sum =
            (ticks.map BookTick.mid).sum * (ticks.map BookTick.qty).sum) := by
  by_cases hne : ticks = []
  · subst hne
    exact ⟨[], rfl, rfl, fun _ => Or.inl rfl, fun _ => rfl⟩
  · rcases queries_of_window engine zone now h hne with ⟨hbackfill, hstream⟩
    have hshared := shared_agree engine zone now h hne
    refine ⟨_, hstream, ?_, ?_⟩
    · rw [hbackfill, List.map_singleton, List.map_singleton, hshared]
    · rw [hbackfill, List.map_singleton, List.map_singleton, hshared, List.singleton_inj,
        Prod.mk.injEq, eq_self, true_and]
      exact vwap_agrees_iff h hne

/-! ## Two ticks -/

/-- Two ticks of the first minute of 2024-01-02, at 100 and at 200, with the given quantities. -/
def twoTicks (first second : ℚ) : List BookTick :=
  [{ sampleTick with bestBidQty := some first },
    { sampleTick with
      exchangeEventTs := some (startOfDay 0 19724 + 1000)
      midPrice := some 200
      bestBidQty := some second }]

lemma oneWindow_twoTicks (first second : ℚ) (hfirst : 0 ≤ first) (hsecond : 0 ≤ second) :
    OneWindow (startOfDay 0 19724) (startOfDay 0 19725) ("binance", "btcusdt", startOfDay 0 19724)
      (twoTicks first second) := by
  have hboth : ∀ {P : BookTick → Prop}, P { sampleTick with bestBidQty := some first } →
      P { sampleTick with
        exchangeEventTs := some (startOfDay 0 19724 + 1000)
        midPrice := some 200
        bestBidQty := some second } → ∀ tick ∈ twoTicks first second, P tick := by
    intro P h₁ h₂ tick htick
    rcases List.mem_pair.mp htick with rfl | rfl
    · exact h₁
    · exact h₂
  refine ⟨hboth rfl rfl, hboth rfl rfl, hboth (by simp [sampleTick]) (by simp), hboth ?_ ?_, ?_⟩
  · intro q hq
    exact Option.some.inj hq ▸ hfirst
  · intro q hq
    exact Option.some.inj hq ▸ hsecond
  · simp [twoTicks, BookTick.eventTs, sampleTick]

theorem backfill_agrees_iff_sample :
    ∃ streamed, streamQuery (twoTicks 2 2) = some streamed ∧
      (backfillQuery exactAverage sortingEngine 0 0 (startOfDay 0 19724) (startOfDay 0 19725)
          (twoTicks 2 2)).map (fun bar => (bar.shared, bar.vwap)) =
        streamed.map (fun bar => (bar.shared, bar.vwap)) := by
  rcases backfill_agrees_iff sortingEngine 0 0 (startOfDay 0 19724) (startOfDay 0 19725)
    ("binance", "btcusdt", startOfDay 0 19724) (twoTicks 2 2)
    (oneWindow_twoTicks 2 2 (by norm_num) (by norm_num)) with ⟨streamed, hstream, _, hiff⟩
  refine ⟨streamed, hstream, hiff.mpr (Or.inr ?_)⟩
  decide +kernel

/-- **The backfill changes the price.**  One unit at 100 and three at 200 have a volume-weighted
price of 175; the backfill writes 150. -/
theorem backfill_is_not_weighted :
    ¬ ∀ (engine : Engine) (zone now startTs endTs : ℤ) (key : WindowKey) (ticks : List BookTick)
        (streamed : List StreamBar), OneWindow startTs endTs key ticks →
      streamQuery ticks = some streamed →
      (backfillQuery exactAverage engine zone now startTs endTs ticks).map
          (fun bar => (bar.shared, bar.vwap)) =
        streamed.map (fun bar => (bar.shared, bar.vwap)) := by
  intro h
  have hwindow := oneWindow_twoTicks 1 3 (by norm_num) (by norm_num)
  have hne : twoTicks 1 3 ≠ [] := by simp [twoTicks]
  rcases queries_of_window sortingEngine 0 0 hwindow hne with ⟨hbackfill, hstream⟩
  have heq := h sortingEngine 0 0 _ _ _ _ _ hwindow hstream
  rw [hbackfill, List.map_singleton, List.map_singleton, List.singleton_inj, Prod.mk.injEq] at heq
  rcases (vwap_agrees_iff hwindow hne).mp heq.2 with hzero | hmeans
  · exact absurd hzero (by decide +kernel)
  · exact absurd hmeans (by decide +kernel)

end Ticksense
