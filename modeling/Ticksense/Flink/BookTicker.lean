import Mathlib.Algebra.Order.BigOperators.Group.List
import Mathlib.Algebra.Order.Field.Basic
import Ticksense.Flink.StateCells

/-!
# The book-ticker rows

What holds of the rows that the normalize job writes, over any log of well-formed records at any
times, and of the books it keeps.

* `rows_unique` — the ids of a key's rows increase, so that no two rows have the same exchange,
  symbol and id.  The table declares that and enforces nothing.
* `Book.IsPositive` — no level without a quantity; messages with non-negative quantities keep it.
* `TopLevels` — the best levels of a side, as many as there are up to a number.
* `rows_sound` — every row has the best levels of its book, and an imbalance strictly between 0 and
  1 of the five best.
-/

namespace Ticksense

open VersionedMap

/-! ## One row for an id -/

/-- The key of a row's exchange and symbol. -/
def BookTickerRow.key (render : Json → String) (row : BookTickerRow) : String :=
  format render row.exchange ++ "#" ++ format render row.symbol

/-- The id of a row is above the one stored for its key. -/
def AboveStored (render : Json → String) (s : String → ProcessorState) (row : BookTickerRow) :
    Prop :=
  Fresh (s (row.key render)).lastUpdateId row.lastUpdateId

/-- What a step does to the stored id. -/
lemma lastUpdateId_step (s : ProcessorState) (d : Delivery) :
    (Fresh s.lastUpdateId d.message.lastUpdateId ∧
        (s.step d).1.lastUpdateId = some d.message.lastUpdateId) ∨
      ((s.step d).1.lastUpdateId = s.lastUpdateId ∧ (s.step d).2 = []) := by
  by_cases hfresh : Fresh s.lastUpdateId d.message.lastUpdateId
  · refine Or.inl ⟨hfresh, ?_⟩
    by_cases hlate : d.Late
    · simp [ProcessorState.step, hfresh, hlate]
    · simp [ProcessorState.step, hfresh, hlate]
  · exact Or.inr (by simp [ProcessorState.step, hfresh])

section Step

variable (render : Json → String) (s : String → ProcessorState) (d : Delivery)

/-- A row that is written passed the dedup step, which stored its id. -/
lemma step_row {row : BookTickerRow} (h : row ∈ (normalizeStep s d).2) :
    row.key render = d.message.key ∧ row.lastUpdateId = d.message.lastUpdateId ∧
      Fresh (s d.message.key).lastUpdateId d.message.lastUpdateId ∧
      ((normalizeStep s d).1 d.message.key).lastUpdateId = some d.message.lastUpdateId := by
  rw [normalizeStep_rows] at h
  obtain ⟨q, rfl⟩ := ProcessorState.eq_row_of_mem_step h
  rw [normalizeStep_own]
  rcases lastUpdateId_step (s d.message.key) d with ⟨hfresh, hstored⟩ | ⟨_, hnone⟩
  · exact ⟨rfl, rfl, hfresh, hstored⟩
  · rw [hnone] at h
    cases h

lemma aboveStored_of_step {row : BookTickerRow} (h : row ∈ (normalizeStep s d).2) :
    AboveStored render s row := by
  obtain ⟨hkey, hid, hfresh, _⟩ := step_row render s d h
  rw [AboveStored, hkey, hid]
  exact hfresh

/-- The stored ids never fall. -/
lemma aboveStored_back {row : BookTickerRow}
    (h : AboveStored render (normalizeStep s d).1 row) : AboveStored render s row := by
  rw [AboveStored] at h ⊢
  by_cases hkey : row.key render = d.message.key
  · rw [hkey, normalizeStep_own] at h
    rw [hkey]
    rcases lastUpdateId_step (s d.message.key) d with ⟨hfresh, hstored⟩ | ⟨hsame, _⟩
    · rw [hstored] at h
      intro id hid
      exact lt_trans (hfresh id hid) (h _ rfl)
    · rwa [hsame] at h
  · rwa [normalizeStep_other s hkey] at h

lemma step_rows_pairwise (R : BookTickerRow → BookTickerRow → Prop) :
    (normalizeStep s d).2.Pairwise R := by
  rw [normalizeStep_rows]
  by_cases hfresh : Fresh (s d.message.key).lastUpdateId d.message.lastUpdateId
  · by_cases hlate : d.Late
    · simp [ProcessorState.step, hfresh, hlate]
    · simp only [ProcessorState.step, if_pos hfresh, if_neg hlate]
      cases (((s d.message.key).book.getD Book.empty).apply d.message).quote with
      | none => exact List.Pairwise.nil
      | some q => exact List.pairwise_singleton R _
  · simp [ProcessorState.step, hfresh]

end Step

/-- **No id twice.**  On any log of well-formed records, in any order, with any duplicates and at
any times, the ids of the rows of a key increase strictly; so no two rows share exchange, symbol and
id. -/
theorem rows_unique (render : Json → String) (log : List Delivery) :
    ∃ s rows, normalize render noState (log.map Delivery.element) = .ok (s, rows) ∧
      (rows.Pairwise fun a b => a.key render = b.key render → a.lastUpdateId < b.lastUpdateId) ∧
      (rows.map fun row => (row.exchange, row.symbol, row.lastUpdateId)).Nodup := by
  have hincreasing : (Transducer.runPure normalizeStep noState log).2.Pairwise
      fun a b => a.key render = b.key render → a.lastUpdateId < b.lastUpdateId := by
    refine Transducer.runPure_pairwise (AboveStored render)
      (fun s d row h => aboveStored_of_step render s d h)
      (fun s d row h => aboveStored_back render s d h) (fun s d => step_rows_pairwise s d _) ?_ _ _
    intro s d a ha b hb hkey
    obtain ⟨hkeyA, hid, _, hstored⟩ := step_row render s d ha
    rw [AboveStored, ← hkey, hkeyA, hstored] at hb
    rw [hid]
    exact hb _ rfl
  refine ⟨_, _, normalize_noState render log, hincreasing, ?_⟩
  rw [List.Nodup, List.pairwise_map]
  refine hincreasing.imp ?_
  intro a b hlt hsame
  simp only [Prod.mk.injEq] at hsame
  obtain ⟨hexchange, hsymbol, hid⟩ := hsame
  have hkey : a.key render = b.key render := by
    rw [BookTickerRow.key, BookTickerRow.key, hexchange, hsymbol]
  have := hlt hkey
  omega

/-! ## Levels with a quantity -/

/-- Every level has a number for its price and a positive quantity. -/
def PositiveSide (side : Dict String String) : Prop :=
  ∀ price qty, side.get? price = some qty → Numeric price ∧ Numeric qty ∧ 0 < value qty

structure Book.IsPositive (book : Book) : Prop where
  bids : PositiveSide book.bids
  asks : PositiveSide book.asks

/-- No quantity of the message is negative. -/
def DepthMessage.NonNegative (m : DepthMessage) : Prop :=
  ∀ level ∈ m.bids ++ m.asks, 0 ≤ value level.2

lemma PositiveSide.numeric {side : Dict String String} (h : PositiveSide side) :
    NumericSide side := by
  intro price qty hlevel
  obtain ⟨hprice, hqty, _⟩ := h price qty hlevel
  exact ⟨hprice, hqty⟩

lemma Book.IsPositive.numeric {book : Book} (h : book.IsPositive) : book.IsNumeric :=
  ⟨h.bids.numeric, h.asks.numeric⟩

lemma Book.positive_empty : Book.empty.IsPositive :=
  ⟨by simp [PositiveSide, Book.empty], by simp [PositiveSide, Book.empty]⟩

/-- What a level list writes into a side: a positive quantity, or a removal. -/
lemma positive_of_levelEntries {levels : List (String × String)} (hnumeric : NumericLevels levels)
    (hqty : ∀ level ∈ levels, 0 ≤ value level.2) :
    ∀ e ∈ levelEntries levels, ∀ qty, e.2 = some qty →
      Numeric e.1 ∧ Numeric qty ∧ 0 < value qty := by
  intro e he qty hwritten
  obtain ⟨level, hlevel, rfl⟩ := List.mem_map.mp he
  obtain ⟨hprice, hnum⟩ := hnumeric level hlevel
  have hnonneg := hqty level hlevel
  simp only [levelOrNone, levelOf, hnum.float_eq, PyFloat.isZero_fin] at hwritten
  by_cases hzero : value level.2 = 0
  · simp [hzero] at hwritten
  · simp only [hzero, decide_false, Bool.false_eq_true, if_false,
      Option.some.injEq] at hwritten
    subst hwritten
    exact ⟨hprice, hnum, lt_of_le_of_ne hnonneg (Ne.symm hzero)⟩

/-- **A diff without negative quantities** leaves no level without a quantity. -/
lemma Book.IsPositive.apply {book : Book} (h : book.IsPositive) {m : DepthMessage}
    (hm : m.NonNegative) : (book.apply m).IsPositive := by
  obtain ⟨_, _, hbids, hasks⟩ := h.numeric.apply m
  have hbidQty : ∀ level ∈ m.bids, 0 ≤ value level.2 :=
    fun level hlevel => hm level (List.mem_append_left _ hlevel)
  have haskQty : ∀ level ∈ m.asks, 0 ≤ value level.2 :=
    fun level hlevel => hm level (List.mem_append_right _ hlevel)
  constructor
  · intro price qty hlevel
    rw [hbids] at hlevel
    exact patch_forall (P := fun price qty => Numeric price ∧ Numeric qty ∧ 0 < value qty)
      (positive_of_levelEntries m.numericBids hbidQty) h.bids hlevel
  · intro price qty hlevel
    rw [hasks] at hlevel
    exact patch_forall (P := fun price qty => Numeric price ∧ Numeric qty ∧ 0 < value qty)
      (positive_of_levelEntries m.numericAsks haskQty) h.asks hlevel

/-- All stored books are positive. -/
def PositiveState (s : String → ProcessorState) : Prop :=
  ∀ key, ∀ book ∈ (s key).book, book.IsPositive

lemma positive_step {s : String → ProcessorState} {d : Delivery} (hm : d.message.NonNegative)
    (hs : PositiveState s) : PositiveState (normalizeStep s d).1 := by
  intro key book hbook
  by_cases hkey : key = d.message.key
  · subst hkey
    rw [normalizeStep_own, ProcessorState.step] at hbook
    split_ifs at hbook
    · exact hs _ book hbook
    · obtain rfl := Option.some.inj hbook
      refine Book.IsPositive.apply ?_ hm
      cases hb : (s d.message.key).book with
      | none => exact Book.positive_empty
      | some old => exact hs _ old hb
    · exact hs _ book hbook
  · rw [normalizeStep_other s hkey] at hbook
    exact hs key book hbook

/-- **No reachable book has a level without a quantity.** -/
lemma positive_run {log : List Delivery} (hlog : ∀ d ∈ log, d.message.NonNegative) :
    PositiveState (Transducer.runPure normalizeStep noState log).1 :=
  Transducer.runPure_invariant PositiveState
    (fun _ d hd hs => positive_step (hlog d hd) hs) fun _ _ h => by cases h

/-! ## The best levels -/

/-- The `n` best levels of a side, or all if there are fewer, the best first.  Of levels with equal
prices any may be among them. -/
structure TopLevels (better : ℚ → ℚ → Prop) (side : Dict String String) (n : ℕ)
    (top : List (String × String)) : Prop where
  best : ∃ rest, side.items.Perm (top ++ rest) ∧
    ∀ a ∈ top, ∀ b ∈ rest, better (value b.1) (value a.1)
  sorted : top.Pairwise fun a b => better (value b.1) (value a.1)
  length : top.length = min n side.items.length

/-- The sum of the quantities. -/
def quantity (levels : List (String × String)) : ℚ :=
  (levels.map fun level => value level.2).sum

/-- The first levels of a sorted side are its best. -/
lemma topLevels_take (better : ℚ → ℚ → Prop) {side : Dict String String}
    {sorted : List (String × String)} (hperm : sorted.Perm side.items)
    (hsorted : sorted.Pairwise fun a b => better (value b.1) (value a.1)) (n : ℕ) :
    TopLevels better side n (sorted.take n) := by
  have hsplit := List.take_append_drop n sorted
  have hpair := hsorted
  rw [← hsplit] at hpair
  refine ⟨⟨sorted.drop n, ?_, (List.pairwise_append.mp hpair).2.2⟩, hsorted.sublist
    (List.take_sublist _ _), ?_⟩
  · rw [hsplit]
    exact hperm.symm
  · rw [List.length_take, hperm.length_eq]

lemma bids_sorted (items : List (String × String)) :
    (items.insertionSort fun a b => ¬ value a.1 < value b.1).Pairwise
      fun a b => value b.1 ≤ value a.1 := by
  have htotal : Std.Total fun a b : String × String => ¬ value a.1 < value b.1 :=
    ⟨fun a b => by simpa only [not_lt] using le_total (value b.1) (value a.1)⟩
  have htrans : IsTrans (String × String) fun a b => ¬ value a.1 < value b.1 :=
    ⟨fun a b c hab hbc => by rw [not_lt] at *; exact le_trans hbc hab⟩
  exact (List.pairwise_insertionSort (fun a b : String × String => ¬ value a.1 < value b.1)
    items).imp fun h => not_lt.mp h

lemma asks_sorted (items : List (String × String)) :
    (items.insertionSort fun a b => ¬ value b.1 < value a.1).Pairwise
      fun a b => value b.1 ≥ value a.1 := by
  have htotal : Std.Total fun a b : String × String => ¬ value b.1 < value a.1 :=
    ⟨fun a b => by simpa only [not_lt] using le_total (value a.1) (value b.1)⟩
  have htrans : IsTrans (String × String) fun a b => ¬ value b.1 < value a.1 :=
    ⟨fun a b c hab hbc => by rw [not_lt] at *; exact le_trans hab hbc⟩
  exact (List.pairwise_insertionSort (fun a b : String × String => ¬ value b.1 < value a.1)
    items).imp fun h => not_lt.mp h

/-- Some of the best levels of a side that has levels carry a positive quantity. -/
lemma TopLevels.quantity_pos {better : ℚ → ℚ → Prop} {side : Dict String String} {n : ℕ}
    {top : List (String × String)} (h : TopLevels better side n top) (hside : PositiveSide side)
    (hn : 0 < n) (hitems : side.items ≠ []) : 0 < quantity top := by
  obtain ⟨rest, hperm, _⟩ := h.best
  have hpos : ∀ q ∈ top.map fun level => value level.2, 0 < q := by
    intro q hq
    obtain ⟨level, hlevel, rfl⟩ := List.mem_map.mp hq
    have hmem := hperm.mem_iff.mpr (List.mem_append_left rest hlevel)
    exact (hside level.1 level.2 (Dict.mem_items_iff.mp hmem)).2.2
  have hlength := h.length
  have hitemsLength := List.length_pos_iff.mpr hitems
  cases htop : top with
  | nil =>
      rw [htop, List.length_nil] at hlength
      omega
  | cons level levels =>
      rw [htop, List.map_cons] at hpos
      have hhead := hpos _ List.mem_cons_self
      have htail := List.sum_nonneg fun q hq => le_of_lt (hpos q (List.mem_cons_of_mem _ hq))
      rw [quantity, List.map_cons, List.sum_cons]
      linarith

/-- **The imbalance of a book with two sides** is the share of the bids in the best levels, strictly
between 0 and 1. -/
lemma imbalance_spec {bids asks : Dict String String} (hbids : PositiveSide bids)
    (hasks : PositiveSide asks) (hbidItems : bids.items ≠ []) (haskItems : asks.items ≠ []) :
    ∃ topBids topAsks, TopLevels (· ≤ ·) bids 5 topBids ∧ TopLevels (· ≥ ·) asks 5 topAsks ∧
      0 < quantity topBids + quantity topAsks ∧
      imbalance bids asks 5 = quantity topBids / (quantity topBids + quantity topAsks) ∧
      0 < imbalance bids asks 5 ∧ imbalance bids asks 5 < 1 := by
  have htopBids := topLevels_take (· ≤ ·) (List.perm_insertionSort _ bids.items)
    (bids_sorted bids.items) 5
  have htopAsks := topLevels_take (· ≥ ·) (List.perm_insertionSort _ asks.items)
    (asks_sorted asks.items) 5
  have hbidPos := htopBids.quantity_pos hbids (by omega) hbidItems
  have haskPos := htopAsks.quantity_pos hasks (by omega) haskItems
  have htotal := add_pos hbidPos haskPos
  have heq : imbalance bids asks 5 = _ := if_pos htotal
  refine ⟨_, _, htopBids, htopAsks, htotal, heq, ?_, ?_⟩
  · rw [heq]
    exact div_pos hbidPos htotal
  · rw [heq]
    exact (div_lt_one htotal).mpr (lt_add_of_pos_right _ haskPos)

/-! ## Sound rows -/

/-- A row says the truth about a book with two sides. -/
structure BookTickerRow.Sound (row : BookTickerRow) (book : Book) : Prop where
  sides : ∃ bidPrice bidQty askPrice askQty,
    IsBest (· ≤ ·) book.bids.get? bidPrice bidQty ∧ 0 < value bidQty ∧
    IsBest (· ≥ ·) book.asks.get? askPrice askQty ∧ 0 < value askQty ∧
    row.bestBidPrice = .fin (value bidPrice) ∧ row.bestBidQty = .fin (value bidQty) ∧
    row.bestAskPrice = .fin (value askPrice) ∧ row.bestAskQty = .fin (value askQty) ∧
    row.spread = .fin (value askPrice - value bidPrice) ∧
    ∃ mid, row.midPrice = .fin mid ∧ min (value bidPrice) (value askPrice) ≤ mid ∧
      mid ≤ max (value bidPrice) (value askPrice)
  imbalance : ∃ topBids topAsks x,
    TopLevels (· ≤ ·) book.bids 5 topBids ∧ TopLevels (· ≥ ·) book.asks 5 topAsks ∧
    0 < quantity topBids + quantity topAsks ∧ row.imbalance = .fin x ∧
    x = quantity topBids / (quantity topBids + quantity topAsks) ∧ 0 < x ∧ x < 1

lemma items_ne_nil_of_isBest {better : ℚ → ℚ → Prop} {side : Dict String String}
    {price qty : String} (h : IsBest better side.get? price qty) : side.items ≠ [] :=
  List.ne_nil_of_mem (Dict.mem_items_iff.mpr h.level)

/-- The row of a positive book. -/
lemma sound_of_quote {book : Book} (h : book.IsPositive) {q : Quote} (hq : book.quote = some q)
    (d : Delivery) : (d.row q).Sound book := by
  obtain ⟨bp, bq, ap, aq, hbid, hask, _, _, _, _, rfl⟩ := h.numeric.quote_spec hq
  obtain ⟨topBids, topAsks, htopBids, htopAsks, htotal, heq, hpos, hlt⟩ := imbalance_spec h.bids
    h.asks (items_ne_nil_of_isBest hbid) (items_ne_nil_of_isBest hask)
  refine ⟨⟨bp, bq, ap, aq, hbid, (h.bids bp bq hbid.level).2.2, hask, (h.asks ap aq hask.level).2.2,
    rfl, rfl, rfl, rfl, rfl, _, rfl, ?_, ?_⟩,
    ⟨topBids, topAsks, _, htopBids, htopAsks, htotal, rfl, heq, hpos, hlt⟩⟩
  · rcases le_total (value bp) (value ap) with hle | hle
    · rw [min_eq_left hle]
      linarith
    · rw [min_eq_right hle]
      linarith
  · rcases le_total (value bp) (value ap) with hle | hle
    · rw [max_eq_right hle]
      linarith
    · rw [max_eq_left hle]
      linarith

/-- A row is written with its book: the one its record's diff makes of the stored one. -/
lemma book_of_row {s : String → ProcessorState} {d : Delivery} {row : BookTickerRow}
    (h : row ∈ (normalizeStep s d).2) :
    ∃ book q, book = ((s d.message.key).book.getD Book.empty).apply d.message ∧
      ((normalizeStep s d).1 d.message.key).book = some book ∧ book.quote = some q ∧
      row = d.row q ∧ (normalizeStep s d).2 = [row] := by
  rw [normalizeStep_rows] at h
  rw [normalizeStep_own, normalizeStep_rows]
  by_cases hfresh : Fresh (s d.message.key).lastUpdateId d.message.lastUpdateId
  · by_cases hlate : d.Late
    · simp [ProcessorState.step, hfresh, hlate] at h
    · simp only [ProcessorState.step, if_pos hfresh, if_neg hlate] at h ⊢
      obtain ⟨q, hq, rfl⟩ := Option.map_eq_some_iff.mp (Option.mem_toList.mp h)
      exact ⟨_, q, rfl, rfl, hq, rfl, by rw [hq]; rfl⟩
  · simp [ProcessorState.step, hfresh] at h

/-- **Every row is sound.**  On any log of well-formed records without negative quantities, no book
that the job keeps has a level without a quantity.  Each row is the one row of a record: it has the
key and the id of the record, and is sound about the book *after* the record's diff, which is that
diff applied to the book kept for the key before, and which the job keeps. -/
theorem rows_sound (render : Json → String) (log : List Delivery)
    (hlog : ∀ d ∈ log, d.message.NonNegative) :
    ∃ s rows, normalize render noState (log.map Delivery.element) = .ok (s, rows) ∧
      (∀ key, ∀ book ∈ (s key).book, book.IsPositive) ∧
      ∀ row ∈ rows, ∃ past d rest before earlier after book q, log = past ++ d :: rest ∧
        normalize render noState (past.map Delivery.element) = .ok (before, earlier) ∧
        normalize render noState ((past ++ [d]).map Delivery.element)
          = .ok (after, earlier ++ [row]) ∧
        row = d.row q ∧ row.key render = d.message.key ∧
        row.lastUpdateId = d.message.lastUpdateId ∧
        applyMessage ((before d.message.key).book.getD Book.empty) d.message = .ok book ∧
        (after d.message.key).book = some book ∧ row.Sound book := by
  refine ⟨_, _, normalize_noState render log, positive_run hlog, ?_⟩
  intro row hrow
  obtain ⟨past, d, rest, rfl, hd⟩ := Transducer.mem_runPure hrow
  obtain ⟨book, q, hdiff, hbook, hquote, rfl, hone⟩ := book_of_row hd
  have hlast : Transducer.runPure normalizeStep noState (past ++ [d]) =
      ((normalizeStep (Transducer.runPure normalizeStep noState past).1 d).1,
        (Transducer.runPure normalizeStep noState past).2 ++ [d.row q]) := by
    rw [Transducer.runPure_append, Transducer.runPure_cons, Transducer.runPure_nil, hone,
      List.append_nil]
  have hpast : PositiveState (Transducer.runPure normalizeStep noState past).1 :=
    positive_run fun e he => hlog e (List.mem_append_left _ he)
  have hpositive : book.IsPositive := by
    refine positive_step (hlog d (by simp)) hpast d.message.key book hbook
  have hnumeric : (((Transducer.runPure normalizeStep noState past).1 d.message.key).book.getD
      Book.empty).IsNumeric := by
    cases hb : ((Transducer.runPure normalizeStep noState past).1 d.message.key).book with
    | none => exact Book.numeric_empty
    | some old => exact (hpast _ old hb).numeric
  have happly := (hnumeric.apply d.message).1
  rw [← hdiff] at happly
  exact ⟨past, d, rest, _, _, _, book, q, rfl, normalize_noState render past,
    (normalize_noState render _).trans (congrArg Except.ok hlast), rfl, rfl, rfl, happly, hbook,
    sound_of_quote hpositive hquote d⟩

theorem rows_sound_sample : ∃ s rows,
    normalize (fun _ => "") noState [(sampleDelivery 5).element, laterDelivery.element]
      = .ok (s, rows) ∧
    ∃ row ∈ rows, row.lastUpdateId = 8 ∧ row.bestBidPrice = .fin 100 ∧
      row.bestAskPrice = .fin 101 ∧ row.imbalance = .fin (3 / 4) ∧
      ∃ d ∈ [sampleDelivery 5, laterDelivery], ∃ q book, row = d.row q ∧ row.Sound book := by
  have hlog : ∀ d ∈ [sampleDelivery 5, laterDelivery], d.message.NonNegative := by
    have hfirst : ∀ level ∈ sampleMessage.bids ++ sampleMessage.asks, 0 ≤ value level.2 := by
      decide +kernel
    have hsecond : ∀ level ∈ laterMessage.bids ++ laterMessage.asks, 0 ≤ value level.2 := by
      decide +kernel
    intro d hd
    rcases List.mem_pair.mp hd with rfl | rfl
    · exact hfirst
    · exact hsecond
  obtain ⟨s, rows, hrun, _, hsound⟩ := rows_sound (fun _ => "") _ hlog
  have hrows := rows_of_noState hrun
  have hvalues : (8, .fin 100, .fin 101, .fin (3 / 4)) ∈ rows.map fun row =>
      (row.lastUpdateId, row.bestBidPrice, row.bestAskPrice, row.imbalance) := by
    rw [hrows]
    decide +kernel
  obtain ⟨row, hrow, hvalue⟩ := List.mem_map.mp hvalues
  obtain ⟨past, d, rest, _, _, _, book, q, hsplit, _, _, hof, _, _, _, _, hrowSound⟩ :=
    hsound row hrow
  simp only [Prod.mk.injEq] at hvalue
  exact ⟨s, rows, hrun, row, hrow, hvalue.1, hvalue.2.1, hvalue.2.2.1, hvalue.2.2.2, d,
    hsplit ▸ List.mem_append_right past List.mem_cons_self, q, book, hof, hrowSound⟩

end Ticksense
