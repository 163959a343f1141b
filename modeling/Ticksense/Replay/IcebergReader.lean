import Mathlib.Data.List.MinMax
import Mathlib.Data.List.Sort
import Ticksense.Flink.StateCells

/-!
# Offset ranges from the book-ticker table

`replay/src/replay/iceberg_reader.py`: a time window is turned into one offset range per Kafka
partition, from the places recorded in the rows of `normalized.book_ticker`.

* `offsetRanges` — from the two columns of the scan to the ranges; `readOffsetRange` — the whole
  function, with the table as its environment.
* `exists_covers_iff` — the ranges cover, on each partition, what lies between the least and the
  greatest offset of its rows, and nothing else.
* `read_covers_iff` — with the table written by the normalize job: a place in the raw topic is
  covered exactly when it lies between two records of its partition that led to rows of the window.
  A record that led to no row need not be (`record_before_first_row_is_missed`).
-/

namespace Ticksense

/-- `OffsetRange`; the end is exclusive. -/
structure OffsetRange where
  partition : ℤ
  startOffset : ℤ
  endOffset : ℤ
deriving DecidableEq, Repr

/-- The columns of the book-ticker table that the scan uses; the time is in microseconds. -/
structure IcebergRow where
  exchangeEventTs : ℤ
  symbol : Json
  kafkaPartition : ℤ
  kafkaOffset : ℤ

/-- What `normalize/insert.sql` writes for a row of the job. -/
def BookTickerRow.iceberg (row : BookTickerRow) : IcebergRow :=
  ⟨row.exchangeEventTsMs * 1000, row.symbol, row.srcKafkaPartition, row.srcKafkaOffset⟩

/-- `EqualTo("symbol", symbol)` -/
def hasSymbol (v : Json) (symbol : String) : Bool :=
  match v with
  | .str text => text = symbol
  | _ => false

/-- From the columns of the scan to the ranges: `-1` stands for an unknown place. -/
def offsetRanges (partitions offsets : List ℤ) : List OffsetRange :=
  if partitions = [] then []
  else if partitions.all (· = -1) then []
  else
    let byPartition := Dict.group
      ((partitions.zip offsets).filter fun po => ¬ (po.1 = -1 ∨ po.2 = -1))
    (byPartition.items.insertionSort fun a b => a.1 ≤ b.1).map fun (part, offs) =>
      ⟨part, offs.min?.getD 0, offs.max?.getD 0 + 1⟩

/-- The row filter of the scan. -/
def filterExpr (symbol : Option String) (startTs endTs : ℤ) (row : IcebergRow) : Bool :=
  epochMs startTs * 1000 ≤ row.exchangeEventTs && row.exchangeEventTs < epochMs endTs * 1000 &&
    match symbol with
    -- an empty symbol filters nothing, like none
    | none => true
    | some s => s = "" || hasSymbol row.symbol s

/-- `read_offset_range`, on a table that can be loaded and scanned or raises on the way. -/
def readOffsetRange (table : Except PyError (List IcebergRow)) (symbol : Option String)
    (startTs endTs : ℤ) : List OffsetRange :=
  match table with
  | .error _ => []
  | .ok rows =>
      let scan := rows.filter (filterExpr symbol startTs endTs)
      offsetRanges (scan.map (·.kafkaPartition)) (scan.map (·.kafkaOffset))

/-! ## What the ranges cover -/

/-- The range contains the place. -/
def OffsetRange.Covers (r : OffsetRange) (partition offset : ℤ) : Prop :=
  r.partition = partition ∧ r.startOffset ≤ offset ∧ offset < r.endOffset

/-- The known offsets of a partition. -/
def knownOffsets (partitions offsets : List ℤ) (partition : ℤ) : List ℤ :=
  Dict.valuesOf ((partitions.zip offsets).filter fun po => ¬ (po.1 = -1 ∨ po.2 = -1)) partition

lemma mem_knownOffsets {partitions offsets : List ℤ} {p o : ℤ} :
    o ∈ knownOffsets partitions offsets p ↔
      (p, o) ∈ partitions.zip offsets ∧ p ≠ -1 ∧ o ≠ -1 := by
  simp [knownOffsets, Dict.mem_valuesOf, not_or]

/-- A range per partition with a known offset, from the least to the greatest. -/
lemma mem_offsetRanges {partitions offsets : List ℤ} {r : OffsetRange} :
    r ∈ offsetRanges partitions offsets ↔
      ∃ p, knownOffsets partitions offsets p ≠ [] ∧
        r = ⟨p, (knownOffsets partitions offsets p).min?.getD 0,
          (knownOffsets partitions offsets p).max?.getD 0 + 1⟩ := by
  have hnone : (∀ p ∈ partitions, p = -1) → ∀ p, knownOffsets partitions offsets p = [] := by
    intro hall p
    refine List.eq_nil_iff_forall_not_mem.mpr fun o ho => ?_
    obtain ⟨hmem, hp, _⟩ := mem_knownOffsets.mp ho
    exact hp (hall p (List.of_mem_zip hmem).1)
  rw [offsetRanges]
  split_ifs with hnil hall
  · subst hnil
    have h := hnone (by simp)
    simp [h]
  · have h := hnone (by simpa using hall)
    simp [h]
  · simp only [List.mem_map, List.mem_insertionSort, Prod.exists]
    constructor
    · rintro ⟨p, offs, hitem, rfl⟩
      have hget := Dict.mem_items_iff.mp hitem
      rw [Dict.get?_group] at hget
      split_ifs at hget with hne
      rw [← Option.some.inj hget]
      exact ⟨p, hne, rfl⟩
    · rintro ⟨p, hne, rfl⟩
      refine ⟨p, knownOffsets partitions offsets p, ?_, rfl⟩
      rw [Dict.mem_items_iff, Dict.get?_group]
      exact if_neg hne

/-- A range ends at known offsets of its partition, and all of them are inside. -/
lemma bounds_of_mem {partitions offsets : List ℤ} {r : OffsetRange}
    (h : r ∈ offsetRanges partitions offsets) :
    r.startOffset ∈ knownOffsets partitions offsets r.partition ∧
      r.endOffset - 1 ∈ knownOffsets partitions offsets r.partition ∧
      ∀ o ∈ knownOffsets partitions offsets r.partition, r.startOffset ≤ o ∧ o < r.endOffset := by
  obtain ⟨p, hne, rfl⟩ := mem_offsetRanges.mp h
  cases hmin : (knownOffsets partitions offsets p).min? with
  | none => exact absurd (List.min?_eq_none_iff.mp hmin) hne
  | some lo =>
      cases hmax : (knownOffsets partitions offsets p).max? with
      | none => exact absurd (List.max?_eq_none_iff.mp hmax) hne
      | some hi =>
          simp only [Option.getD_some, add_sub_cancel_right]
          refine ⟨List.min?_mem hmin, List.max?_mem hmax, fun o ho => ?_⟩
          have hlo := (List.min?_eq_some_iff.mp hmin).2 o ho
          have hhi := (List.max?_eq_some_iff.mp hmax).2 o ho
          omega

/-- A partition with a known offset has a range. -/
lemma exists_mem_of_known {partitions offsets : List ℤ} {p o : ℤ}
    (h : o ∈ knownOffsets partitions offsets p) :
    ∃ r ∈ offsetRanges partitions offsets, r.partition = p :=
  ⟨_, mem_offsetRanges.mpr ⟨p, List.ne_nil_of_mem h, rfl⟩, rfl⟩

/-- **What the ranges cover**: on each partition, everything between two known offsets. -/
theorem exists_covers_iff {partitions offsets : List ℤ} {p o : ℤ} :
    (∃ r ∈ offsetRanges partitions offsets, r.Covers p o) ↔
      ∃ lo ∈ knownOffsets partitions offsets p, ∃ hi ∈ knownOffsets partitions offsets p,
        lo ≤ o ∧ o ≤ hi := by
  constructor
  · rintro ⟨r, hr, rfl, hlo, hhi⟩
    obtain ⟨hstart, hend, _⟩ := bounds_of_mem hr
    exact ⟨_, hstart, _, hend, hlo, by omega⟩
  · rintro ⟨lo, hlo, hi, hhi, hle, hge⟩
    obtain ⟨r, hr, rfl⟩ := exists_mem_of_known hlo
    obtain ⟨_, _, hinside⟩ := bounds_of_mem hr
    have hstart := (hinside lo hlo).1
    have hend := (hinside hi hhi).2
    exact ⟨r, hr, rfl, by omega, by omega⟩

/-! ## On the table of the normalize job -/

/-- The message lies in the window, at millisecond precision, and has the symbol if one is given. -/
structure InWindow (symbol : Option String) (startTs endTs : ℤ) (m : DepthMessage) : Prop where
  start : epochMs startTs ≤ m.exchangeEventMs
  stop : m.exchangeEventMs < epochMs endTs
  symbol : ∀ s ∈ symbol, s ≠ "" → m.symbol = s

/-- Every row comes from a record of the log. -/
lemma exists_delivery_of_row {s₀ : String → ProcessorState} {log : List Delivery}
    {row : BookTickerRow} (h : row ∈ (Transducer.runPure normalizeStep s₀ log).2) :
    ∃ d ∈ log, ∃ q, row = d.row q := by
  obtain ⟨past, d, rest, rfl, hrow⟩ := Transducer.mem_runPure h
  exact ⟨d, by simp, ProcessorState.eq_row_of_mem_step hrow⟩

/-- The scan keeps the rows of the records in the window. -/
lemma scan_row (d : Delivery) (q : Quote) (symbol : Option String) (startTs endTs : ℤ) :
    filterExpr symbol startTs endTs (d.row q).iceberg = true ↔
      InWindow symbol startTs endTs d.message := by
  have hms : ∀ a : ℤ,
      a * 1000 ≤ d.message.exchangeEventMs * 1000 ↔ a ≤ d.message.exchangeEventMs := by
    intro a
    omega
  have hms' : ∀ a : ℤ,
      d.message.exchangeEventMs * 1000 < a * 1000 ↔ d.message.exchangeEventMs < a := by
    intro a
    omega
  cases symbol with
  | none =>
      simp only [filterExpr, BookTickerRow.iceberg, Delivery.row, hms, hms', Bool.and_true,
        Bool.and_eq_true, decide_eq_true_eq]
      constructor
      · rintro ⟨hstart, hstop⟩
        exact ⟨hstart, hstop, by simp⟩
      · intro h
        exact ⟨h.start, h.stop⟩
  | some s =>
      simp only [filterExpr, BookTickerRow.iceberg, Delivery.row, hms, hms', hasSymbol,
        Bool.and_eq_true, Bool.or_eq_true, decide_eq_true_eq]
      constructor
      · rintro ⟨⟨hstart, hstop⟩, hsymbol⟩
        refine ⟨hstart, hstop, fun t ht hne => ?_⟩
        cases ht
        exact hsymbol.resolve_left hne
      · intro h
        refine ⟨⟨h.start, h.stop⟩, ?_⟩
        by_cases hs : s = ""
        · exact Or.inl hs
        · exact Or.inr (h.symbol s rfl hs)

/-- **The known offsets of a scan** are those of the records in the window that led to a row. -/
lemma mem_knownOffsets_scan {log : List Delivery} {rows : List BookTickerRow}
    (hplace : ∀ d ∈ log, 0 ≤ d.record.partition ∧ 0 ≤ d.record.offset)
    (hrows : (Transducer.runPure normalizeStep noState log).2 = rows) (symbol : Option String)
    (startTs endTs p o : ℤ) :
    o ∈ knownOffsets
        (((rows.map BookTickerRow.iceberg).filter (filterExpr symbol startTs endTs)).map
          (·.kafkaPartition))
        (((rows.map BookTickerRow.iceberg).filter (filterExpr symbol startTs endTs)).map
          (·.kafkaOffset)) p ↔
      ∃ d ∈ log, (∃ q, d.row q ∈ rows) ∧ InWindow symbol startTs endTs d.message ∧
        d.record.partition = p ∧ d.record.offset = o := by
  rw [mem_knownOffsets, List.zip_map', List.mem_map]
  constructor
  · rintro ⟨⟨ice, hice, hpo⟩, _, _⟩
    obtain ⟨hmem, hfilter⟩ := List.mem_filter.mp hice
    obtain ⟨row, hrow, rfl⟩ := List.mem_map.mp hmem
    rw [← hrows] at hrow
    obtain ⟨d, hd, q, rfl⟩ := exists_delivery_of_row hrow
    rw [hrows] at hrow
    obtain ⟨hp, ho⟩ := Prod.mk.inj hpo
    exact ⟨d, hd, ⟨q, hrow⟩, (scan_row d q symbol startTs endTs).mp hfilter, hp, ho⟩
  · rintro ⟨d, hd, ⟨q, hrow⟩, hwindow, rfl, rfl⟩
    obtain ⟨hp, ho⟩ := hplace d hd
    refine ⟨⟨(d.row q).iceberg, ?_, rfl⟩, by omega, by omega⟩
    exact List.mem_filter.mpr
      ⟨List.mem_map_of_mem hrow, (scan_row d q symbol startTs endTs).mpr hwindow⟩

/-- **What a window covers.**  The job has read a log of well-formed records, from the beginning and
at any times, and its rows are the book-ticker table.  A place in the raw topic is inside a range of
the window if and only if, on its partition, it lies between two records that led to a row and are
in the window, with the symbol if one is given.  In particular every record of the window that led
to a row is inside a range. -/
theorem read_covers_iff (render : Json → String) (log : List Delivery)
    (hplace : ∀ d ∈ log, 0 ≤ d.record.partition ∧ 0 ≤ d.record.offset) (symbol : Option String)
    (startTs endTs : ℤ) :
    ∃ s rows, normalize render noState (log.map Delivery.element) = .ok (s, rows) ∧
      (∀ p o, (∃ r ∈ readOffsetRange (.ok (rows.map BookTickerRow.iceberg)) symbol startTs endTs,
          r.Covers p o) ↔
        ∃ lo ∈ log, ∃ hi ∈ log, (∃ q, lo.row q ∈ rows) ∧ (∃ q, hi.row q ∈ rows) ∧
          InWindow symbol startTs endTs lo.message ∧ InWindow symbol startTs endTs hi.message ∧
          lo.record.partition = p ∧ hi.record.partition = p ∧
          lo.record.offset ≤ o ∧ o ≤ hi.record.offset) ∧
      ∀ d ∈ log, (∃ q, d.row q ∈ rows) → InWindow symbol startTs endTs d.message →
        ∃ r ∈ readOffsetRange (.ok (rows.map BookTickerRow.iceberg)) symbol startTs endTs,
          r.Covers d.record.partition d.record.offset := by
  refine ⟨_, _, normalize_noState render log, ?_⟩
  generalize hrows : (Transducer.runPure normalizeStep noState log).2 = rows
  have hknown := mem_knownOffsets_scan hplace hrows symbol startTs endTs
  have hcovers : ∀ p o,
      (∃ r ∈ readOffsetRange (.ok (rows.map BookTickerRow.iceberg)) symbol startTs endTs,
          r.Covers p o) ↔
        ∃ lo ∈ log, ∃ hi ∈ log, (∃ q, lo.row q ∈ rows) ∧ (∃ q, hi.row q ∈ rows) ∧
          InWindow symbol startTs endTs lo.message ∧ InWindow symbol startTs endTs hi.message ∧
          lo.record.partition = p ∧ hi.record.partition = p ∧
          lo.record.offset ≤ o ∧ o ≤ hi.record.offset := by
    intro p o
    refine Iff.trans exists_covers_iff ?_
    constructor
    · rintro ⟨l, hl, h, hh, hle, hge⟩
      obtain ⟨lo, hlo, hloRow, hloWin, hlop, rfl⟩ := (hknown p l).mp hl
      obtain ⟨hi, hhi, hhiRow, hhiWin, hhip, rfl⟩ := (hknown p h).mp hh
      exact ⟨lo, hlo, hi, hhi, hloRow, hhiRow, hloWin, hhiWin, hlop, hhip, hle, hge⟩
    · rintro ⟨lo, hlo, hi, hhi, hloRow, hhiRow, hloWin, hhiWin, hlop, hhip, hle, hge⟩
      exact ⟨_, (hknown p _).mpr ⟨lo, hlo, hloRow, hloWin, hlop, rfl⟩, _,
        (hknown p _).mpr ⟨hi, hhi, hhiRow, hhiWin, hhip, rfl⟩, hle, hge⟩
  exact ⟨hcovers, fun d hd hrow hwindow => (hcovers _ _).mpr
    ⟨d, hd, d, hd, hrow, hrow, hwindow, hwindow, rfl, rfl, le_refl _, le_refl _⟩⟩

theorem read_covers_iff_sample :
    ∃ s rows, normalize (fun _ => "") noState ([sampleDelivery 5].map Delivery.element)
        = .ok (s, rows) ∧
      ∃ r ∈ readOffsetRange (.ok (rows.map BookTickerRow.iceberg)) (some "btcusdt")
        1704067200000000 1704067260000000, r.Covers 0 1 := by
  rcases read_covers_iff (fun _ => "") [sampleDelivery 5]
    (by intro d hd; rw [List.mem_singleton.mp hd]; decide) (some "btcusdt") 1704067200000000
    1704067260000000 with ⟨s, rows, hrun, _, hcovers⟩
  refine ⟨s, rows, hrun, hcovers (sampleDelivery 5) (List.mem_singleton_self _) ?_ ?_⟩
  · have hhead : (Transducer.runPure normalizeStep noState [sampleDelivery 5]).2.head?.isSome
        = true := by decide +kernel
    obtain ⟨row, hrow⟩ := Option.isSome_iff_exists.mp hhead
    have hmem := List.mem_of_mem_head? hrow
    obtain ⟨d, hd, q, rfl⟩ := exists_delivery_of_row hmem
    rw [List.mem_singleton.mp hd] at hmem
    have hrows : (Transducer.runPure normalizeStep noState [sampleDelivery 5]).2 = rows :=
      congrArg Prod.snd (Except.ok.inj ((normalize_noState _ _).symm.trans hrun))
    rw [hrows] at hmem
    exact ⟨q, hmem⟩
  · exact ⟨by decide, by decide, by decide⟩

/-- A message that lists no ask, one id before the sample message. -/
def oneSidedMessage : DepthMessage where
  eventId := "binance#btcusdt#6"
  exchange := "binance"
  symbol := "btcusdt"
  exchangeEventMs := 1704067200000
  ingestMs := 1704067200000
  firstUpdateId := 6
  lastUpdateId := 6
  bids := [("100", "1")]
  asks := []
  numericBids := sampleMessage.numericBids
  numericAsks := fun _ h => nomatch h

/-- **The first record is missed.**  It leaves the book with one side and leads to no row, so the
range of its minute begins after it. -/
theorem record_before_first_row_is_missed :
    ¬ ∀ (render : Json → String) (log : List Delivery) (s : String → ProcessorState)
        (rows : List BookTickerRow) (symbol : Option String) (startTs endTs : ℤ),
      (∀ d ∈ log, 0 ≤ d.record.partition ∧ 0 ≤ d.record.offset) →
      normalize render noState (log.map Delivery.element) = .ok (s, rows) →
      readOffsetRange (.ok (rows.map BookTickerRow.iceberg)) symbol startTs endTs ≠ [] →
      ∀ d ∈ log, startTs ≤ d.message.exchangeEventMs * 1000 →
        d.message.exchangeEventMs * 1000 < endTs → (∀ s ∈ symbol, d.message.symbol = s) →
        ∃ r ∈ readOffsetRange (.ok (rows.map BookTickerRow.iceberg)) symbol startTs endTs,
          r.Covers d.record.partition d.record.offset := by
  intro h
  have hranges : readOffsetRange (.ok ((Transducer.runPure normalizeStep noState
      [deliveryOf oneSidedMessage rfl rfl 0 5, sampleDelivery 6]).2.map BookTickerRow.iceberg))
      (some "btcusdt") 1704067200000000 1704067260000000 = [⟨0, 1, 2⟩] := by decide +kernel
  have hrun := normalize_noState (fun _ => "")
    [deliveryOf oneSidedMessage rfl rfl 0 5, sampleDelivery 6]
  generalize Transducer.runPure normalizeStep noState
    [deliveryOf oneSidedMessage rfl rfl 0 5, sampleDelivery 6] = result at hranges hrun
  rcases h (fun _ => "") [deliveryOf oneSidedMessage rfl rfl 0 5, sampleDelivery 6] result.1 result.2
    (some "btcusdt") 1704067200000000 1704067260000000
    (by
      intro d hd
      rcases List.mem_pair.mp hd with rfl | rfl
      · decide
      · decide)
    hrun (by rw [hranges]; simp) _ List.mem_cons_self (by decide) (by decide)
    (by decide) with ⟨r, hr, hcovers⟩
  rw [hranges, List.mem_singleton] at hr
  rw [hr] at hcovers
  exact absurd hcovers.2.1 (by decide)

end Ticksense
