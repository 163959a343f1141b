import Ticksense.Lib.Checkpoint
import Ticksense.Lib.Windows
import Ticksense.Ohlcv.Queries

/-!
# The streaming job over its whole life

`Queries` has the statement of `ohlcv_1m/insert.sql` as a query over ticks none of which is late.
The job runs it on a topic of several partitions, with the watermark of `ohlcv_1m/source.sql`, and
is restored from checkpoints when it fails (`ohlcv_1m.py`).

* `WindowState`, `windowStep` — the source with its watermark, and the windows.
* `ohlcvJob` — the job of `main`.
* `Ran` — what a run has, in terms of the records it read.
* `bars_unique` — whatever is late and whatever fails, the table has one bar for each window at
  most, and its bars are those of the query over ticks of the topic.
* `bars_complete` — if no partition is five seconds out of order, the query is over all ticks, in an
  order in which the partitions can be read.
* `Possible`, `bar_possible_iff` — a window can get its bar if and only if it is closed already, or
  all partitions go five seconds past its end in what the running attempt has read or has still to
  read.
-/

namespace Ticksense

open Checkpoint

/-! ## The job -/

/-- A record of the topic.  The JSON format skips what it cannot parse, and its timestamps are of
type `TIMESTAMP_LTZ(3)`. -/
structure TickRecord (n : ℕ) where
  partition : Fin n
  tick : Option BookTick
  millis : ∀ t ∈ tick, ∀ ts ∈ t.exchangeEventTs, 1000 ∣ ts

/-- The event time of a record that has one. -/
def TickRecord.eventTs {n : ℕ} (r : TickRecord n) : Option ℤ := r.tick.bind (·.exchangeEventTs)

/-- `INTERVAL '5' SECOND` of the `WATERMARK` clause -/
def outOfOrderness : ℤ := 5 * 1000 * 1000

/-- The last millisecond of a window. -/
def lastOf (key : WindowKey) : ℤ := key.2.2 + minuteMicros - 1000

variable {n : ℕ} {S : Type} (subtask : String × String → S)

section Job

/-- `TUMBLE`, `GROUP BY exchange, symbol, window_start, window_end`.  The ticks of an exchange and
symbol are aggregated by one subtask. -/
def tumble : Windows.Assigner BookTick WindowKey S ℤ where
  key := BookTick.windowKey
  site := fun key => subtask (key.1, key.2.1)
  last := lastOf

/-- The greatest event time that the source has read in each partition, and the windows. -/
structure WindowState (n : ℕ) (S : Type) where
  maxTs : Fin n → Option ℤ
  windows : Windows.State BookTick S ℤ

/-- A record is read, or a watermark comes to a subtask. -/
inductive WindowElement (n : ℕ) (S : Type)
  | read (r : TickRecord n)
  | watermark (p : S) (w : ℤ)

/-- The record that is read. -/
def WindowElement.record : WindowElement n S → Option (TickRecord n)
  | .read r => some r
  | .watermark _ _ => none

@[simp] lemma WindowElement.record_read (r : TickRecord n) :
    (WindowElement.read r : WindowElement n S).record = some r := rfl

@[simp] lemma WindowElement.record_watermark (p : S) (w : ℤ) :
    (WindowElement.watermark p w : WindowElement n S).record = none := rfl

/-- The source may have emitted the watermark: every partition has gone five seconds past it. -/
def WindowState.Emittable (s : WindowState n S) (w : ℤ) : Prop :=
  ∀ p, ∃ m ∈ s.maxTs p, w ≤ m - outOfOrderness

instance (s : WindowState n S) (w : ℤ) : Decidable (s.Emittable w) :=
  decidable_of_iff (∀ p, (s.maxTs p).any (fun m => w ≤ m - outOfOrderness))
    (forall_congr' fun p => by simp [Option.any_eq_true])

/-- A tick without event time fails the job. -/
inductive WindowFailure
  | noEventTime

/-- A tick with an event time, read in a partition; `WHERE mid_price IS NOT NULL`. -/
def WindowState.take (s : WindowState n S) (p : Fin n) (tick : BookTick) (ts : ℤ) :
    WindowState n S where
  maxTs := Function.update s.maxTs p (some (max ts ((s.maxTs p).getD ts)))
  windows := if tick.midPrice.isSome then s.windows.arrive (tumble subtask) tick else s.windows

@[simp] lemma take_maxTs_self {s : WindowState n S} {p : Fin n} {tick : BookTick} {ts : ℤ} :
    (s.take subtask p tick ts).maxTs p = some (max ts ((s.maxTs p).getD ts)) :=
  Function.update_self _ _ _

lemma take_maxTs_of_ne {s : WindowState n S} {p q : Fin n} {tick : BookTick} {ts : ℤ}
    (h : q ≠ p) : (s.take subtask p tick ts).maxTs q = s.maxTs q :=
  Function.update_of_ne h _ _

@[simp] lemma come_take {s : WindowState n S} {p : Fin n} {tick : BookTick} {ts : ℤ} {q : S}
    {w : ℤ} : (s.take subtask p tick ts).windows.Come q w ↔ s.windows.Come q w := by
  rw [WindowState.take]
  split_ifs
  · exact Windows.come_arrive
  · rfl

/-- A bar for each window that is given out. -/
def barsOf (given : List (WindowKey × List BookTick)) : List StreamBar :=
  given.map fun (key, ticks) => streamBar key ticks

variable [DecidableEq S]

/-- One event.  A watermark that the source has not come to does nothing. -/
def windowStep (s : WindowState n S) :
    WindowElement n S → Except WindowFailure (WindowState n S × List StreamBar)
  | .read r =>
      match r.tick with
      | none => .ok (s, [])
      | some tick =>
          match tick.exchangeEventTs with
          | none => .error .noEventTime
          | some ts => .ok (s.take subtask r.partition tick ts, [])
  | .watermark p w =>
      if s.Emittable w then
        .ok ({ s with windows := (s.windows.advance (tumble subtask) p w).1 },
          barsOf (s.windows.advance (tumble subtask) p w).2)
      else .ok (s, [])

/-- The job as `main` sets it up.  A checkpoint has the windows and how far time has come there, and
not the watermark of the source. -/
def ohlcvJob : Job (Fin n) (TickRecord n) (WindowElement n S) WindowFailure (WindowState n S)
    StreamBar where
  start := ⟨fun _ => none, .empty⟩
  step := windowStep subtask
  record := WindowElement.record
  partition := TickRecord.partition
  Admits := fun _ => True
  resume := fun s => { s with maxTs := fun _ => none }

end Job

/-! ## What a run has -/

/-- The ticks that are read. -/
def ticksOf (records : List (TickRecord n)) : List BookTick := records.filterMap TickRecord.tick

/-- Those the query aggregates. -/
def pricedTicks (records : List (TickRecord n)) : List BookTick :=
  (ticksOf records).filter (·.midPrice.isSome)

/-- Read later, a record is less than five seconds behind. -/
def InOrder (a b : TickRecord n) : Prop :=
  ∀ ts ∈ a.eventTs, ∀ us ∈ b.eventTs, ts - outOfOrderness < us

instance (a b : TickRecord n) : Decidable (InOrder a b) :=
  inferInstanceAs (Decidable (∀ ts ∈ a.eventTs, ∀ us ∈ b.eventTs, ts - outOfOrderness < us))

/-- No partition is five seconds out of order. -/
def Orderly (records : List (TickRecord n)) : Prop :=
  ∀ p, (records.filter fun r => r.partition = p).Pairwise InOrder

instance (records : List (TickRecord n)) : Decidable (Orderly records) :=
  inferInstanceAs (Decidable (∀ p, (records.filter fun r => r.partition = p).Pairwise InOrder))

/-- Read behind these, the record is less than five seconds behind, or its tick is one of theirs. -/
def FitsBehind (before : List (TickRecord n)) (r : TickRecord n) : Prop :=
  (∀ a ∈ before, InOrder a r) ∨ ∃ a ∈ before, a.tick = r.tick

/-- No partition is five seconds out of order, except for ticks that come again. -/
def OrderlyButRepeats (records : List (TickRecord n)) : Prop :=
  ∀ p before r after,
    (records.filter fun r => r.partition = p) = before ++ r :: after → FitsBehind before r

/-- **What a run has**, in terms of the records it read and the ticks that were in time. -/
structure Ran (records : List (TickRecord n)) (s : WindowState n S) (accepted : List BookTick)
    (given : List (WindowKey × List BookTick)) : Prop where
  windows : Windows.Represents (tumble subtask) accepted s.windows given
  part : accepted.Sublist (pricedTicks records)
  all : Orderly records → accepted = pricedTicks records
  kept : OrderlyButRepeats records → pricedTicks records ⊆ accepted
  timed : ∀ tick ∈ ticksOf records, tick.exchangeEventTs.isSome
  maxTs : ∀ p ts, (∃ m ∈ s.maxTs p, ts ≤ m) →
    ∃ r ∈ records, r.partition = p ∧ ∃ us ∈ r.eventTs, ts ≤ us
  reached : ∀ q w, s.windows.Come q w → ∀ p, ∃ r ∈ records, r.partition = p ∧
    ∃ us ∈ r.eventTs, w + outOfOrderness ≤ us

variable {subtask}

section StepSpec

variable [DecidableEq S] {s s' : WindowState n S} {i : WindowElement n S} {os : List StreamBar}
  (h : windowStep subtask s i = .ok (s', os))
include h

/-- **What an event does to the source**: the event time of a record counts. -/
lemma maxTs_of_step (p : Fin n) (ts : ℤ) : (∃ m ∈ s'.maxTs p, ts ≤ m) ↔
    (∃ m ∈ s.maxTs p, ts ≤ m) ∨
      ∃ r ∈ i.record, r.partition = p ∧ ∃ us ∈ r.eventTs, ts ≤ us := by
  cases i with
  | read r =>
      simp only [windowStep] at h
      cases htick : r.tick with
      | none =>
          simp only [htick] at h
          cases h
          simp [TickRecord.eventTs, htick]
      | some tick =>
          cases hts : tick.exchangeEventTs with
          | none => simp [htick, hts] at h
          | some us =>
              simp only [htick, hts] at h
              cases h
              by_cases hp : p = r.partition
              · subst hp
                rw [take_maxTs_self]
                cases s.maxTs r.partition with
                | none => simp [TickRecord.eventTs, htick, hts]
                | some m => simp [TickRecord.eventTs, htick, hts, or_comm]
              · rw [take_maxTs_of_ne subtask hp]
                simp [Ne.symm hp]
  | watermark q w =>
      simp only [windowStep] at h
      split_ifs at h
      · cases h
        simp
      · cases h
        simp

/-- **What it does to the windows**: time comes to where the source lets it. -/
lemma come_of_step (q : S) (w : ℤ) : s'.windows.Come q w ↔
    s.windows.Come q w ∨ ∃ v, i = .watermark q v ∧ s.Emittable v ∧ w ≤ v := by
  cases i with
  | read r =>
      have hsame : s'.windows.Come q w ↔ s.windows.Come q w := by
        simp only [windowStep] at h
        cases htick : r.tick with
        | none =>
            simp only [htick] at h
            cases h
            rfl
        | some tick =>
            cases hts : tick.exchangeEventTs with
            | none => simp [htick, hts] at h
            | some us =>
                simp only [htick, hts] at h
                cases h
                exact come_take subtask
      simp [hsame]
  | watermark q' v =>
      simp only [windowStep] at h
      split_ifs at h with hemit
      · cases h
        refine Windows.come_advance.trans (or_congr_right ?_)
        constructor
        · rintro ⟨rfl, hle⟩
          exact ⟨v, rfl, hemit, hle⟩
        · rintro ⟨_, heq, _, hle⟩
          cases heq
          exact ⟨rfl, hle⟩
      · cases h
        refine (or_iff_left ?_).symm
        rintro ⟨_, heq, hyes, _⟩
        cases heq
        exact hemit hyes

end StepSpec

lemma le_lastOf {tick : BookTick} {ts : ℤ} (hts : tick.exchangeEventTs = some ts)
    (hmillis : 1000 ∣ ts) : ts ≤ lastOf tick.windowKey := by
  obtain ⟨k, rfl⟩ := hmillis
  simp only [lastOf, BookTick.windowKey, BookTick.eventTs, hts, Option.getD_some, truncMinute,
    minuteMicros]
  omega

lemma Orderly.of_append {records : List (TickRecord n)} {r : TickRecord n}
    (h : Orderly (records ++ [r])) : Orderly records := by
  intro p
  have := h p
  rw [List.filter_append] at this
  exact (List.pairwise_append.mp this).1

lemma Orderly.inOrder {records : List (TickRecord n)} {r : TickRecord n}
    (h : Orderly (records ++ [r])) : ∀ a ∈ records, a.partition = r.partition → InOrder a r := by
  intro a ha hpartition
  have hpairs := h r.partition
  rw [List.filter_append, List.pairwise_append] at hpairs
  exact hpairs.2.2 a (List.mem_filter.mpr ⟨ha, by simpa using hpartition⟩) r (by simp)

lemma Orderly.butRepeats {records : List (TickRecord n)} (h : Orderly records) :
    OrderlyButRepeats records := by
  intro p before r after heq
  have hpairs := h p
  rw [heq, List.pairwise_append] at hpairs
  exact .inl fun a ha => hpairs.2.2 a ha r List.mem_cons_self

lemma OrderlyButRepeats.of_append {records : List (TickRecord n)} {r : TickRecord n}
    (h : OrderlyButRepeats (records ++ [r])) : OrderlyButRepeats records := by
  intro p before x after heq
  refine h p before x (after ++ [r].filter fun r => r.partition = p) ?_
  rw [List.filter_append, heq, List.append_assoc, List.cons_append]

lemma OrderlyButRepeats.last {records : List (TickRecord n)} {r : TickRecord n}
    (h : OrderlyButRepeats (records ++ [r])) :
    FitsBehind (records.filter fun a => a.partition = r.partition) r :=
  h r.partition _ r [] (by simp [List.filter_append])

/-- In order behind what was read in its partition, a tick is in time. -/
lemma Ran.in_time {records : List (TickRecord n)} {s : WindowState n S} {accepted : List BookTick}
    {given : List (WindowKey × List BookTick)} (h : Ran subtask records s accepted given)
    {r : TickRecord n} (hinorder : ∀ a ∈ records, a.partition = r.partition → InOrder a r)
    {tick : BookTick} {ts : ℤ} (htick : r.tick = some tick)
    (hts : tick.exchangeEventTs = some ts) :
    ¬ s.windows.Closed (tumble subtask) ((tumble subtask).key tick) := by
  intro hclosed
  obtain ⟨past, hpast, hpartition, us, hus, hle⟩ := h.reached _ _ hclosed r.partition
  have hlt := hinorder past hpast hpartition us hus ts (by simp [TickRecord.eventTs, htick, hts])
  have hlast := le_lastOf hts (r.millis tick htick ts hts)
  have hle : lastOf tick.windowKey + outOfOrderness ≤ us := hle
  omega

@[simp] lemma ticksOf_append_read (records : List (TickRecord n)) (r : TickRecord n) :
    ticksOf (records ++ [r]) = ticksOf records ++ r.tick.toList := by
  cases htick : r.tick with
  | none => simp [ticksOf, htick]
  | some tick => simp [ticksOf, htick]

lemma pricedTicks_append (records records' : List (TickRecord n)) :
    pricedTicks (records ++ records') = pricedTicks records ++ pricedTicks records' := by
  rw [pricedTicks, ticksOf, List.filterMap_append, List.filter_append]
  rfl

lemma pricedTicks_append_read (records : List (TickRecord n)) (r : TickRecord n) :
    pricedTicks (records ++ [r])
      = pricedTicks records ++ r.tick.toList.filter (·.midPrice.isSome) := by
  rw [pricedTicks, ticksOf_append_read, List.filter_append, pricedTicks]

section Step

variable {records : List (TickRecord n)} {s : WindowState n S} {accepted : List BookTick}
  {given : List (WindowKey × List BookTick)}

/-- A record that the format skips. -/
lemma Ran.skip (h : Ran subtask records s accepted given) {r : TickRecord n}
    (hnone : r.tick = none) : Ran subtask (records ++ [r]) s accepted given := by
  have hpriced : pricedTicks (records ++ [r]) = pricedTicks records := by
    rw [pricedTicks_append_read, hnone]
    simp
  refine ⟨h.windows, ?_, fun ho => ?_, fun ho => ?_, ?_, fun p ts hts => ?_, fun q w hw p => ?_⟩
  · rw [hpriced]
    exact h.part
  · rw [hpriced]
    exact h.all ho.of_append
  · rw [hpriced]
    exact h.kept ho.of_append
  · simpa [hnone] using h.timed
  · obtain ⟨a, ha, hpast⟩ := h.maxTs p ts hts
    exact ⟨a, List.mem_append_left _ ha, hpast⟩
  · obtain ⟨a, ha, hpast⟩ := h.reached q w hw p
    exact ⟨a, List.mem_append_left _ ha, hpast⟩

/-- A tick. -/
lemma Ran.take [DecidableEq S] (h : Ran subtask records s accepted given) {r : TickRecord n}
    {tick : BookTick} {ts : ℤ} (htick : r.tick = some tick)
    (hts : tick.exchangeEventTs = some ts) :
    ∃ accepted', Ran subtask (records ++ [r]) (s.take subtask r.partition tick ts) accepted'
      given := by
  have hstep : windowStep subtask s (.read r) = .ok (s.take subtask r.partition tick ts, []) := by
    simp [windowStep, htick, hts]
  have hpriced : pricedTicks (records ++ [r])
      = if tick.midPrice.isSome then pricedTicks records ++ [tick] else pricedTicks records := by
    rw [pricedTicks_append_read, htick, Option.toList_some, List.filter_singleton]
    cases tick.midPrice.isSome <;> simp
  have hmaxTs : ∀ p us, (∃ m ∈ (s.take subtask r.partition tick ts).maxTs p, us ≤ m) →
      ∃ r' ∈ records ++ [r], r'.partition = p ∧ ∃ vs ∈ r'.eventTs, us ≤ vs := by
    intro p us hus
    rcases (maxTs_of_step hstep p us).mp hus with hold | ⟨r', hr', hnew⟩
    · obtain ⟨a, ha, hpast⟩ := h.maxTs p us hold
      exact ⟨a, List.mem_append_left _ ha, hpast⟩
    · cases hr'
      exact ⟨r, by simp, hnew⟩
  have htimed : ∀ t ∈ ticksOf (records ++ [r]), t.exchangeEventTs.isSome := by
    intro t ht
    rw [ticksOf_append_read, htick, List.mem_append] at ht
    rcases ht with ht | ht
    · exact h.timed t ht
    · rw [List.mem_singleton.mp ht, hts]
      rfl
  have hreached : ∀ q w, (s.take subtask r.partition tick ts).windows.Come q w → ∀ p,
      ∃ r' ∈ records ++ [r], r'.partition = p ∧ ∃ us ∈ r'.eventTs, w + outOfOrderness ≤ us := by
    intro q w hw p
    rw [come_take] at hw
    obtain ⟨a, ha, hpast⟩ := h.reached q w hw p
    exact ⟨a, List.mem_append_left _ ha, hpast⟩
  cases hprice : tick.midPrice.isSome with
  | false =>
      rw [hprice, if_neg Bool.false_ne_true] at hpriced
      refine ⟨accepted, ?_, ?_, fun ho => ?_, fun ho => ?_, htimed, hmaxTs, hreached⟩
      · simpa [WindowState.take, hprice] using h.windows
      · rw [hpriced]
        exact h.part
      · rw [hpriced]
        exact h.all ho.of_append
      · rw [hpriced]
        exact h.kept ho.of_append
  | true =>
      rw [hprice, if_pos rfl] at hpriced
      refine ⟨s.windows.accept (tumble subtask) accepted tick, ?_, ?_, fun ho => ?_, fun ho => ?_,
        htimed, hmaxTs, hreached⟩
      · simpa [WindowState.take, hprice] using Windows.represents_arrive h.windows tick
      · rw [hpriced, Windows.State.accept]
        split_ifs
        · exact h.part.trans (List.sublist_append_left _ _)
        · exact h.part.append (List.Sublist.refl _)
      · rw [hpriced, Windows.State.accept, if_neg (h.in_time ho.inOrder htick hts),
          h.all ho.of_append]
      · have hold : pricedTicks records ⊆ s.windows.accept (tumble subtask) accepted tick :=
          List.Subset.trans (h.kept ho.of_append) (Windows.subset_accept _ _ _)
        rw [hpriced]
        refine List.append_subset.mpr ⟨hold, List.cons_subset.mpr ⟨?_, List.nil_subset _⟩⟩
        rcases ho.last with hinorder | ⟨a, ha, hsame⟩
        · rw [Windows.State.accept, if_neg (h.in_time (fun a ha hp => hinorder a
            (List.mem_filter.mpr ⟨ha, decide_eq_true hp⟩)) htick hts)]
          exact List.mem_append_right _ (List.mem_singleton_self _)
        · exact hold (List.mem_filter.mpr ⟨List.mem_filterMap.mpr ⟨a, List.mem_of_mem_filter ha,
            hsame.trans htick⟩, hprice⟩)

end Step

section Run

variable [DecidableEq S]

lemma ran_start : Ran subtask [] (ohlcvJob (n := n) subtask).start [] [] where
  windows := Windows.represents_empty
  part := List.Sublist.refl _
  all := fun _ => rfl
  kept := fun _ => List.Subset.refl _
  timed := by simp [ticksOf]
  maxTs := by simp [ohlcvJob]
  reached := by simp [ohlcvJob]

/-- **One event**, or the start of a new attempt. -/
lemma Ran.step {records : List (TickRecord n)} {s : WindowState n S} {accepted : List BookTick}
    {given : List (WindowKey × List BookTick)} (h : Ran subtask records s accepted given)
    {i : Option (WindowElement n S)} {s' : WindowState n S} {os : List StreamBar}
    (hstep : (ohlcvJob subtask).event s i = .ok (s', os)) :
    ∃ accepted' new, os = barsOf new ∧
      Ran subtask (records ++ (i.bind WindowElement.record).toList) s' accepted'
        (given ++ new) := by
  cases i with
  | none =>
      cases hstep
      refine ⟨accepted, [], rfl, ?_⟩
      simpa [ohlcvJob] using (⟨h.windows, h.part, h.all, h.kept, h.timed, by simp, h.reached⟩ :
        Ran subtask records { s with maxTs := fun _ => none } accepted given)
  | some i =>
      have hstep : windowStep subtask s i = .ok (s', os) := hstep
      cases i with
      | read r =>
          simp only [windowStep] at hstep
          cases htick : r.tick with
          | none =>
              simp only [htick] at hstep
              cases hstep
              exact ⟨accepted, [], rfl, by simpa using h.skip htick⟩
          | some tick =>
              cases hts : tick.exchangeEventTs with
              | none => simp [htick, hts] at hstep
              | some ts =>
                  simp only [htick, hts] at hstep
                  cases hstep
                  obtain ⟨accepted', h'⟩ := h.take htick hts
                  exact ⟨accepted', [], rfl, by simpa using h'⟩
      | watermark p w =>
          simp only [windowStep] at hstep
          split_ifs at hstep with hemit
          · cases hstep
            refine ⟨accepted, _, rfl, ?_⟩
            rw [Option.bind_some, WindowElement.record_watermark, Option.toList_none,
              List.append_nil]
            refine ⟨Windows.represents_advance h.windows p w, h.part, h.all, h.kept, h.timed,
              h.maxTs, ?_⟩
            intro q v hv partition
            rcases Windows.come_advance.mp hv with hv | ⟨rfl, hvw⟩
            · exact h.reached q v hv partition
            · obtain ⟨m, hm, hle⟩ := hemit partition
              exact h.maxTs partition (v + outOfOrderness) ⟨m, hm, by omega⟩
          · cases hstep
            exact ⟨accepted, [], rfl, by simpa using h⟩

/-- **Any run.** -/
lemma Ran.run {records : List (TickRecord n)} {s s' : WindowState n S} {accepted : List BookTick}
    {given : List (WindowKey × List BookTick)} (h : Ran subtask records s accepted given)
    {es : List (Option (WindowElement n S))} {os : List StreamBar}
    (hrun : Transducer.run (ohlcvJob subtask).event s es = .ok (s', os)) :
    ∃ accepted' new, os = barsOf new ∧
      Ran subtask (records ++ es.reduceOption.filterMap WindowElement.record) s' accepted'
        (given ++ new) := by
  induction es generalizing records s accepted given os with
  | nil =>
      cases hrun
      exact ⟨accepted, [], rfl, by simpa using h⟩
  | cons i es ih =>
      obtain ⟨t, os', rest, hstep, hrest, rfl⟩ := Transducer.run_cons_ok.mp hrun
      obtain ⟨accepted', new, rfl, h'⟩ := h.step hstep
      obtain ⟨accepted'', new', rfl, h''⟩ := ih h' hrest
      refine ⟨accepted'', new ++ new', by simp [barsOf], ?_⟩
      have hrecords : (i :: es).reduceOption.filterMap WindowElement.record
          = (i.bind WindowElement.record).toList
            ++ es.reduceOption.filterMap WindowElement.record := by
        cases i with
        | none => rfl
        | some i => cases i <;> rfl
      rw [hrecords, ← List.append_assoc, ← List.append_assoc]
      exact h''

lemma ran_of_computes {log : List (TickRecord n)} {snapshot : Snapshot (Fin n) (WindowState n S)}
    {os : List StreamBar} (h : Computes (ohlcvJob subtask) log snapshot os) :
    ∃ es accepted given, Reads (ohlcvJob subtask) log snapshot.position es ∧ os = barsOf given ∧
      Ran subtask (es.filterMap WindowElement.record) snapshot.state accepted given := by
  obtain ⟨es, hreads, hrun⟩ := h
  obtain ⟨accepted, given, hos, hran⟩ := ran_start.run hrun
  exact ⟨es.reduceOption, accepted, given, hreads, hos, hran⟩

/-! ## The table -/

/-- The declared primary key. -/
def StreamBar.primaryKey (bar : StreamBar) : WindowKey := (bar.exchange, bar.symbol, bar.windowStart)

@[simp] lemma primaryKey_barsOf (given : List (WindowKey × List BookTick)) :
    (barsOf given).map StreamBar.primaryKey = given.map Prod.fst := by
  simp [barsOf, StreamBar.primaryKey, streamBar, Function.comp_def]

lemma streamQuery_of_timed {ticks : List BookTick}
    (h : ∀ tick ∈ ticks, tick.exchangeEventTs.isSome) :
    streamQuery ticks
      = some (barsOf (Sql.groupBy BookTick.windowKey (ticks.filter (·.midPrice.isSome)))) := by
  rw [streamQuery, if_neg]
  · rfl
  · simpa [Option.isSome_iff_ne_none] using h

lemma mem_barsOf {given : List (WindowKey × List BookTick)} {key : WindowKey} :
    (∃ bar ∈ barsOf given, bar.primaryKey = key) ↔ key ∈ given.map Prod.fst := by
  rw [← primaryKey_barsOf, List.mem_map]

lemma mem_pricedTicks_of_subset {records records' : List (TickRecord n)}
    (h : ∀ r ∈ records, r ∈ records') {tick : BookTick} (htick : tick ∈ pricedTicks records) :
    tick ∈ pricedTicks records' := by
  obtain ⟨hmem, hpriced⟩ := List.mem_filter.mp htick
  obtain ⟨r, hr, hsome⟩ := List.mem_filterMap.mp hmem
  exact List.mem_filter.mpr ⟨List.mem_filterMap.mpr ⟨r, h r hr, hsome⟩, hpriced⟩

/-- The records of the log can be read. -/
lemma windowStep_read (s : WindowState n S) {r : TickRecord n}
    (htimed : ∀ tick ∈ r.tick, tick.exchangeEventTs.isSome) :
    ∃ result, windowStep subtask s (.read r) = .ok result := by
  cases htick : r.tick with
  | none => exact ⟨(s, []), by simp [windowStep, htick]⟩
  | some tick =>
      obtain ⟨ts, hts⟩ := Option.isSome_iff_exists.mp (htimed tick htick)
      exact ⟨(s.take subtask r.partition tick ts, []), by simp [windowStep, htick, hts]⟩

omit [DecidableEq S] in
/-- In order, a closed window with a tick has been given out. -/
lemma Ran.given_of_closed {records : List (TickRecord n)} {s : WindowState n S}
    {accepted : List BookTick} {given : List (WindowKey × List BookTick)}
    (h : Ran subtask records s accepted given) (horderly : Orderly records) {tick : BookTick}
    (htick : tick ∈ pricedTicks records)
    (hclosed : s.windows.Closed (tumble subtask) tick.windowKey) :
    tick.windowKey ∈ given.map Prod.fst := by
  rw [(h.windows.given.map Prod.fst).mem_iff, Sql.mem_keys_groupBy]
  refine List.mem_map_of_mem (f := BookTick.windowKey) (List.mem_filter.mpr ⟨?_, ?_⟩)
  · rwa [h.all horderly]
  · exact decide_eq_true hclosed

/-! ## What can still become of a window -/

/-- The partition comes to the instant in what the source has read or has still to read. -/
def GetsPast (log : List (TickRecord n)) (now : Snapshot (Fin n) (WindowState n S)) (p : Fin n)
    (ts : ℤ) : Prop :=
  (∃ m ∈ now.state.maxTs p, ts ≤ m) ∨
    ∃ r ∈ (log.filter fun r => r.partition = p).drop (now.position p), ∃ us ∈ r.eventTs, ts ≤ us

/-- The window is closed, or all partitions go five seconds past its end. -/
def Possible (subtask : String × String → S) (log : List (TickRecord n))
    (now : Snapshot (Fin n) (WindowState n S)) (key : WindowKey) : Prop :=
  now.state.windows.Closed (tumble subtask) key ∨
    ∀ p, GetsPast log now p (lastOf key + outOfOrderness)

section Next

variable {log : List (TickRecord n)} {now : Snapshot (Fin n) (WindowState n S)}
  {i : WindowElement n S} {s : WindowState n S} {os : List StreamBar}
  (hnext : (ohlcvJob subtask).IsNext log now.position i)
  (hstep : windowStep subtask now.state i = .ok (s, os))
include hnext hstep

/-- What is read passes from the rest of the log into the state. -/
lemma getsPast_next (p : Fin n) (ts : ℤ) :
    GetsPast log (now.next (ohlcvJob subtask) i s) p ts ↔ GetsPast log now p ts := by
  have hstate : (∃ m ∈ (now.next (ohlcvJob subtask) i s).state.maxTs p, ts ≤ m) ↔ _ :=
    maxTs_of_step hstep p ts
  rw [GetsPast, hstate, GetsPast, or_assoc]
  refine or_congr_right ?_
  show _ ∨ (∃ r ∈ (log.filter fun r => r.partition = p).drop
    ((ohlcvJob subtask).advance now.position i p), _) ↔ _
  cases i with
  | read r =>
      by_cases hp : p = r.partition
      · subst hp
        have hrecord : (log.filter fun a => a.partition = r.partition)[now.position r.partition]?
            = some r := hnext r rfl
        obtain ⟨hlt, hget⟩ := List.getElem?_eq_some_iff.mp hrecord
        have hposition : (ohlcvJob subtask).advance now.position (.read r) r.partition
            = now.position r.partition + 1 := (ohlcvJob subtask).advance_self rfl now.position
        rw [hposition, List.drop_eq_getElem_cons hlt, hget]
        simp
      · rw [(ohlcvJob subtask).advance_of_ne (by rintro a ⟨⟩; exact hp) now.position]
        simp [Ne.symm hp]
  | watermark q w =>
      rw [(ohlcvJob subtask).advance_of_ne (by rintro a ⟨⟩) now.position]
      simp

/-- **No event of an attempt changes what is possible.** -/
lemma possible_next (key : WindowKey) :
    Possible subtask log (now.next (ohlcvJob subtask) i s) key ↔
      Possible subtask log now key := by
  have hpasses : (∀ p, GetsPast log (now.next (ohlcvJob subtask) i s) p
      (lastOf key + outOfOrderness)) ↔ ∀ p, GetsPast log now p (lastOf key + outOfOrderness) :=
    forall_congr' fun p => getsPast_next hnext hstep p _
  have hclosed : (now.next (ohlcvJob subtask) i s).state.windows.Closed (tumble subtask) key ↔ _ :=
    come_of_step hstep _ _
  rw [Possible, hpasses, hclosed, Possible]
  constructor
  · rintro ((hbefore | ⟨v, _, hemit, hle⟩) | hall)
    · exact .inl hbefore
    · refine .inr fun p => .inl ?_
      obtain ⟨m, hm, hmv⟩ := hemit p
      have hle : lastOf key ≤ v := hle
      exact ⟨m, hm, by omega⟩
    · exact .inr hall
  · rintro (hbefore | hall)
    · exact .inl (.inl hbefore)
    · exact .inr hall

end Next

variable (subtask) in
/-- A running attempt is ahead of what was saved: time has come as far at every subtask, and what
the partitions come to behind the saved position they come to behind its own. -/
structure Ahead (log : List (TickRecord n)) (saved now : Snapshot (Fin n) (WindowState n S)) :
    Prop where
  come : ∀ q w, saved.state.windows.Come q w → now.state.windows.Come q w
  passes : ∀ p ts, GetsPast log (saved.resumed (ohlcvJob subtask)) p ts → GetsPast log now p ts

lemma ahead {log : List (TickRecord n)}
    {sys : System (Fin n) (TickRecord n) (WindowState n S) StreamBar}
    (h : Machine.Reaches (Step (ohlcvJob subtask)) (System.fresh (ohlcvJob subtask) log) sys) :
    Ahead subtask sys.log sys.saved (sys.current (ohlcvJob subtask)) := by
  -- what a new attempt has of the source is nothing
  have hnone : ∀ (log : List (TickRecord n)) (saved : Snapshot (Fin n) (WindowState n S)) p ts,
      GetsPast log (saved.resumed (ohlcvJob subtask)) p ts →
        ∃ r ∈ (log.filter fun r => r.partition = p).drop (saved.position p),
          ∃ us ∈ r.eventTs, ts ≤ us := by
    rintro log saved p ts (⟨m, hm, _⟩ | hrest)
    · cases hm
    · exact hrest
  refine ahead_of_reaches (fun _ _ => ⟨fun _ _ hw => hw, fun _ _ hp => hp⟩)
    (fun log saved => ⟨fun _ _ hw => hw, fun p ts hp => .inr (hnone log saved p ts hp)⟩) ?_ ?_ h
  · -- a record that arrives is behind both positions
    intro log a saved now hle hahead
    refine ⟨hahead.come, fun p ts hp => ?_⟩
    have hle : now.position p ≤ (log.filter fun r => r.partition = p).length := hle p
    obtain ⟨r, hr, hpast⟩ := hnone _ _ p ts hp
    rw [List.filter_append, List.drop_append, List.mem_append] at hr
    rw [GetsPast, List.filter_append, List.drop_append, Nat.sub_eq_zero_of_le hle, List.drop_zero]
    rcases hr with hr | hr
    · rcases hahead.passes p ts (.inr ⟨r, hr, hpast⟩) with hmax | ⟨b, hb, hpast⟩
      · exact .inl hmax
      · exact .inr ⟨b, List.mem_append_left _ hb, hpast⟩
    · exact .inr ⟨r, List.mem_append_right _ (List.mem_of_mem_drop hr), hpast⟩
  · intro log saved now i s os hnext hstep hahead
    refine ⟨fun q w hw => ?_, fun p ts hp => (getsPast_next hnext hstep p ts).mpr
      (hahead.passes p ts hp)⟩
    exact (come_of_step hstep q w).mpr (.inl (hahead.come q w hw))

/-- What is possible from the checkpoint is possible in the running attempt. -/
lemma Ahead.possible {log : List (TickRecord n)} {saved now : Snapshot (Fin n) (WindowState n S)}
    (h : Ahead subtask log saved now) {key : WindowKey}
    (hsaved : Possible subtask log (saved.resumed (ohlcvJob subtask)) key) :
    Possible subtask log now key :=
  hsaved.imp (h.come _ _) fun hall p => h.passes p _ (hall p)

/-- **What is not possible does not become so** without new records, whatever fails. -/
lemma possible_before {log : List (TickRecord n)}
    {sys sys' : System (Fin n) (TickRecord n) (WindowState n S) StreamBar}
    (h : Machine.Reaches (Step (ohlcvJob subtask)) (System.fresh (ohlcvJob subtask) log) sys)
    (hreach : Machine.Reaches (Step (ohlcvJob subtask)) sys sys') (hlog : sys'.log = sys.log)
    {key : WindowKey}
    (hpossible : Possible subtask sys'.log (sys'.current (ohlcvJob subtask)) key) :
    Possible subtask sys.log (sys.current (ohlcvJob subtask)) key := by
  induction hreach using Relation.ReflTransGen.head_induction_on with
  | refl => exact hpossible
  | @head sys mid hstep hrest ih =>
      rcases hstep.current with ⟨a, hmore⟩ | ⟨hsame, hcurrent⟩
      · have hlength := (log_of_reaches hrest).length_le
        rw [hmore, hlog, List.length_append, List.length_singleton] at hlength
        omega
      · have hmid := ih (h.tail hstep) (hlog.trans hsame.symm)
        rw [hsame] at hmid
        rcases hcurrent with hnow | hnow | ⟨i, s, os, hnext, hstep, hnow⟩
        · rwa [hnow] at hmid
        · rw [hnow] at hmid
          exact (ahead h).possible hmid
        · rw [hnow] at hmid
          exact (possible_next hnext hstep key).mp hmid

/-- The current attempt, or a new one if none is running. -/
lemma reaches_attempt (sys : System (Fin n) (TickRecord n) (WindowState n S) StreamBar) :
    ∃ a, Machine.Reaches (Step (ohlcvJob subtask)) sys { sys with attempt := some a } ∧
      a.snapshot = sys.current (ohlcvJob subtask) := by
  cases hattempt : sys.attempt with
  | none =>
      refine ⟨_, .single (.restore hattempt), ?_⟩
      rw [System.current, hattempt]
  | some a =>
      refine ⟨a, ?_, ?_⟩
      · rw [← hattempt]
      · rw [System.current, hattempt]

/-- **What is possible can be reached**: read everything, let the watermark come, and commit. -/
lemma reaches_bar {log : List (TickRecord n)}
    {sys : System (Fin n) (TickRecord n) (WindowState n S) StreamBar}
    (h : Machine.Reaches (Step (ohlcvJob subtask)) (System.fresh (ohlcvJob subtask) log) sys)
    (horderly : Orderly sys.log)
    (htimed : ∀ tick ∈ ticksOf sys.log, tick.exchangeEventTs.isSome) {tick : BookTick}
    (htick : tick ∈ pricedTicks sys.log)
    (hpossible : Possible subtask sys.log (sys.current (ohlcvJob subtask)) tick.windowKey) :
    ∃ sys', Machine.Reaches (Step (ohlcvJob subtask)) sys sys' ∧ sys'.log = sys.log ∧
      ∃ bar ∈ sys'.table, bar.primaryKey = tick.windowKey := by
  obtain ⟨a, hfirst, hcurrent⟩ :
      ∃ a, Machine.Reaches (Step (ohlcvJob subtask)) sys { sys with attempt := some a } ∧
        a.snapshot = sys.current (ohlcvJob subtask) := reaches_attempt sys
  have hread : ∀ now : Snapshot (Fin n) (WindowState n S),
      Possible subtask sys.log now tick.windowKey → ∀ r ∈ sys.log, ∃ i result,
        (ohlcvJob subtask).Admits i ∧ (ohlcvJob subtask).record i = some r ∧
          (ohlcvJob subtask).step now.state i = .ok result := by
    intro now _ r hr
    obtain ⟨result, hresult⟩ := windowStep_read now.state fun tick htick =>
      htimed tick (List.mem_filterMap.mpr ⟨r, hr, htick⟩)
    exact ⟨.read r, result, trivial, rfl, hresult⟩
  have hle : ∀ p, a.snapshot.position p ≤ ((ohlcvJob subtask).inPartition p sys.log).length := by
    obtain ⟨_, hreads, _⟩ := (consistent_of_reaches (h.trans hfirst)).attempt a rfl
    exact hreads.le
  obtain ⟨b, hall, hend, hpossible⟩ := can_read_all hread
    (fun now i s os _ hnext hnow hstep => (possible_next hnext hstep _).mpr hnow)
    (show System.log { sys with attempt := some a } = sys.log from rfl) rfl (hcurrent ▸ hpossible) hle
  -- the window is closed, or the watermark closes it
  obtain ⟨c, hclose, hendC, hclosed⟩ : ∃ c : Attempt (Fin n) (WindowState n S) StreamBar,
      Machine.Reaches (Step (ohlcvJob subtask)) { sys with attempt := some b }
        { sys with attempt := some c } ∧ c.snapshot.AtEnd (ohlcvJob subtask) sys.log ∧
      c.snapshot.state.windows.Closed (tumble subtask) tick.windowKey := by
    rcases hpossible with hclosed | hpasses
    · exact ⟨b, .refl, hend, hclosed⟩
    · have hemit : b.snapshot.state.Emittable (lastOf tick.windowKey) := by
        intro p
        rcases hpasses p with ⟨m, hm, hpast⟩ | ⟨r, hr, _⟩
        · exact ⟨m, hm, by omega⟩
        · have hnone : (sys.log.filter fun r => r.partition = p).drop (b.snapshot.position p) = [] :=
            List.drop_eq_nil_of_le (hend p).ge
          rw [hnone] at hr
          cases hr
      have hstep : windowStep subtask b.snapshot.state
          (.watermark (subtask (tick.exchange, tick.symbol)) (lastOf tick.windowKey)) = .ok (_, _) :=
        if_pos hemit
      have hnext : (ohlcvJob subtask).IsNext sys.log b.snapshot.position
          (.watermark (subtask (tick.exchange, tick.symbol)) (lastOf tick.windowKey)) := by
        rintro r ⟨⟩
      refine ⟨_, .single (.read rfl trivial hnext hstep), fun p => ?_,
        (come_of_step hstep _ _).mpr (.inr ⟨_, rfl, hemit, le_refl _⟩)⟩
      have hsame : (ohlcvJob subtask).advance b.snapshot.position
          (.watermark (subtask (tick.exchange, tick.symbol)) (lastOf tick.windowKey)) p
            = b.snapshot.position p := rfl
      exact hsame.trans (hend p)
  have hmore := (hfirst.trans hall).trans hclose
  obtain ⟨es, accepted, given, hreads, hbars, hran⟩ :=
    ran_of_computes ((consistent_of_reaches (h.trans hmore)).attempt c rfl)
  -- everything was read
  have heq : ∀ p, (es.filterMap WindowElement.record).filter (fun r => r.partition = p)
      = sys.log.filter fun r => r.partition = p := by
    intro p
    have hp := hreads.eq p
    rwa [hendC p, List.take_length] at hp
  have hin : ∀ r ∈ sys.log, r ∈ es.filterMap WindowElement.record := by
    intro r hr
    have hmem : r ∈ sys.log.filter fun r' => r'.partition = r.partition :=
      List.mem_filter.mpr ⟨hr, decide_eq_true rfl⟩
    rw [← heq r.partition] at hmem
    exact List.mem_of_mem_filter hmem
  have hgiven := hran.given_of_closed (fun p => by rw [heq p]; exact horderly p)
    (mem_pricedTicks_of_subset hin htick) hclosed
  obtain ⟨bar, hbar, hkey⟩ := mem_barsOf.mpr hgiven
  refine ⟨_, hmore.trans (reaches_finish rfl), rfl, bar, ?_, hkey⟩
  rw [← hbars, List.append_assoc] at hbar
  exact hbar

/-- Before anything is read, everything is ahead. -/
lemma possible_fresh {log : List (TickRecord n)} {key : WindowKey}
    (hpassed : ∀ p, ∃ r ∈ log, r.partition = p ∧ ∃ ts ∈ r.eventTs,
      lastOf key + outOfOrderness ≤ ts) :
    Possible subtask log ((System.fresh (ohlcvJob subtask) log).current (ohlcvJob subtask)) key := by
  refine .inr fun p => .inr ?_
  obtain ⟨r, hr, hp, hpast⟩ := hpassed p
  exact ⟨r, List.mem_filter.mpr ⟨hr, decide_eq_true hp⟩, hpast⟩

/-- A tick of partition `p` at `seconds`. -/
def tickAt (p : Fin 2) (seconds : ℤ) : TickRecord 2 where
  partition := p
  tick := some ⟨"binance", "btcusdt", some (seconds * 1000 * 1000), some 100, some 1⟩
  millis := by
    rintro t ⟨⟩ ts ⟨⟩
    exact Dvd.intro_left _ rfl

/-- Two minutes of two partitions, one of them a little out of order. -/
def twoMinutes : List (TickRecord 2) :=
  [tickAt 0 59, tickAt 0 57, tickAt 1 66, tickAt 0 65]

lemma twoMinutes_orderly : Orderly twoMinutes := by decide +kernel

lemma twoMinutes_timed : ∀ tick ∈ ticksOf twoMinutes, tick.exchangeEventTs.isSome := by
  decide +kernel

/-- A run in which the first minute gets its bar. -/
lemma reaches_sample_bar :
    ∃ sys, Machine.Reaches (Step (ohlcvJob fun _ => ()))
        (System.fresh (ohlcvJob fun _ => ()) twoMinutes) sys ∧
      sys.log = twoMinutes ∧ sys.table ≠ [] := by
  have hin : ⟨"binance", "btcusdt", some 59000000, some 100, some 1⟩ ∈ pricedTicks twoMinutes := by
    decide +kernel
  obtain ⟨sys, hreach, hlog, bar, hbar, _⟩ := reaches_bar (Relation.ReflTransGen.refl
    (a := System.fresh (ohlcvJob fun _ => ()) twoMinutes)) twoMinutes_orderly twoMinutes_timed hin
    (possible_fresh (by decide +kernel))
  exact ⟨sys, hreach, hlog, List.ne_nil_of_mem hbar⟩

/-- **One bar for each window.**  Whatever arrives late, and wherever attempts fail and are restored:
the bars in the table and prepared for it are what the query gives for a part of the ticks read, in
the order they were read, and no two have the same primary key. -/
theorem bars_unique (subtask : String × String → S) {log : List (TickRecord n)}
    {sys : System (Fin n) (TickRecord n) (WindowState n S) StreamBar}
    (h : Machine.Reaches (Step (ohlcvJob subtask)) (System.fresh (ohlcvJob subtask) log) sys) :
    ∃ es ticks bars, Reads (ohlcvJob subtask) sys.log sys.saved.position es ∧
      ticks.Sublist (ticksOf (es.filterMap WindowElement.record)) ∧
      streamQuery ticks = some bars ∧ (sys.table ++ sys.prepared).Perm bars ∧
      ((sys.table ++ sys.prepared).map StreamBar.primaryKey).Nodup := by
  obtain ⟨es, accepted, given, hreads, hbars, hran⟩ :=
    ran_of_computes (consistent_of_reaches h).saved
  have hgroups := hran.windows.given
  have hpart : (accepted.filter fun a => sys.saved.state.windows.Closed (tumble subtask) a.windowKey)
      |>.Sublist (pricedTicks (es.filterMap WindowElement.record)) :=
    List.filter_sublist.trans hran.part
  refine ⟨es, _, _, hreads, hpart.trans List.filter_sublist, streamQuery_of_timed ?_, ?_, ?_⟩
  · intro tick htick
    exact hran.timed tick (List.mem_of_mem_filter (hpart.subset htick))
  · rw [hbars]
    refine (hgroups.map _).trans (List.Perm.of_eq ?_)
    rw [List.filter_eq_self.mpr fun tick htick =>
      (List.mem_filter.mp (hpart.subset htick)).2]
    rfl
  · rw [hbars, primaryKey_barsOf]
    exact ((hgroups.map Prod.fst).nodup_iff).mpr (Sql.nodup_keys_groupBy _ _)

theorem bars_unique_sample :
    ∃ sys, Machine.Reaches (Step (ohlcvJob fun _ => ()))
        (System.fresh (ohlcvJob fun _ => ()) twoMinutes) sys ∧ sys.table ≠ [] ∧
      ((sys.table ++ sys.prepared).map StreamBar.primaryKey).Nodup ∧
      ∃ ticks bars, (∀ tick ∈ ticks, tick ∈ ticksOf twoMinutes) ∧
        streamQuery ticks = some bars ∧ (sys.table ++ sys.prepared).Perm bars := by
  obtain ⟨sys, hreach, hlog, hne⟩ := reaches_sample_bar
  obtain ⟨es, ticks, bars, hreads, hpart, hquery, hbars, hnodup⟩ :=
    bars_unique (fun _ => ()) hreach
  refine ⟨sys, hreach, hne, hnodup, ticks, bars, fun tick htick => ?_, hquery, hbars⟩
  obtain ⟨r, hr, hsome⟩ := List.mem_filterMap.mp (hpart.subset htick)
  obtain ⟨i, hi, hrecord⟩ := List.mem_filterMap.mp hr
  exact List.mem_filterMap.mpr ⟨r, hlog ▸ hreads.mem hi hrecord, hsome⟩

/-- What was read of a partition lies in front of the position. -/
lemma mem_take_of_read {log : List (TickRecord n)} {position : Fin n → ℕ}
    {es : List (WindowElement n S)} (hreads : Reads (ohlcvJob subtask) log position es)
    {r : TickRecord n} (hr : r ∈ es.filterMap WindowElement.record) {p : Fin n}
    (hpartition : r.partition = p) :
    r ∈ ((ohlcvJob subtask).inPartition p log).take (position p) := by
  rw [← hreads.eq]
  exact List.mem_filter.mpr ⟨hr, decide_eq_true hpartition⟩

/-- In order, nothing that is left to read belongs to a window that is closed. -/
lemma rest_open {log rest : List (TickRecord n)} {position : Fin n → ℕ}
    {es : List (WindowElement n S)} (hreads : Reads (ohlcvJob subtask) log position es)
    {s : WindowState n S} {accepted : List BookTick} {given : List (WindowKey × List BookTick)}
    (hran : Ran subtask (es.filterMap WindowElement.record) s accepted given)
    (horderly : Orderly log)
    (hrest : ∀ r ∈ rest, r ∈ ((ohlcvJob subtask).inPartition r.partition log).drop
      (position r.partition))
    {r : TickRecord n} (hr : r ∈ rest) {tick : BookTick} {ts : ℤ} (htick : r.tick = some tick)
    (hts : tick.exchangeEventTs = some ts) :
    ¬ s.windows.Closed (tumble subtask) tick.windowKey := by
  refine hran.in_time (fun past hpast hpartition => ?_) htick hts
  have hpairs : ((ohlcvJob subtask).inPartition r.partition log).Pairwise InOrder :=
    horderly r.partition
  rw [← List.take_append_drop (position r.partition) ((ohlcvJob subtask).inPartition _ log),
    List.pairwise_append] at hpairs
  exact hpairs.2.2 past (mem_take_of_read hreads hpast hpartition) r (hrest r hr)

/-- In order, all ticks of closed windows are accepted, those that are left to read included. -/
lemma closed_eq_accepted {log rest : List (TickRecord n)} {position : Fin n → ℕ}
    {es : List (WindowElement n S)} (hreads : Reads (ohlcvJob subtask) log position es)
    {s : WindowState n S} {accepted : List BookTick} {given : List (WindowKey × List BookTick)}
    (hran : Ran subtask (es.filterMap WindowElement.record) s accepted given)
    (horderly : Orderly log)
    (hrest : ∀ r ∈ rest, r ∈ ((ohlcvJob subtask).inPartition r.partition log).drop
      (position r.partition))
    (htimed : ∀ tick ∈ ticksOf rest, tick.exchangeEventTs.isSome) :
    (pricedTicks (es.filterMap WindowElement.record ++ rest)).filter
        (fun a => s.windows.Closed (tumble subtask) a.windowKey)
      = accepted.filter fun a => s.windows.Closed (tumble subtask) a.windowKey := by
  have hread : Orderly (es.filterMap WindowElement.record) := by
    intro p
    have := hreads.eq p
    rw [show (es.filterMap WindowElement.record).filter (fun r => r.partition = p) = _ from this]
    exact (horderly p).sublist (List.take_sublist _ _)
  have hnone : (pricedTicks rest).filter
      (fun a => s.windows.Closed (tumble subtask) a.windowKey) = [] := by
    refine List.filter_eq_nil_iff.mpr fun tick htick => ?_
    have hin : tick ∈ ticksOf rest := List.mem_of_mem_filter htick
    obtain ⟨r, hr, hsome⟩ := List.mem_filterMap.mp hin
    obtain ⟨ts, hts⟩ := Option.isSome_iff_exists.mp (htimed tick hin)
    simpa using rest_open hreads hran horderly hrest hr hsome hts
  rw [pricedTicks_append, List.filter_append, hnone, List.append_nil, hran.all hread]

/-- **The table is the query.**  If no partition is five seconds out of order and every tick has an
event time, then whatever fails and in whatever order the partitions are read, the bars in the table
and prepared for it are those that the query gives for all ticks of the topic, for the windows that
the saved watermarks have closed.  The ticks are in an order in which the partitions can be read: first
as they were read up to the saved positions, then the rest of each partition. -/
theorem bars_complete (subtask : String × String → S) {log : List (TickRecord n)}
    {sys : System (Fin n) (TickRecord n) (WindowState n S) StreamBar}
    (h : Machine.Reaches (Step (ohlcvJob subtask)) (System.fresh (ohlcvJob subtask) log) sys)
    (horderly : Orderly sys.log)
    (htimed : ∀ tick ∈ ticksOf sys.log, tick.exchangeEventTs.isSome) :
    ∃ es rest bars, Reads (ohlcvJob subtask) sys.log sys.saved.position es ∧
      Reads (ohlcvJob subtask) sys.log ((ohlcvJob subtask).counts sys.log) (es ++ rest) ∧
      streamQuery (ticksOf ((es ++ rest).filterMap WindowElement.record)) = some bars ∧
      (sys.table ++ sys.prepared).Perm (bars.filter fun bar =>
        sys.saved.state.windows.Closed (tumble subtask) bar.primaryKey) := by
  obtain ⟨es, accepted, given, hreads, hbars, hran⟩ :=
    ran_of_computes (consistent_of_reaches h).saved
  obtain ⟨rest, hall⟩ := hreads.exists_all fun r _ => ⟨.read r, trivial, rfl⟩
  have htimedAll : ∀ tick ∈ ticksOf ((es ++ rest).filterMap WindowElement.record),
      tick.exchangeEventTs.isSome := by
    intro tick htick
    obtain ⟨r, hr, hsome⟩ := List.mem_filterMap.mp htick
    obtain ⟨i, hi, hrecord⟩ := List.mem_filterMap.mp hr
    exact htimed tick (List.mem_filterMap.mpr ⟨r, hall.mem hi hrecord, hsome⟩)
  refine ⟨es, rest, _, hreads, hall, streamQuery_of_timed htimedAll, ?_⟩
  rw [List.filterMap_append] at htimedAll ⊢
  have hrest : ∀ r ∈ rest.filterMap WindowElement.record,
      r ∈ ((ohlcvJob subtask).inPartition r.partition sys.log).drop
        (sys.saved.position r.partition) := by
    intro r hr
    rw [← hreads.rest_eq hall]
    exact List.mem_filter.mpr ⟨hr, decide_eq_true rfl⟩
  have htimedRest : ∀ tick ∈ ticksOf (rest.filterMap WindowElement.record),
      tick.exchangeEventTs.isSome := by
    intro tick htick
    obtain ⟨r, hr, hsome⟩ := List.mem_filterMap.mp htick
    exact htimedAll tick (List.mem_filterMap.mpr ⟨r, List.mem_append_right _ hr, hsome⟩)
  have hclosed := closed_eq_accepted hreads hran horderly hrest htimedRest
  rw [hbars]
  refine ((hran.windows.given).map _).trans ?_
  have hfilter := Windows.filter_groupBy_perm BookTick.windowKey
    (pricedTicks (es.filterMap WindowElement.record ++ rest.filterMap WindowElement.record))
    (fun k => sys.saved.state.windows.Closed (tumble subtask) k)
  rw [hclosed] at hfilter
  refine (hfilter.map _).symm.trans (List.Perm.of_eq ?_)
  rw [barsOf, List.filter_map]
  rfl

theorem bars_complete_sample :
    ∃ sys, Machine.Reaches (Step (ohlcvJob fun _ => ()))
        (System.fresh (ohlcvJob fun _ => ()) twoMinutes) sys ∧ sys.table ≠ [] ∧
      ∃ (es : List (WindowElement 2 Unit)) (bars : List StreamBar),
        Reads (ohlcvJob fun _ => ()) twoMinutes ((ohlcvJob fun _ => ()).counts twoMinutes) es ∧
        streamQuery (ticksOf (es.filterMap WindowElement.record)) = some bars ∧
        (sys.table ++ sys.prepared).Subperm bars := by
  obtain ⟨sys, hreach, hlog, hne⟩ := reaches_sample_bar
  obtain ⟨es, rest, bars, _, hall, hquery, hbars⟩ := bars_complete (fun _ => ()) hreach
    (hlog ▸ twoMinutes_orderly) (hlog ▸ twoMinutes_timed)
  exact ⟨sys, hreach, hne, es ++ rest, bars, hlog ▸ hall, hquery,
    hbars.subperm.trans List.filter_sublist.subperm⟩

/-- **When a window gets its bar.**  If no partition is five seconds out of order and every tick has
an event time, then from a state reached, whatever failed before, the bar of a window can get into
the table without new records if and only if the topic has a tick with a price in the window and
either the window is closed, or every partition comes five seconds past its end in what the running
attempt has read or has still to read.  One silent partition holds back everything; and so does a
failure behind the last records, since the next attempt does not know how far the source was. -/
theorem bar_possible_iff (subtask : String × String → S) {log : List (TickRecord n)}
    {sys : System (Fin n) (TickRecord n) (WindowState n S) StreamBar}
    (h : Machine.Reaches (Step (ohlcvJob subtask)) (System.fresh (ohlcvJob subtask) log) sys)
    (horderly : Orderly sys.log)
    (htimed : ∀ tick ∈ ticksOf sys.log, tick.exchangeEventTs.isSome) (key : WindowKey) :
    (∃ sys', Machine.Reaches (Step (ohlcvJob subtask)) sys sys' ∧ sys'.log = sys.log ∧
        ∃ bar ∈ sys'.table, bar.primaryKey = key) ↔
      (∃ tick ∈ pricedTicks sys.log, tick.windowKey = key) ∧
        Possible subtask sys.log (sys.current (ohlcvJob subtask)) key := by
  constructor
  · rintro ⟨sys', hreach, hlog, bar, hbar, rfl⟩
    obtain ⟨es, accepted, given, hreads, hbars, hran⟩ :=
      ran_of_computes (consistent_of_reaches (h.trans hreach)).saved
    have hin : ∀ r ∈ es.filterMap WindowElement.record, r ∈ sys.log := by
      intro r hr
      obtain ⟨i, hi, hrecord⟩ := List.mem_filterMap.mp hr
      exact hlog ▸ hreads.mem hi hrecord
    have hkey : bar.primaryKey ∈ given.map Prod.fst :=
      mem_barsOf.mp ⟨bar, hbars ▸ List.mem_append_left _ hbar, rfl⟩
    rw [(hran.windows.given.map Prod.fst).mem_iff, Sql.mem_keys_groupBy, List.mem_map] at hkey
    obtain ⟨tick, htick, hwindow⟩ := hkey
    obtain ⟨haccepted, hin_time⟩ := List.mem_filter.mp htick
    refine ⟨⟨tick, mem_pricedTicks_of_subset hin (hran.part.subset haccepted), hwindow⟩, ?_⟩
    have hclosed : sys'.saved.state.windows.Closed (tumble subtask) tick.windowKey :=
      of_decide_eq_true hin_time
    rw [← hwindow]
    exact possible_before h hreach hlog (.inl ((ahead (h.trans hreach)).come _ _ hclosed))
  · rintro ⟨⟨tick, htick, rfl⟩, hpossible⟩
    exact reaches_bar h horderly htimed htick hpossible

/-- From the start the first minute can get its bar; once all records are read and saved without a
watermark, and the attempt has failed, it can not. -/
theorem bar_possible_iff_sample :
    (∃ sys', Machine.Reaches (Step (ohlcvJob fun _ => ()))
        (System.fresh (ohlcvJob fun _ => ()) twoMinutes) sys' ∧ sys'.log = twoMinutes ∧
      ∃ bar ∈ sys'.table, bar.primaryKey = ("binance", "btcusdt", 0)) ∧
    ∃ sys, Machine.Reaches (Step (ohlcvJob fun _ => ()))
        (System.fresh (ohlcvJob fun _ => ()) twoMinutes) sys ∧ sys.log = twoMinutes ∧
      sys.saved.AtEnd (ohlcvJob fun _ => ()) twoMinutes ∧
      ¬ ∃ sys', Machine.Reaches (Step (ohlcvJob fun _ => ())) sys sys' ∧ sys'.log = sys.log ∧
        ∃ bar ∈ sys'.table, bar.primaryKey = ("binance", "btcusdt", 0) := by
  constructor
  · refine (bar_possible_iff (fun _ => ()) .refl twoMinutes_orderly twoMinutes_timed _).mpr
      ⟨⟨_, List.mem_of_mem_head? rfl, rfl⟩, possible_fresh (by decide +kernel)⟩
  · obtain ⟨s, hrun, hopen⟩ : ∃ s : WindowState 2 Unit,
        Transducer.run (ohlcvJob fun _ => ()).step (ohlcvJob (n := 2) fun _ => ()).start
          (twoMinutes.map .read) = .ok (s, []) ∧
        ¬ s.windows.Closed (tumble fun _ => ()) ("binance", "btcusdt", 0) :=
      ⟨_, rfl, by decide +kernel⟩
    obtain ⟨sys, hreach, hlog, hend, hstate, _⟩ := @reaches_failed_once _ _ _ _ _ _ _
      (ohlcvJob fun _ => ()) twoMinutes twoMinutes [] (twoMinutes.map .read) _ s _ _ rfl rfl
      (fun _ _ => trivial) (fun _ _ => trivial) rfl hrun
    refine ⟨_, hreach.tail (.fail sys), hlog, hend, fun h => ?_⟩
    obtain ⟨_, hclosed | hpasses⟩ := (bar_possible_iff (fun _ => ()) (hreach.tail (.fail sys))
      (hlog ▸ twoMinutes_orderly) (hlog ▸ twoMinutes_timed) _).mp h
    · exact hopen (hstate ▸ hclosed)
    · rcases hpasses 0 with ⟨m, hm, _⟩ | ⟨r, hr, _⟩
      · cases hm
      · have hnone : (sys.log.filter fun r => r.partition = 0).drop (sys.saved.position 0) = [] := by
          rw [hlog]
          exact List.drop_eq_nil_of_le (hend 0).ge
        have hr : r ∈ (sys.log.filter fun r => r.partition = 0).drop (sys.saved.position 0) := hr
        rw [hnone] at hr
        cases hr

/-! ## Ticks that come again -/

/-- The first time a tick is in a partition, it is in order: by induction on what is before it. -/
lemma OrderlyButRepeats.exists_first {records : List (TickRecord n)} (h : OrderlyButRepeats records)
    {p : Fin n} {before after : List (TickRecord n)} {r : TickRecord n}
    (hsplit : (records.filter fun r => r.partition = p) = before ++ r :: after) :
    ∃ front first back, (records.filter fun r => r.partition = p) = front ++ first :: back ∧
      first.tick = r.tick ∧ ∀ a ∈ front, InOrder a first := by
  induction hlength : before.length using Nat.strong_induction_on generalizing before r after with
  | _ length ih =>
      rcases h p before r after hsplit with hinorder | ⟨a, ha, hsame⟩
      · exact ⟨before, r, after, hsplit, rfl, hinorder⟩
      · obtain ⟨front, back, rfl⟩ := List.append_of_mem ha
        rw [List.append_assoc, List.cons_append] at hsplit
        obtain ⟨front', first, back', hfirst, htick, hinorder⟩ :=
          ih front.length (by simp [← hlength]) hsplit rfl
        exact ⟨front', first, back', hfirst, htick.trans hsame, hinorder⟩

/-- If only repeated ticks are out of order, every tick of a closed window was read: where it is in
its partition for the first time, it is in front of the position. -/
lemma closed_tick_read {log : List (TickRecord n)} {position : Fin n → ℕ}
    {es : List (WindowElement n S)} (hreads : Reads (ohlcvJob subtask) log position es)
    {s : WindowState n S} {accepted : List BookTick} {given : List (WindowKey × List BookTick)}
    (hran : Ran subtask (es.filterMap WindowElement.record) s accepted given)
    (horder : OrderlyButRepeats log) (htimed : ∀ tick ∈ ticksOf log, tick.exchangeEventTs.isSome)
    {tick : BookTick} (htick : tick ∈ pricedTicks log)
    (hclosed : s.windows.Closed (tumble subtask) tick.windowKey) :
    tick ∈ pricedTicks (es.filterMap WindowElement.record) := by
  obtain ⟨hmem, hpriced⟩ := List.mem_filter.mp htick
  obtain ⟨ts, hts⟩ := Option.isSome_iff_exists.mp (htimed tick hmem)
  obtain ⟨r, hr, hsome⟩ := List.mem_filterMap.mp hmem
  obtain ⟨before, after, hsplit⟩ := List.append_of_mem
    (show r ∈ log.filter fun a => a.partition = r.partition from
      List.mem_filter.mpr ⟨hr, decide_eq_true rfl⟩)
  obtain ⟨front, first, back, hfirst, hsame, hinorder⟩ := horder.exists_first hsplit
  have hin : first ∈ log.filter fun a => a.partition = r.partition := by simp [hfirst]
  have hpartition : first.partition = r.partition := of_decide_eq_true (List.mem_filter.mp hin).2
  have hinPartition : (ohlcvJob subtask).inPartition r.partition log = front ++ first :: back :=
    hfirst
  by_cases hlt : front.length < position r.partition
  · have hread : first ∈ (es.filterMap WindowElement.record).filter
        fun a => a.partition = r.partition := by
      rw [show (es.filterMap WindowElement.record).filter (fun a => a.partition = r.partition) = _
        from hreads.eq r.partition, hinPartition, List.take_append, List.mem_append]
      refine .inr ?_
      rw [List.take_cons (by omega)]
      exact List.mem_cons_self
    exact List.mem_filter.mpr ⟨List.mem_filterMap.mpr
      ⟨first, List.mem_of_mem_filter hread, hsame.trans hsome⟩, hpriced⟩
  · refine absurd hclosed (hran.in_time (fun past hpast hp => ?_) (hsame.trans hsome) hts)
    have htake := mem_take_of_read hreads hpast (hp.trans hpartition)
    rw [hinPartition, List.take_append_of_le_length (Nat.not_lt.mp hlt)] at htake
    exact hinorder past (List.mem_of_mem_take htake)

/-- **The bars when ticks come again.**  If only repeated ticks are out of order, the bars are made
of the ticks of the closed windows, each at least once. -/
lemma bars_with_repeats {log : List (TickRecord n)}
    {sys : System (Fin n) (TickRecord n) (WindowState n S) StreamBar}
    (h : Machine.Reaches (Step (ohlcvJob subtask)) (System.fresh (ohlcvJob subtask) log) sys)
    (horder : OrderlyButRepeats sys.log)
    (htimed : ∀ tick ∈ ticksOf sys.log, tick.exchangeEventTs.isSome) :
    ∃ ticks : List BookTick,
      (sys.table ++ sys.prepared).Perm (barsOf (Sql.groupBy BookTick.windowKey ticks)) ∧
      ∀ tick, tick ∈ ticks ↔ tick ∈ pricedTicks sys.log ∧
        sys.saved.state.windows.Closed (tumble subtask) tick.windowKey := by
  obtain ⟨es, accepted, given, hreads, hbars, hran⟩ :=
    ran_of_computes (consistent_of_reaches h).saved
  refine ⟨accepted.filter fun a => sys.saved.state.windows.Closed (tumble subtask) a.windowKey, ?_,
    fun tick => ?_⟩
  · rw [hbars]
    exact hran.windows.given.map _
  rw [List.mem_filter, decide_eq_true_eq]
  refine ⟨fun ⟨htick, hclosed⟩ => ⟨?_, hclosed⟩, fun ⟨htick, hclosed⟩ => ⟨?_, hclosed⟩⟩
  · refine mem_pricedTicks_of_subset (fun r hr => ?_) (hran.part.subset htick)
    obtain ⟨i, hi, hrecord⟩ := List.mem_filterMap.mp hr
    exact hreads.mem hi hrecord
  · refine hran.kept ?_ (closed_tick_read hreads hran horder htimed htick hclosed)
    -- what was read of a partition is the beginning of it
    intro p before r after heq
    have hprefix := hreads.eq p
    rw [show (es.filterMap WindowElement.record).filter (fun a => a.partition = p) = _ from hprefix]
      at heq
    refine horder p before r
      (after ++ ((ohlcvJob subtask).inPartition p sys.log).drop (sys.saved.position p)) ?_
    rw [← List.cons_append, ← List.append_assoc, ← heq, List.take_append_drop]
    rfl

end Run

end Ticksense
