import Ticksense.Ingest.OrderBook
import Ticksense.Lib.Lockstep

/-!
# Where the snapshot falls among the diffs

The diffs that arrive before the snapshot response are replayed by `initialize`, the ones after it
are given to `apply`.  Which is which depends on how long the request takes.  `initialize` has its
own copies of the staleness and gap tests; both are `OrderBook.takeDiff`, with another text.

* `takeDiff_agree` — on books with the same contents, `takeDiff` leads to the same contents or
  raises the same exception, whatever the texts.
* `race_point_does_not_matter` — hence every split of the diffs gives the book that `initialize`
  gives when all of them are in its buffer, or raises a gap at the same diff.
-/

namespace Ticksense

open Lockstep

namespace OrderBook

/-- `initialize` with the first `k` diffs in the buffer, then `apply` for each of the others. -/
def initializeThenApply (book : OrderBook) (snapshot : BinanceDepthSnapshot) (k : ℕ)
    (events : List BinanceDepthEvent) : Except (PyError × OrderBook) OrderBook :=
  match book.initializeFrom snapshot (events.take k) with
  | .error e => .error e
  | .ok book => book.applyAll (events.drop k)

/-! ## Two loops in a row -/

lemma initializeFrom_eq (book : OrderBook) (snapshot : BinanceDepthSnapshot) :
    book.initializeFrom snapshot = List.foldlM (takeDiff bufferGap) (book.load snapshot) :=
  funext (replayBuffer_eq_foldlM (book.load snapshot))

/-- `initialize` and the live diffs after it are the two loops in a row. -/
lemma initializeThenApply_eq (book : OrderBook) (snapshot : BinanceDepthSnapshot) (k : ℕ) :
    book.initializeThenApply snapshot k = fun events =>
      (events.take k).foldlM (takeDiff bufferGap) (book.load snapshot)
        >>= (events.drop k).foldlM (takeDiff liveGap) := by
  funext events
  rw [initializeThenApply, initializeFrom_eq]
  cases (events.take k).foldlM (takeDiff bufferGap) (book.load snapshot) with
  | error r => rfl
  | ok book' => exact applyAll_eq_foldlM book' (events.drop k)

lemma final_initializeFrom (book : OrderBook) (snapshot : BinanceDepthSnapshot) :
    Final (book.initializeFrom snapshot) := by
  rw [initializeFrom_eq]
  exact final_foldlM _ _

lemma final_initializeThenApply (book : OrderBook) (snapshot : BinanceDepthSnapshot) (k : ℕ) :
    Final (book.initializeThenApply snapshot k) := by
  rw [initializeThenApply_eq]
  exact final_foldlM_foldlM _ _ _ k

/-! ## The same contents -/

/-- The books hold the same levels at the same id; they may have different symbols. -/
structure SameContents (b c : OrderBook) : Prop where
  bids : b.bids = c.bids
  asks : b.asks = c.asks
  lastUpdateId : b.lastUpdateId = c.lastUpdateId

/-- The same exception, if gaps are not told apart by their texts. -/
inductive SameException : PyError → PyError → Prop
  | gap (message message' : String) :
      SameException (.gapDetectedError message) (.gapDetectedError message')
  | refl (e : PyError) : SameException e e

lemma SameContents.symm {b c : OrderBook} (h : SameContents b c) : SameContents c b :=
  ⟨h.bids.symm, h.asks.symm, h.lastUpdateId.symm⟩

lemma SameException.eq_gap {message : String} {e : PyError}
    (h : SameException (.gapDetectedError message) e) :
    ∃ message', e = .gapDetectedError message' := by
  cases h with
  | gap _ message' => exact ⟨message', rfl⟩
  | refl => exact ⟨message, rfl⟩

/-- The same exception, raised over books with the same contents. -/
def SameRaise (r s : PyError × OrderBook) : Prop :=
  SameException r.1 s.1 ∧ SameContents r.2 s.2

/-- Loading a snapshot overwrites what was in the book. -/
lemma sameContents_load (b c : OrderBook) (snapshot : BinanceDepthSnapshot) :
    SameContents (b.load snapshot) (c.load snapshot) := ⟨rfl, rfl, rfl⟩

lemma applyDiff_agree {b c : OrderBook} (h : SameContents b c) (event : BinanceDepthEvent) :
    Agree SameContents SameRaise (b.applyDiff event) (c.applyDiff event) := by
  rw [applyDiff, applyDiff, h.bids, h.asks]
  cases applyLevels c.bids event.bids with
  | error r => exact .error ⟨.refl r.1, rfl, rfl, h.lastUpdateId⟩
  | ok bids =>
      cases applyLevels c.asks event.asks with
      | error r => exact .error ⟨.refl r.1, rfl, rfl, h.lastUpdateId⟩
      | ok asks => exact .ok ⟨rfl, rfl, rfl⟩

/-- **One diff** leads to the same contents, or raises the same exception. -/
theorem takeDiff_agree (gap gap' : OrderBook → BinanceDepthEvent → String) {b c : OrderBook}
    (h : SameContents b c) (event : BinanceDepthEvent) :
    Agree SameContents SameRaise (b.takeDiff gap event) (c.takeDiff gap' event) := by
  rw [takeDiff, takeDiff, h.lastUpdateId]
  split_ifs with hstale hgap
  · exact .ok h
  · exact .error ⟨.gap _ _, h⟩
  · exact applyDiff_agree h event

/-- **Every split** agrees with `initialize` on all the diffs, whatever the quantities are. -/
theorem initialize_agree (b c : OrderBook) (snapshot : BinanceDepthSnapshot) (k : ℕ)
    (events : List BinanceDepthEvent) :
    Agree SameContents SameRaise (c.initializeFrom snapshot events)
      (b.initializeThenApply snapshot k events) := by
  have hloop : ∀ (gap gap' : OrderBook → BinanceDepthEvent → String)
      (events : List BinanceDepthEvent) {b c : OrderBook}, SameContents b c →
      Agree SameContents SameRaise (events.foldlM (takeDiff gap) b)
        (events.foldlM (takeDiff gap') c) := by
    intro gap gap' events b c hbc
    exact Agree.foldlM (fun event _ b c h => takeDiff_agree gap gap' h event) hbc
  have hwhole : c.initializeFrom snapshot events
      = (events.take k).foldlM (takeDiff bufferGap) (c.load snapshot)
          >>= (events.drop k).foldlM (takeDiff bufferGap) := by
    rw [initializeFrom_eq, ← List.foldlM_append, List.take_append_drop]
  rw [hwhole, initializeThenApply_eq]
  refine (hloop _ _ _ (sameContents_load c b snapshot)).bind ?_
  intro c' b' h
  exact hloop _ _ _ h

/-! ## Gaps -/

/-- A gap raised by `apply` leaves the book as it was. -/
lemma eq_of_apply_gap {book book' : OrderBook} {event : BinanceDepthEvent} {message : String}
    (h : book.apply event = .error (.gapDetectedError message, book')) : book' = book := by
  rw [apply] at h
  split_ifs at h with hstale hgap
  · cases h
    rfl
  · have hvalue := eq_valueError_of_applyDiff h
    cases hvalue

/-- **The race point does not matter.**  On diffs with float quantities, `initialize` with the first
`k` of them and `apply` for each of the others gives the book that `initialize` with all of them
gives, or raises a gap at the same diff over the same contents.  The book before the snapshot counts
for its symbol only, and not even for that as far as the contents go.  An `apply` that raises a gap
leaves the book unchanged. -/
theorem race_point_does_not_matter (prior prior' : OrderBook) (snapshot : BinanceDepthSnapshot)
    {events : List BinanceDepthEvent}
    (hfloat : ∀ event ∈ events, ∀ side, FloatQuantities (event.levels side)) (k : ℕ) :
    ((∃ b c, prior.initializeThenApply snapshot k events = .ok b ∧
        prior'.initializeFrom snapshot events = .ok c ∧ SameContents b c) ∨
      ∃ i message b message' c,
        StopsAt (prior.initializeThenApply snapshot k) events i (.gapDetectedError message, b) ∧
        StopsAt (prior'.initializeFrom snapshot) events i (.gapDetectedError message', c) ∧
        SameContents b c) ∧
      (prior.symbol = prior'.symbol → prior.initializeThenApply snapshot k events
        = prior'.initializeThenApply snapshot k events) ∧
      ∀ (book book' : OrderBook) (event : BinanceDepthEvent) (message : String),
        book.apply event = .error (.gapDetectedError message, book') → book' = book := by
  refine ⟨?_, ?_, fun book book' event message h => eq_of_apply_gap h⟩
  · have hagree := initialize_agree prior prior' snapshot k
    cases hwhole : prior'.initializeFrom snapshot events with
    | ok c =>
        have hsplit := hagree events
        rw [hwhole] at hsplit
        obtain ⟨b, hb, hcb⟩ := hsplit.of_ok
        exact Or.inl ⟨b, c, hb, rfl, hcb.symm⟩
    | error r =>
        obtain ⟨e, c⟩ := r
        have hrefines := (prior'.load snapshot).replayBuffer_refines hfloat
        rw [← initializeFrom, hwhole] at hrefines
        obtain ⟨⟨message', rfl⟩, _⟩ := hrefines
        obtain ⟨i, hi⟩ := stopsAt_of_error (final_initializeFrom prior' snapshot) ⟨_, rfl⟩ hwhole
        obtain ⟨⟨e, b⟩, ⟨hsame, hcb⟩, hsplit⟩ :=
          hi.of_agree (final_initializeThenApply prior snapshot k) hagree
        obtain ⟨message, rfl⟩ := hsame.eq_gap
        exact Or.inr ⟨i, message, b, message', c, hsplit, hi, hcb.symm⟩
  · intro hsymbol
    have hload : prior.load snapshot = prior'.load snapshot := by
      rw [load, load, hsymbol]
    rw [initializeThenApply, initializeThenApply, initializeFrom, initializeFrom, hload]

/-- Two diffs with an id missing between them. -/
def gappedEvents : List BinanceDepthEvent :=
  [⟨"depthUpdate", 1704067200000, "BTCUSDT", 4, 7, [("99", "0"), ("98", "1")], []⟩,
    ⟨"depthUpdate", 1704067200100, "BTCUSDT", 9, 9, [("98", "0")], []⟩]

lemma gappedEvents_float :
    ∀ event ∈ gappedEvents, ∀ side, FloatQuantities (event.levels side) := by
  intro event hevent side
  rcases List.mem_pair.mp hevent with rfl | rfl
  · cases side <;> decide +kernel
  · cases side <;> decide +kernel

theorem race_point_sample :
    ∃ i message b message' c,
      StopsAt ((new "btcusdt").initializeThenApply ⟨5, [("99", "2")], []⟩ 1) gappedEvents i
        (.gapDetectedError message, b) ∧
      StopsAt (initializeFrom ⟨"ethusdt", 100, Dict.ofList [("1", "1")], Dict.empty⟩
        ⟨5, [("99", "2")], []⟩) gappedEvents i (.gapDetectedError message', c) ∧
      SameContents b c := by
  rcases (race_point_does_not_matter (new "btcusdt")
    ⟨"ethusdt", 100, Dict.ofList [("1", "1")], Dict.empty⟩ ⟨5, [("99", "2")], []⟩
    gappedEvents_float 1).1 with ⟨b, c, hb, _⟩ | hstops
  · have hraises : ((new "btcusdt").initializeThenApply ⟨5, [("99", "2")], []⟩ 1
        gappedEvents).isOk = false := by decide +kernel
    rw [hb] at hraises
    cases hraises
  · exact hstops

end OrderBook

end Ticksense
