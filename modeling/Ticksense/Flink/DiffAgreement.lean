import Ticksense.Flink.Logic
import Ticksense.Lib.LastWriter

/-!
# The two ways of applying a diff

`apply_depth_diff` of the normalize job and `OrderBook._apply` of the ingest service are two copies
of one loop, in different packages.

* `applyDepthDiffInPlace_eq` — they leave the same two dictionaries, whether or not they raise.
* `LastWriteWins` — what they leave: a price that is not mentioned keeps its entry, any other has
  what the quantity of its last update says.
* `diff_is_last_write_wins` — both together, and what follows from the second: updates of different
  prices may be exchanged, and an update may be dropped when a later one has its price.
-/

namespace Ticksense

open VersionedMap

/-! ## The same dictionaries -/

/-- The loop over one side's updates, with the dictionary as it stands when the loop raises. -/
def applyLevelUpdatesInPlace (side : Dict String String) :
    List (List String) → Except (PyError × Dict String String) (Dict String String)
  | [] => .ok side
  | (price :: qty :: _) :: levels =>
      match float qty with
      | .error e => .error (e, side)
      | .ok x =>
          applyLevelUpdatesInPlace (if x.isZero then side.pop price else side.set price qty) levels
  | _ :: _ => .error (.indexError, side)

/-- `apply_depth_diff`, with both dictionaries as they stand when it raises. -/
def applyDepthDiffInPlace (bids asks : Dict String String)
    (bidUpdates askUpdates : List (List String)) :
    Except (PyError × Dict String String × Dict String String)
      (Dict String String × Dict String String) :=
  match applyLevelUpdatesInPlace bids bidUpdates with
  | .error (e, bids) => .error (e, bids, asks)
  | .ok bids =>
      match applyLevelUpdatesInPlace asks askUpdates with
      | .error (e, asks) => .error (e, bids, asks)
      | .ok asks => .ok (bids, asks)

/-- Without the dictionary it is the loop that returns its result. -/
lemma mapError_applyLevelUpdatesInPlace (side : Dict String String) (updates : List (List String)) :
    (applyLevelUpdatesInPlace side updates).mapError Prod.fst = applyLevelUpdates side updates := by
  induction updates generalizing side with
  | nil => rfl
  | cons update updates ih =>
      rcases update with _ | ⟨price, _ | ⟨qty, rest⟩⟩
      · rfl
      · rfl
      · rw [applyLevelUpdatesInPlace, applyLevelUpdates]
        cases float qty with
        | error e => rfl
        | ok x => exact ih _

lemma mapError_applyDepthDiffInPlace (bids asks : Dict String String)
    (bidUpdates askUpdates : List (List String)) :
    (applyDepthDiffInPlace bids asks bidUpdates askUpdates).mapError Prod.fst
      = applyDepthDiff bids asks bidUpdates askUpdates := by
  rw [applyDepthDiffInPlace, applyDepthDiff, ← mapError_applyLevelUpdatesInPlace,
    ← mapError_applyLevelUpdatesInPlace]
  cases applyLevelUpdatesInPlace bids bidUpdates with
  | error r => rfl
  | ok bids =>
      simp only
      cases applyLevelUpdatesInPlace asks askUpdates with
      | error r => rfl
      | ok asks => rfl

/-- **The loops are the same** on a list of levels. -/
theorem applyLevelUpdatesInPlace_eq (side : Dict String String) (levels : List (String × String)) :
    applyLevelUpdatesInPlace side (levels.map pair) = OrderBook.applyLevels side levels := by
  induction levels generalizing side with
  | nil => rfl
  | cons level levels ih =>
      rcases level with ⟨price, qty⟩
      rw [List.map_cons, pair, applyLevelUpdatesInPlace, OrderBook.applyLevels]
      cases float qty with
      | error e => rfl
      | ok x => exact ih _

/-- What `_apply` leaves in the two dictionaries. -/
def OrderBook.sides (result : Except (PyError × OrderBook) OrderBook) :
    Except (PyError × Dict String String × Dict String String)
      (Dict String String × Dict String String) :=
  match result with
  | .error (e, book) => .error (e, book.bids, book.asks)
  | .ok book => .ok (book.bids, book.asks)

/-- **The two implementations agree**: the same dictionaries, and the same exception if any. -/
theorem applyDepthDiffInPlace_eq (book : OrderBook) (event : BinanceDepthEvent) :
    applyDepthDiffInPlace book.bids book.asks (event.bids.map pair) (event.asks.map pair)
      = OrderBook.sides (book.applyDiff event) := by
  rw [applyDepthDiffInPlace, applyLevelUpdatesInPlace_eq, applyLevelUpdatesInPlace_eq,
    OrderBook.applyDiff]
  cases OrderBook.applyLevels book.bids event.bids with
  | error r => rfl
  | ok bids =>
      simp only
      cases OrderBook.applyLevels book.asks event.asks with
      | error r => rfl
      | ok asks => rfl

/-! ## The last write -/

/-- A price that is not mentioned keeps its entry; any other has what the quantity of its last
update says. -/
structure LastWriteWins (before after : Dict String String) (updates : List (String × String)) :
    Prop where
  kept : ∀ price, price ∉ updates.map Prod.fst → after.get? price = before.get? price
  written : ∀ earlier price qty later, updates = earlier ++ (price, qty) :: later →
    price ∉ later.map Prod.fst → levelOf qty = .ok (after.get? price)

/-- What an update writes. -/
def levelEntry (level : String × String) : String × Option String :=
  (level.1, levelOrNone level.2)

lemma levelOf_eq_of_float {qty : String} {x : PyFloat} (h : float qty = .ok x) :
    levelOf qty = .ok (levelOrNone qty) := by
  rw [levelOrNone, levelOf, h]

/-- **The loop over a side is last-write-wins.** -/
theorem lastWriteWins_of_patch {updates : List (String × String)} (h : FloatQuantities updates)
    {before after : Dict String String}
    (hafter : after.get? = patch before.get? (levelEntries updates)) :
    LastWriteWins before after updates := by
  have hlater : ∀ {price : String} {later : List (String × String)},
      price ∉ later.map Prod.fst → ∀ level ∈ later, (levelEntry level).1 ≠ price := by
    intro price later hprice level hlevel heq
    exact hprice (List.mem_map.mpr ⟨level, hlevel, heq⟩)
  refine ⟨fun price hprice => ?_, ?_⟩
  · rw [hafter]
    exact patch_of_notMem (hlater hprice) before.get?
  · rintro earlier price qty later rfl hprice
    obtain ⟨x, hx⟩ := h (price, qty) (List.mem_append_right _ List.mem_cons_self)
    have hwritten : after.get? price = levelOrNone qty := by
      rw [hafter, levelEntries, List.map_append, patch_append, List.map_cons, patch_cons]
      refine (patch_of_notMem (hlater hprice) _).trans ?_
      rw [Function.update_self]
    rw [hwritten, levelOf_eq_of_float hx]

/-- The same updates, those of each price in the same order. -/
def ReorderedByPrice (updates updates' : List (String × String)) : Prop :=
  ∀ price, updates.filter (fun level => level.1 = price)
    = updates'.filter (fun level => level.1 = price)

/-- The updates without those that a later one of the same price overwrites. -/
def latestUpdates (updates : List (String × String)) : List (String × String) :=
  updates.pwFilter fun a b => a.1 ≠ b.1

/-- Exchanging two neighbours with different prices is a reordering. -/
lemma reorderedByPrice_swap {a b : String × String} (h : a.1 ≠ b.1)
    (earlier later : List (String × String)) :
    ReorderedByPrice (earlier ++ a :: b :: later) (earlier ++ b :: a :: later) :=
  entriesOf_swap levelEntry h earlier later

/-! ## Both implementations -/

/-- The two lists write the same, and raise nothing if the first does not. -/
lemma same_writes {updates updates' : List (String × String)}
    (h : ReorderedByPrice updates updates' ∨ updates' = latestUpdates updates) :
    (∀ m, patch m (levelEntries updates') = patch m (levelEntries updates)) ∧
      (FloatQuantities updates → FloatQuantities updates') := by
  rcases h with hreordered | rfl
  · refine ⟨fun m => (patch_eq_of_entriesOf levelEntry hreordered m).symm, ?_⟩
    intro hfloat level hlevel
    have hmem : level ∈ updates'.filter fun l => l.1 = level.1 :=
      List.mem_filter.mpr ⟨hlevel, decide_eq_true rfl⟩
    rw [← hreordered] at hmem
    exact hfloat level (List.mem_filter.mp hmem).1
  · exact ⟨patch_pwFilter levelEntry updates, fun hfloat level hlevel =>
      hfloat level (List.pwFilter_subset _ hlevel)⟩

/-- Both implementations on float quantities: they succeed and patch both sides. -/
lemma applyDiff_sides_ok (book : OrderBook) {event : BinanceDepthEvent}
    (h : ∀ side, FloatQuantities (event.levels side)) :
    ∃ after, book.applyDiff event = .ok after ∧
      applyDepthDiff book.bids book.asks (event.bids.map pair) (event.asks.map pair)
        = .ok (after.bids, after.asks) ∧
      ∀ side, (after.side side).get?
        = patch (book.side side).get? (levelEntries (event.levels side)) := by
  obtain ⟨after, hafter, hreplica⟩ := book.applyDiff_ok h
  refine ⟨after, hafter, ?_, fun side => ?_⟩
  · rw [← mapError_applyDepthDiffInPlace, applyDepthDiffInPlace_eq, hafter]
    rfl
  · funext price
    rw [← OrderBook.replica_map, hreplica]
    show patch (levelMap book.bids.get? book.asks.get?) (diffEntries event.bids event.asks)
      (side, price) = _
    rw [patch_diffEntries]
    cases side with
    | bid => rfl
    | ask => rfl

/-- **Applying a diff is last-write-wins, in both implementations.**  They leave the same
dictionaries and raise the same exception, if any.  When the quantities are floats they succeed: a
price that is not mentioned keeps its entry, any other holds the quantity of its last update, or
nothing when that is zero; and updates reordered without changing the order within a price, or freed
of those that a later one of the same price overwrites, leave the same maps.  Otherwise both raise
`ValueError`. -/
theorem diff_is_last_write_wins (book : OrderBook) (event : BinanceDepthEvent) :
    applyDepthDiffInPlace book.bids book.asks (event.bids.map pair) (event.asks.map pair)
        = OrderBook.sides (book.applyDiff event) ∧
      ((∀ side, FloatQuantities (event.levels side)) →
        ∃ after, book.applyDiff event = .ok after ∧
          applyDepthDiff book.bids book.asks (event.bids.map pair) (event.asks.map pair)
            = .ok (after.bids, after.asks) ∧
          (∀ side, LastWriteWins (book.side side) (after.side side) (event.levels side)) ∧
          ∀ event' : BinanceDepthEvent,
            (∀ side, ReorderedByPrice (event.levels side) (event'.levels side) ∨
              event'.levels side = latestUpdates (event.levels side)) →
            ∃ after', book.applyDiff event' = .ok after' ∧
              applyDepthDiff book.bids book.asks (event'.bids.map pair) (event'.asks.map pair)
                = .ok (after'.bids, after'.asks) ∧
              ∀ side, (after'.side side).get? = (after.side side).get?) ∧
      ((¬ ∀ side, FloatQuantities (event.levels side)) →
        (∃ book', book.applyDiff event = .error (.valueError, book')) ∧
          applyDepthDiff book.bids book.asks (event.bids.map pair) (event.asks.map pair)
            = .error .valueError) := by
  refine ⟨applyDepthDiffInPlace_eq book event, fun hfloat => ?_, fun hraises => ?_⟩
  · obtain ⟨after, hafter, hflink, hpatch⟩ := applyDiff_sides_ok book hfloat
    refine ⟨after, hafter, hflink, fun side => lastWriteWins_of_patch (hfloat side) (hpatch side),
      ?_⟩
    intro event' hsame
    obtain ⟨after', hafter', hflink', hpatch'⟩ :=
      applyDiff_sides_ok book fun side => (same_writes (hsame side)).2 (hfloat side)
    refine ⟨after', hafter', hflink', fun side => ?_⟩
    rw [hpatch', hpatch, (same_writes (hsame side)).1]
  · cases hrun : book.applyDiff event with
    | ok after => exact absurd (OrderBook.floatQuantities_of_applyDiff hrun) hraises
    | error r =>
        obtain ⟨e, book'⟩ := r
        obtain rfl : e = .valueError := OrderBook.eq_valueError_of_applyDiff hrun
        refine ⟨⟨book', rfl⟩, ?_⟩
        rw [← mapError_applyDepthDiffInPlace, applyDepthDiffInPlace_eq, hrun]
        rfl

/-- Three bids, two of them for one price. -/
def repeatedPrice : BinanceDepthEvent :=
  ⟨"depthUpdate", 1704067200000, "BTCUSDT", 1, 1, [("100", "0"), ("101", "2"), ("100", "3")], []⟩

lemma repeatedPrice_float (side : Side) : FloatQuantities (repeatedPrice.levels side) := by
  cases side <;> decide +kernel

theorem last_write_sample :
    ∃ after, (OrderBook.new "btcusdt").applyDiff repeatedPrice = .ok after ∧
      after.bids.get? "100" = some "3" ∧
      ∃ after', (OrderBook.new "btcusdt").applyDiff
          { repeatedPrice with bids := [("101", "2"), ("100", "0"), ("100", "3")] } = .ok after' ∧
        after'.bids.get? = after.bids.get? := by
  obtain ⟨after, hafter, _, hlast, hsame⟩ :=
    (diff_is_last_write_wins (OrderBook.new "btcusdt") repeatedPrice).2.1 repeatedPrice_float
  have h100 := (hlast .bid).written [("100", "0"), ("101", "2")] "100" "3" [] rfl (by simp)
  obtain ⟨after', hafter', _, hget⟩ :=
    hsame { repeatedPrice with bids := [("101", "2"), ("100", "0"), ("100", "3")] } (by
      intro side
      cases side with
      | bid => exact Or.inl (reorderedByPrice_swap (by decide) [] [("100", "3")])
      | ask => exact Or.inl fun price => rfl)
  refine ⟨after, hafter, ?_, after', hafter', hget .bid⟩
  have hlevel : levelOf "3" = .ok (some "3") := by decide +kernel
  exact (Except.ok.inj (hlevel.symm.trans h100)).symm

end Ticksense
