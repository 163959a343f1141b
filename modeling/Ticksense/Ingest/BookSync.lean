import Ticksense.Ingest.OrderBook

/-!
# The ingest book is the exchange's book

A session gives the order book a snapshot with the diffs buffered meanwhile, and then the live
diffs.  The WebSocket may lose, repeat and reorder diffs, and the snapshot may be of any age.  What
can be relied on is only that nothing delivered is *false*: `TruthfulSnapshot`, `TruthfulEvent`.

`sync_is_exchange_book` says that this is enough.  As long as no gap has been raised the book is the
exchange's book at its own `last_update_id`, and that id never goes back.  The argument is
`Replica.offerAll_inSync`; this file translates truthfulness into the terms of that theorem
(`TruthfulEvent.diff_truthful`, `TruthfulSnapshot.load_inSync`) and the session into one run of the
replica rule over buffer and live diffs together (`sync_refines`).
-/

namespace Ticksense

open VersionedMap

/-- Everything an event lists is true after its last update, and it lists every price one of its
updates changed. -/
structure TruthfulEvent (x : Exchange) (event : BinanceDepthEvent) : Prop where
  first_le : event.firstUpdateId ≤ event.lastUpdateId
  last_nonneg : 0 ≤ event.lastUpdateId
  quantities : ∀ side, ∀ level ∈ event.levels side,
    levelOf level.2 = .ok (x.book event.lastUpdateId.toNat side level.1)
  complete : ∀ (n : ℕ) (side : Side) (price : String), event.firstUpdateId ≤ n + 1 →
    (n : ℤ) + 1 ≤ event.lastUpdateId → x.book (n + 1) side price ≠ x.book n side price →
    price ∈ (event.levels side).map Prod.fst

/-- A snapshot lists the book at its id, completely. -/
structure TruthfulSnapshot (x : Exchange) (snapshot : BinanceDepthSnapshot) : Prop where
  last_nonneg : 0 ≤ snapshot.lastUpdateId
  complete : ∀ side price qty, (price, qty) ∈ snapshot.levels side ↔
    x.book snapshot.lastUpdateId.toNat side price = some qty

namespace OrderBook

/-- Both sides of the book are those of the exchange's book at the book's id. -/
def IsExchangeBook (x : Exchange) (book : OrderBook) : Prop :=
  0 ≤ book.lastUpdateId ∧
    ∀ side price, (book.side side).get? price = x.book book.lastUpdateId.toNat side price

/-- One session of the book: `initialize` with the buffer, then `apply` for every live diff. -/
def sync (symbol : String) (snapshot : BinanceDepthSnapshot)
    (buffer live : List BinanceDepthEvent) : Except (PyError × OrderBook) OrderBook :=
  match (new symbol).initializeFrom snapshot buffer with
  | .error e => .error e
  | .ok book => book.applyAll live

end OrderBook

/-! ## Truthfulness in terms of diffs -/

/-- The keys of a diff are the prices it lists. -/
lemma mem_keys_diffEntries {bids asks : List (String × String)} {level : Level} :
    level ∈ (diffEntries bids asks).map Prod.fst
      ↔ level.2 ∈ (level.1.pick bids asks).map Prod.fst := by
  rcases level with ⟨side, price⟩
  cases side <;>
    simp [diffEntries, levelEntries, Side.pick, List.map_append, Function.comp_def]

/-- The entries of a diff come from the levels it lists. -/
lemma mem_diffEntries {bids asks : List (String × String)} {entry : Level × Option String}
    (h : entry ∈ diffEntries bids asks) :
    ∃ level ∈ entry.1.1.pick bids asks, entry.1.2 = level.1 ∧ entry.2 = levelOrNone level.2 := by
  rw [diffEntries, List.mem_append] at h
  rcases h with h | h
  · rcases List.mem_map.mp h with ⟨_, he, rfl⟩
    rcases List.mem_map.mp he with ⟨level, hlevel, rfl⟩
    exact ⟨level, hlevel, rfl, rfl⟩
  · rcases List.mem_map.mp h with ⟨_, he, rfl⟩
    rcases List.mem_map.mp he with ⟨level, hlevel, rfl⟩
    exact ⟨level, hlevel, rfl, rfl⟩

lemma levelOrNone_of_levelOf {qty : String} {level : Option String}
    (h : levelOf qty = .ok level) : levelOrNone qty = level := by
  rw [levelOrNone, h]

/-- The quantities of a truthful event are floats. -/
lemma TruthfulEvent.floatQuantities {x : Exchange} {event : BinanceDepthEvent}
    (h : TruthfulEvent x event) (side : Side) : FloatQuantities (event.levels side) := by
  intro level hlevel
  have hqty := h.quantities side level hlevel
  cases hfloat : float level.2 with
  | error e => simp [levelOf, hfloat] at hqty
  | ok y => exact ⟨y, rfl⟩

/-- A truthful event is a truthful diff. -/
theorem TruthfulEvent.diff_truthful {x : Exchange} {event : BinanceDepthEvent}
    (h : TruthfulEvent x event) : event.diff.Truthful x.history where
  first_le := h.first_le
  last_nonneg := h.last_nonneg
  values := by
    intro entry hentry
    rcases mem_diffEntries hentry with ⟨level, hlevel, hprice, hqty⟩
    rw [hqty, levelOrNone_of_levelOf (h.quantities entry.1.1 level hlevel), ← hprice]
    rfl
  complete := by
    intro n level hfirst hlast hchanged
    exact mem_keys_diffEntries.mpr (h.complete n level.1 level.2 hfirst hlast hchanged)

/-- Loading a truthful snapshot puts any book in sync. -/
theorem TruthfulSnapshot.load_inSync {x : Exchange} {snapshot : BinanceDepthSnapshot}
    (h : TruthfulSnapshot x snapshot) (book : OrderBook) :
    (book.load snapshot).replica.InSync x.history where
  last_nonneg := h.last_nonneg
  inside := by
    intro level _
    rcases level with ⟨side, price⟩
    have hside : (book.load snapshot).side side = Dict.ofList (snapshot.levels side) := by
      cases side <;> rfl
    rw [OrderBook.replica_map, hside, Dict.get?_ofList (h.complete side)]
    rfl
  outside := fun level hlevel => absurd (Set.mem_univ level) hlevel

/-- A book in sync is the exchange's book. -/
lemma OrderBook.isExchangeBook_of_inSync {x : Exchange} {book : OrderBook}
    (h : book.replica.InSync x.history) : book.IsExchangeBook x := by
  refine ⟨h.last_nonneg, fun side price => ?_⟩
  rw [← OrderBook.replica_map]
  exact h.inside (side, price) (Set.mem_univ _)

/-! ## A sample history -/

/-- A short history to run the pipeline on: one level on each side, then a change of the bid and two
new levels behind the best ones. -/
def sampleExchange : Exchange where
  initial := fun level =>
    if level = (.bid, "100") then some "2" else if level = (.ask, "101") then some "1" else none
  update := fun n =>
    if n = 1 then ⟨.bid, "100", "1", by decide +kernel⟩
    else if n = 2 then ⟨.bid, "90", "5", by decide +kernel⟩
    else ⟨.ask, "110", "5", by decide +kernel⟩

/-- The book of the sample history after update 1. -/
def sampleSnapshot : BinanceDepthSnapshot := ⟨1, [("100", "1")], [("101", "1")]⟩

/-- Updates 2 and 3 of the sample history. -/
def sampleEvent : BinanceDepthEvent :=
  ⟨"depthUpdate", 1704067200000, "BTCUSDT", 2, 3, [("90", "5")], [("110", "5")]⟩

lemma sampleExchange_book_one (side : Side) (price : String) :
    sampleExchange.book 1 side price =
      if (side, price) = (.bid, "100") then some "1"
      else if (side, price) = (.ask, "101") then some "1" else none := by
  have h : (sampleExchange.update 1).level = some "1" := by decide +kernel
  show Function.update sampleExchange.initial (.bid, "100") (sampleExchange.update 1).level _ = _
  rw [h, Function.update_apply]
  show (if _ then _ else if _ then _ else _) = _
  split_ifs <;> rfl

lemma sampleExchange_book_three (side : Side) (price : String) :
    sampleExchange.book 3 side price =
      if (side, price) = (.ask, "110") then some "5"
      else if (side, price) = (.bid, "90") then some "5"
      else sampleExchange.book 1 side price := by
  have h₂ : (sampleExchange.update 2).level = some "5" := by decide +kernel
  have h₃ : (sampleExchange.update 3).level = some "5" := by decide +kernel
  show Function.update (Function.update (sampleExchange.history.version 1) (.bid, "90")
    (sampleExchange.update 2).level) (.ask, "110") (sampleExchange.update 3).level _ = _
  rw [h₂, h₃, Function.update_apply, Function.update_apply]
  rfl

lemma sampleSnapshot_truthful : TruthfulSnapshot sampleExchange sampleSnapshot where
  last_nonneg := by decide
  complete := by
    intro side price qty
    show _ ↔ sampleExchange.book 1 side price = some qty
    rw [sampleExchange_book_one]
    cases side with
    | bid => simp [sampleSnapshot, BinanceDepthSnapshot.levels, eq_comm]
    | ask => simp [sampleSnapshot, BinanceDepthSnapshot.levels, eq_comm]

lemma sampleEvent_truthful : TruthfulEvent sampleExchange sampleEvent where
  first_le := by decide
  last_nonneg := by decide
  quantities := by
    intro side level hlevel
    show levelOf level.2 = .ok (sampleExchange.book 3 side level.1)
    rw [sampleExchange_book_three]
    cases side with
    | bid => rw [List.mem_singleton.mp hlevel]; decide +kernel
    | ask => rw [List.mem_singleton.mp hlevel]; decide +kernel
  complete := by
    intro n side price hfirst hlast hchanged
    have hn : n = 1 ∨ n = 2 := by
      have h₁ : (2 : ℤ) ≤ n + 1 := hfirst
      have h₂ : (n : ℤ) + 1 ≤ 3 := hlast
      omega
    have hkey := Exchange.key_of_changed hchanged
    rcases hn with rfl | rfl
    · rcases Prod.mk.inj hkey with ⟨rfl, rfl⟩
      decide
    · rcases Prod.mk.inj hkey with ⟨rfl, rfl⟩
      decide

/-- Updates 1 to 3 of the sample history, with the best levels listed too. -/
def topEvent : BinanceDepthEvent :=
  ⟨"depthUpdate", 1704067200000, "BTCUSDT", 1, 3, [("100", "1"), ("90", "5")],
    [("101", "1"), ("110", "5")]⟩

lemma topEvent_truthful : TruthfulEvent sampleExchange topEvent where
  first_le := by decide
  last_nonneg := by decide
  quantities := by
    intro side level hlevel
    show levelOf level.2 = .ok (sampleExchange.book 3 side level.1)
    rw [sampleExchange_book_three, sampleExchange_book_one]
    have hall : ∀ side, ∀ l ∈ topEvent.levels side, levelOf l.2 = .ok
        (if (side, l.1) = (Side.ask, "110") then some "5"
        else if (side, l.1) = (.bid, "90") then some "5"
        else if (side, l.1) = (.bid, "100") then some "1"
        else if (side, l.1) = (.ask, "101") then some "1" else none) := by
      intro side
      cases side <;> decide +kernel
    exact hall side level hlevel
  complete := by
    intro n side price _ hlast hchanged
    have hn : n = 0 ∨ n = 1 ∨ n = 2 := by
      have h : (n : ℤ) + 1 ≤ 3 := hlast
      omega
    have hkey := Exchange.key_of_changed hchanged
    rcases hn with rfl | rfl | rfl <;>
      · rcases Prod.mk.inj hkey with ⟨rfl, rfl⟩
        decide

/-- Update 4, which says of a level what is so already. -/
def nextEvent : BinanceDepthEvent :=
  ⟨"depthUpdate", 1704067200000, "BTCUSDT", 4, 4, [], [("110", "5")]⟩

lemma sampleExchange_book_four (side : Side) (price : String) :
    sampleExchange.book 4 side price = sampleExchange.book 3 side price := by
  have h : (sampleExchange.update 4).level = some "5" := by decide +kernel
  show Function.update (sampleExchange.history.version 3) (.ask, "110")
    (sampleExchange.update 4).level _ = _
  rw [h, Function.update_apply]
  split_ifs with hlevel
  · rw [sampleExchange_book_three, if_pos hlevel]
  · rfl

lemma nextEvent_truthful : TruthfulEvent sampleExchange nextEvent where
  first_le := by decide
  last_nonneg := by decide
  quantities := by
    intro side level hlevel
    show levelOf level.2 = .ok (sampleExchange.book 4 side level.1)
    rw [sampleExchange_book_four, sampleExchange_book_three]
    cases side with
    | bid => cases hlevel
    | ask => rw [List.mem_singleton.mp hlevel]; decide +kernel
  complete := by
    intro n side price hfirst hlast hchanged
    have hn : n = 3 := by
      have h₁ : (4 : ℤ) ≤ n + 1 := hfirst
      have h₂ : (n : ℤ) + 1 ≤ 4 := hlast
      omega
    subst hn
    exact absurd (sampleExchange_book_four side price) hchanged

/-! ## The session -/

namespace OrderBook

/-- **A session is one run of the replica rule** from the loaded snapshot over the buffered and the
live diffs, wherever the snapshot fetch happened to complete between them. -/
theorem sync_refines (symbol : String) (snapshot : BinanceDepthSnapshot)
    {buffer live : List BinanceDepthEvent}
    (h : ∀ event ∈ buffer ++ live, ∀ side, FloatQuantities (event.levels side)) :
    RunRefines ((new symbol).load snapshot) (buffer ++ live) (sync symbol snapshot buffer live) := by
  have hbuffer := replayBuffer_refines ((new symbol).load snapshot)
    (fun e he => h e (List.mem_append_left live he))
  rw [sync, initializeFrom]
  cases hinit : ((new symbol).load snapshot).replayBuffer buffer with
  | error r =>
      rw [hinit] at hbuffer
      rcases hbuffer with ⟨hgap, taken, rest, rfl, htaken⟩
      exact ⟨hgap, taken, rest ++ live, List.append_assoc _ _ _, htaken⟩
  | ok book =>
      rw [hinit] at hbuffer
      have hlive := applyAll_refines book (fun e he => h e (List.mem_append_right buffer he))
      have happend : ∀ es : List BinanceDepthEvent,
          ((new symbol).load snapshot).replica.offerAll ((buffer ++ es).map (·.diff))
            = book.replica.offerAll (es.map (·.diff)) := by
        intro es
        rw [List.map_append]
        exact Replica.offerAll_append hbuffer (es.map (·.diff))
      show RunRefines _ _ (book.applyAll live)
      cases hres : book.applyAll live with
      | ok book' =>
          rw [hres] at hlive
          show _ = _
          rw [happend]
          exact hlive
      | error r =>
          rw [hres] at hlive
          rcases hlive with ⟨hgap, taken, rest, rfl, htaken⟩
          refine ⟨hgap, buffer ++ taken, rest, (List.append_assoc _ _ _).symm, ?_⟩
          rw [happend]
          exact htaken

/-- **The ingest book is the exchange's book.**  For every exchange history, truthful snapshot and
sequence of truthful events, however lossy, repeated or reordered, and wherever it is split into
buffer and live diffs: the session raises nothing but a gap; while it has not, both sides of the
book are those of the exchange's book at `last_update_id`; and that id is at least the one the book
had at any earlier point of the session. -/
theorem sync_is_exchange_book (x : Exchange) (symbol : String) (snapshot : BinanceDepthSnapshot)
    (buffer live : List BinanceDepthEvent) (hsnapshot : TruthfulSnapshot x snapshot)
    (hevents : ∀ event ∈ buffer ++ live, TruthfulEvent x event) :
    match sync symbol snapshot buffer live with
    | .error (e, _) => ∃ message, e = .gapDetectedError message
    | .ok book =>
        book.IsExchangeBook x ∧
        (new symbol).lastUpdateId ≤ snapshot.lastUpdateId ∧
        snapshot.lastUpdateId ≤ book.lastUpdateId ∧
        ∀ buffer' live' earlier, buffer' ++ live' <+: buffer ++ live →
          sync symbol snapshot buffer' live' = .ok earlier →
          earlier.lastUpdateId ≤ book.lastUpdateId := by
  have hfloat : ∀ event ∈ buffer ++ live, ∀ side, FloatQuantities (event.levels side) := by
    intro event hevent
    exact (hevents event hevent).floatQuantities
  have hload := hsnapshot.load_inSync (new symbol)
  have hrun := sync_refines symbol snapshot hfloat
  cases hres : sync symbol snapshot buffer live with
  | error r =>
      rw [hres] at hrun
      exact hrun.1
  | ok book =>
      rw [hres] at hrun
      have hoffer : ((new symbol).load snapshot).replica.offerAll
          ((buffer ++ live).map (·.diff)) = some book.replica := hrun
      have htruthful : ∀ events : List BinanceDepthEvent, (∀ event ∈ events, event ∈ buffer ++ live) →
          ∀ d ∈ events.map (·.diff), d.Truthful x.history := by
        intro events hsub d hd
        rcases List.mem_map.mp hd with ⟨event, hevent, rfl⟩
        exact (hevents event (hsub event hevent)).diff_truthful
      have hsync := Replica.offerAll_inSync (htruthful _ fun _ he => he) hload hoffer
      refine ⟨isExchangeBook_of_inSync hsync.1, hsnapshot.last_nonneg, hsync.2, ?_⟩
      intro buffer' live' earlier hinitial hearlier
      rcases hinitial with ⟨more, hmore⟩
      have hsub : ∀ event ∈ buffer' ++ live', event ∈ buffer ++ live := by
        intro event hevent
        rw [← hmore]
        exact List.mem_append_left more hevent
      have hmoreSub : ∀ event ∈ more, event ∈ buffer ++ live := by
        intro event hevent
        rw [← hmore]
        exact List.mem_append_right _ hevent
      have hrun' := sync_refines symbol snapshot (fun e he => hfloat e (hsub e he))
      rw [hearlier] at hrun'
      have hoffer' : ((new symbol).load snapshot).replica.offerAll
          ((buffer' ++ live').map (·.diff)) = some earlier.replica := hrun'
      have hsync' := Replica.offerAll_inSync (htruthful _ hsub) hload hoffer'
      -- the longer run goes through the copy the shorter one ends at
      have hrest : earlier.replica.offerAll (more.map (·.diff)) = some book.replica := by
        rw [← Replica.offerAll_append hoffer', ← List.map_append, hmore]
        exact hoffer
      exact (Replica.offerAll_inSync (htruthful _ hmoreSub) hsync'.1 hrest).2

theorem sync_is_exchange_book_sample :
    ∃ book, sync "btcusdt" sampleSnapshot [sampleEvent] [sampleEvent] = .ok book ∧
      book.IsExchangeBook sampleExchange ∧ book.lastUpdateId = 3 := by
  have hevents : ∀ event ∈ [sampleEvent] ++ [sampleEvent], TruthfulEvent sampleExchange event := by
    intro event hevent
    have heq : event = sampleEvent := by simpa using hevent
    rw [heq]
    exact sampleEvent_truthful
  have h := sync_is_exchange_book sampleExchange "btcusdt" sampleSnapshot [sampleEvent] [sampleEvent]
    sampleSnapshot_truthful hevents
  have hid : (sync "btcusdt" sampleSnapshot [sampleEvent] [sampleEvent]).toOption.map
      (·.lastUpdateId) = some 3 := by decide +kernel
  cases hres : sync "btcusdt" sampleSnapshot [sampleEvent] [sampleEvent] with
  | error e =>
      rw [hres] at hid
      cases hid
  | ok book =>
      rw [hres] at h hid
      exact ⟨book, rfl, h.1, Option.some.inj hid⟩

end OrderBook

end Ticksense
