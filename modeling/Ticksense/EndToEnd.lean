import Mathlib.Data.List.Chain
import Mathlib.Data.List.Induction
import Ticksense.Flink.StateCells
import Ticksense.Ingest.Client

/-!
# From the exchange to the book-ticker rows

One client session, the records it leaves in the raw topic, and the normalize job that reads them
from an empty state.  The job keeps a book of its own, built from the published diffs alone.  It is
a copy of the exchange's book on the prices that some accepted message has listed (`fold_inSyncOn`),
and knows nothing of the others: neither the snapshot nor the diffs buffered during its fetch are in
the topic.

`rows_true_iff` is what that means for the rows: they show the exchange's best levels exactly as
long as the best levels are among the listed ones.  `snapshot_levels_are_missing` is the first row
of a session whose first diff is away from the top of the book.
-/

namespace Ticksense

open VersionedMap

/-! ## What is assumed and what is asked -/

/-- A session that is fed with the truth, without gaps. -/
structure TruthfulSession (x : Exchange) (s : Session) : Prop where
  snapshot : ∀ snapshot, s.snapshot = .ok snapshot → TruthfulSnapshot x snapshot
  events : ∀ a ∈ s.buffered ++ s.live, TruthfulEvent x a.event
  gapFree : List.IsChain (fun a b => b.event.firstUpdateId ≤ a.event.lastUpdateId + 1)
    (s.buffered ++ s.live)

/-- The record of the raw topic that carries a published event. -/
structure IsRecordOf (out : OrderBookEvent) (d : Delivery) : Prop where
  eventId : d.message.eventId = out.eventId
  exchange : d.message.exchange = out.exchange
  symbol : d.message.symbol = out.symbol
  exchangeEventMs : d.message.exchangeEventMs = epochMs out.exchangeEventTs
  ingestMs : d.message.ingestMs = epochMs out.ingestTs
  firstUpdateId : d.message.firstUpdateId = out.firstUpdateId
  lastUpdateId : d.message.lastUpdateId = out.lastUpdateId
  bids : d.message.bids = out.bids
  asks : d.message.asks = out.asks

/-- The row shows the exchange's best bid and best ask at its id. -/
def RowIsTrue (x : Exchange) (row : BookTickerRow) : Prop :=
  (∃ price qty, IsBest (· ≤ ·) (x.book row.lastUpdateId.toNat .bid) price qty ∧
    row.bestBidPrice = .fin (value price) ∧ row.bestBidQty = .fin (value qty)) ∧
  ∃ price qty, IsBest (· ≥ ·) (x.book row.lastUpdateId.toNat .ask) price qty ∧
    row.bestAskPrice = .fin (value price) ∧ row.bestAskQty = .fin (value qty)

/-- A message as a diff of the exchange's level map. -/
def DepthMessage.diff (m : DepthMessage) : Diff Level String where
  first := m.firstUpdateId
  last := m.lastUpdateId
  entries := diffEntries m.bids m.asks

/-- The levels listed by some of the messages. -/
def listed (ds : List Delivery) : Set Level := {level | ∃ d ∈ ds, level ∈ d.message.diff.keys}

/-- Both sides of the exchange's book have a level among the listed ones. -/
def TwoSided (x : Exchange) (n : ℕ) (S : Set Level) : Prop :=
  ∀ side, ∃ price qty, (side, price) ∈ S ∧ x.book n side price = some qty

/-- The exchange's best levels are among the listed ones. -/
def BestListed (x : Exchange) (n : ℕ) (S : Set Level) : Prop :=
  (∃ price qty, IsBest (· ≤ ·) (x.book n .bid) price qty ∧ (Side.bid, price) ∈ S) ∧
  ∃ price qty, IsBest (· ≥ ·) (x.book n .ask) price qty ∧ (Side.ask, price) ∈ S

/-! ## The job's book as a partial copy -/

/-- The job's book as a copy of the exchange's level map. -/
def Book.replica (book : Book) (last : ℤ) : Replica Level String :=
  ⟨last, levelMap book.bids.get? book.asks.get?⟩

lemma Book.IsNumeric.apply_replica {book : Book} (h : book.IsNumeric) (m : DepthMessage) (last : ℤ) :
    (book.apply m).replica m.lastUpdateId
      = ⟨m.diff.last, patch (book.replica last).map m.diff.entries⟩ := by
  rcases h.apply m with ⟨_, _, hbids, hasks⟩
  rw [Book.replica, Book.replica, DepthMessage.diff, patch_diffEntries, hbids, hasks]

/-- The book after the messages of some deliveries, from the empty one. -/
def bookAfter (ds : List Delivery) : Book := (ds.map (·.message)).foldl Book.apply Book.empty

lemma bookAfter_append_singleton (past : List Delivery) (d : Delivery) :
    bookAfter (past ++ [d]) = (bookAfter past).apply d.message := by
  simp [bookAfter]

lemma bookAfter_isNumeric (ds : List Delivery) : (bookAfter ds).IsNumeric :=
  (foldDiffs_eq Book.numeric_empty _).2

lemma listed_append_singleton (past : List Delivery) (d : Delivery) :
    listed (past ++ [d]) = listed past ∪ d.message.diff.keys := by
  ext level
  simp [listed, or_and_right, exists_or]

/-- One accepted message continues another: its id is higher, and nothing is missing between. -/
structure Follows (d e : Delivery) : Prop where
  newer : d.message.lastUpdateId < e.message.lastUpdateId
  gapFree : e.message.firstUpdateId ≤ d.message.lastUpdateId + 1

/-- **The job's book is a partial copy.**  After accepted truthful messages that follow each other
it agrees with the exchange's book, at the id of the last message, on every level that one of them
has listed, and has no other level. -/
theorem fold_inSyncOn {x : Exchange} (past : List Delivery) (d : Delivery)
    (hchain : List.IsChain Follows (past ++ [d]))
    (htruth : ∀ e ∈ past ++ [d], e.message.diff.Truthful x.history) :
    ((bookAfter (past ++ [d])).replica d.message.lastUpdateId).InSyncOn x.history
      (listed (past ++ [d])) := by
  induction past using List.reverseRecOn generalizing d with
  | nil =>
      have hblank := Replica.patch_blank_inSyncOn (htruth d (by simp))
      have hbook : (bookAfter ([] ++ [d])).replica d.message.lastUpdateId
          = ⟨d.message.diff.last, patch (fun _ => none) d.message.diff.entries⟩ := by
        rw [bookAfter_append_singleton, (bookAfter_isNumeric []).apply_replica d.message 0]
        congr 2
        funext level
        rcases level with ⟨side, price⟩
        cases side <;> rfl
      have hlisted : listed ([] ++ [d]) = d.message.diff.keys := by
        ext level
        simp [listed]
      rw [hbook, hlisted]
      exact hblank
  | append_singleton past e ih =>
      rw [List.append_assoc, List.singleton_append, List.isChain_append_cons_cons] at hchain
      rcases hchain with ⟨hinitial, hfollows, _⟩
      have hsync := ih e hinitial fun c hc => htruth c (by
        rw [List.mem_append] at hc ⊢
        exact Or.inl (by simpa using hc))
      rw [bookAfter_append_singleton, listed_append_singleton (past ++ [e]),
        (bookAfter_isNumeric (past ++ [e])).apply_replica d.message e.message.lastUpdateId]
      exact Replica.patch_inSyncOn hsync (htruth d (by simp)) hfollows.newer hfollows.gapFree

/-! ## One row -/

/-- One side of a quote.  Against a copy `m` of the exchange's side `b` that agrees with it on the
listed prices and has no others, the best price of the copy is the best price of the exchange
exactly when the latter is listed. -/
lemma best_of_copy_iff {better : ℚ → ℚ → Prop} (hanti : ∀ a b, better a b → better b a → a = b)
    {m b : String → Option String} {S : Set String}
    (hin : ∀ p ∈ S, m p = b p) (hout : ∀ p ∉ S, m p = none)
    (hunique : ∀ p q p' q', b p = some q → b p' = some q' → value p = value p' → p = p')
    {price qty : String} (hbest : IsBest better m price qty) :
    (∃ p q, IsBest better b p q ∧ PyFloat.fin (value price) = .fin (value p) ∧
        PyFloat.fin (value qty) = .fin (value q)) ↔ ∃ p q, IsBest better b p q ∧ p ∈ S := by
  have hlisted : price ∈ S := by
    by_contra hnot
    have hlevel := hbest.level
    rw [hout price hnot] at hlevel
    cases hlevel
  have hlevel : b price = some qty := by
    rw [← hin price hlisted]
    exact hbest.level
  constructor
  · rintro ⟨p, q, hb, hp, _⟩
    have heq : price = p := hunique _ _ _ _ hlevel hb.level (PyFloat.fin.inj hp)
    exact ⟨p, q, hb, heq ▸ hlisted⟩
  · rintro ⟨p, q, hb, hp⟩
    have hle := hb.best price qty hlevel
    have hge := hbest.best p q (by rw [hin p hp]; exact hb.level)
    have hvalue := hanti _ _ hge hle
    have heq : p = price := hunique _ _ _ _ hb.level hlevel hvalue
    subst heq
    have hqty : qty = q := Option.some.inj (hlevel.symm.trans hb.level)
    exact ⟨p, q, hb, rfl, by rw [hqty]⟩

section Row

variable {x : Exchange} {book : Book} {last : ℤ} {S : Set Level}

lemma InSyncOn.bids (h : (book.replica last).InSyncOn x.history S) :
    (∀ p, (Side.bid, p) ∈ S → book.bids.get? p = x.book last.toNat .bid p) ∧
      ∀ p, (Side.bid, p) ∉ S → book.bids.get? p = none :=
  ⟨fun p hp => h.inside (.bid, p) hp, fun p hp => h.outside (.bid, p) hp⟩

lemma InSyncOn.asks (h : (book.replica last).InSyncOn x.history S) :
    (∀ p, (Side.ask, p) ∈ S → book.asks.get? p = x.book last.toNat .ask p) ∧
      ∀ p, (Side.ask, p) ∉ S → book.asks.get? p = none :=
  ⟨fun p hp => h.inside (.ask, p) hp, fun p hp => h.outside (.ask, p) hp⟩

/-- The partial copy has a quote exactly when the exchange has listed levels on both sides. -/
lemma quote_isSome_iff (hnum : book.IsNumeric) (h : (book.replica last).InSyncOn x.history S) :
    book.quote.isSome ↔ TwoSided x last.toNat S := by
  have hside : ∀ (m : Dict String String) (b : String → Option String) (P : String → Prop),
      (∀ p, P p → m.get? p = b p) → (∀ p, ¬ P p → m.get? p = none) →
      (m.items ≠ [] ↔ ∃ price qty, P price ∧ b price = some qty) := by
    intro m b P hin hout
    constructor
    · intro hne
      rcases List.exists_mem_of_ne_nil _ hne with ⟨⟨price, qty⟩, hmem⟩
      have hget := Dict.mem_items_iff.mp hmem
      by_cases hP : P price
      · exact ⟨price, qty, hP, by rw [← hin price hP, hget]⟩
      · rw [hout price hP] at hget
        cases hget
    · rintro ⟨price, qty, hP, hb⟩ hnil
      have hmem := Dict.mem_items_iff.mpr ((hin price hP).trans hb)
      rw [hnil] at hmem
      cases hmem
  have hbids := hside book.bids (x.book last.toNat .bid) (fun p => (Side.bid, p) ∈ S)
    (InSyncOn.bids h).1 (InSyncOn.bids h).2
  have hasks := hside book.asks (x.book last.toNat .ask) (fun p => (Side.ask, p) ∈ S)
    (InSyncOn.asks h).1 (InSyncOn.asks h).2
  have hnone := hnum.quote_eq_none_iff
  have htwo : TwoSided x last.toNat S ↔
      (∃ price qty, (Side.bid, price) ∈ S ∧ x.book last.toNat .bid price = some qty) ∧
        ∃ price qty, (Side.ask, price) ∈ S ∧ x.book last.toNat .ask price = some qty := by
    constructor
    · exact fun hall => ⟨hall .bid, hall .ask⟩
    · rintro ⟨hb, ha⟩ side
      cases side with
      | bid => exact hb
      | ask => exact ha
  rw [htwo, ← hbids, ← hasks, Option.isSome_iff_ne_none, Ne, hnone, not_or]

/-- **A row is true exactly when the exchange's best levels are listed.** -/
theorem row_true_iff (hx : x.Canonical) {d : Delivery} (hlast : d.message.lastUpdateId = last)
    (hnum : book.IsNumeric) (h : (book.replica last).InSyncOn x.history S) {q : Quote}
    (hq : book.quote = some q) :
    RowIsTrue x (d.row q) ↔ BestListed x last.toNat S := by
  rcases hnum.quote_spec hq with ⟨bp, bq, ap, aq, hbid, hask, _, _, _, _, rfl⟩
  have hunique : ∀ side p q p' q', x.book last.toNat side p = some q →
      x.book last.toNat side p' = some q' → value p = value p' → p = p' :=
    fun side p q p' q' hp hp' => hx.unique p (Exchange.mem_prices hp) p' (Exchange.mem_prices hp')
  have hb := best_of_copy_iff (fun a b => le_antisymm) (InSyncOn.bids h).1 (InSyncOn.bids h).2
    (hunique .bid) hbid
  have ha := best_of_copy_iff (fun a b hab hba => le_antisymm hba hab) (InSyncOn.asks h).1
    (InSyncOn.asks h).2 (hunique .ask) hask
  simp only [RowIsTrue, BestListed, Delivery.row, hlast]
  exact and_congr hb ha

end Row

/-! ## The records of a session -/

/-- The records repeat the live depth updates, under the session's key. -/
lemma records_of_session {symbol : String} {live : List Arrival} {published : List OrderBookEvent}
    {log : List Delivery} (hpublished : List.Forall₂ (Republishes symbol) live published)
    (hlog : List.Forall₂ IsRecordOf published log) :
    log.map (·.message.diff) = live.map (·.event.diff) ∧
      ∀ d ∈ log, d.message.key = "binance#" ++ symbol := by
  induction hpublished generalizing log with
  | nil =>
      cases hlog
      exact ⟨rfl, fun d hd => by cases hd⟩
  | @cons a out live published ha _ ih =>
      rcases hlog with _ | ⟨hd, hrest⟩
      rename_i d log
      rcases ih hrest with ⟨hdiffs, hkeys⟩
      have hdiff : d.message.diff = a.event.diff := by
        simp only [DepthMessage.diff, BinanceDepthEvent.diff, hd.firstUpdateId, hd.lastUpdateId,
          hd.bids, hd.asks, ha.firstUpdateId, ha.lastUpdateId, ha.bids, ha.asks]
      refine ⟨by rw [List.map_cons, List.map_cons, hdiff, hdiffs], ?_⟩
      intro e he
      rcases List.mem_cons.mp he with rfl | he
      · rw [DepthMessage.key, hd.exchange, hd.symbol, ha.exchange, ha.symbol]
        rfl
      · exact hkeys e he

/-- What dedup accepts of a gap-free stream follows each other. -/
lemma accepted_follows {log : List Delivery} {d last : Delivery}
    (hchain : List.IsChain
      (fun d e : Delivery => e.message.firstUpdateId ≤ d.message.lastUpdateId + 1) (d :: log))
    (hle : d.message.lastUpdateId ≤ last.message.lastUpdateId) :
    List.IsChain Follows (last :: accepted (some last.message.lastUpdateId) log) := by
  induction log generalizing d last with
  | nil => exact List.IsChain.singleton last
  | cons e log ih =>
      rw [List.isChain_cons_cons] at hchain
      rcases hchain with ⟨hgap, hchain⟩
      rw [accepted]
      split_ifs with hfresh
      · have hnewer := fresh_some.mp hfresh
        exact List.isChain_cons_cons.mpr ⟨⟨hnewer, by omega⟩, ih hchain (le_refl _)⟩
      · refine ih hchain ?_
        rw [fresh_some] at hfresh
        omega

lemma accepted_none_follows {log : List Delivery}
    (hchain : List.IsChain
      (fun d e : Delivery => e.message.firstUpdateId ≤ d.message.lastUpdateId + 1) log) :
    List.IsChain Follows (accepted none log) := by
  cases log with
  | nil => exact List.IsChain.nil
  | cons d log =>
      rw [accepted, if_pos (by simp [Fresh])]
      exact accepted_follows hchain (le_refl _)

lemma mem_of_mem_accepted {lastSeen : Option ℤ} {log : List Delivery} {d : Delivery}
    (h : d ∈ accepted lastSeen log) : d ∈ log := by
  induction log generalizing lastSeen with
  | nil => cases h
  | cons e log ih =>
      rw [accepted] at h
      split_ifs at h
      · rcases List.mem_cons.mp h with rfl | h
        · exact List.mem_cons_self
        · exact List.mem_cons_of_mem e (ih h)
      · exact List.mem_cons_of_mem e (ih h)

/-- **When the rows are true.**  A session is fed truthfully and without gaps and has not raised;
the records of what it published are processed in order, none late, from an empty state of the key.
Every row shows the exchange's best bid and best ask at its id if and only if, for every published
message newer than all before it that leaves listed levels on both sides, the exchange's best levels
at its id are among those that it or an accepted message before it has listed. -/
theorem rows_true_iff (render : Json → String) (x : Exchange) (hx : x.Canonical) (s : Session)
    (book : OrderBook) (effects : List Effect) (hrun : runOnce s = .ok (book, effects))
    (htruth : TruthfulSession x s) (log : List Delivery)
    (hlog : List.Forall₂ IsRecordOf (publishedOf effects) log) (honTime : ∀ d ∈ log, ¬ d.Late)
    (s₀ : String → ProcessorState) (hs₀ : s₀ ("binance#" ++ s.symbol) = ProcessorState.empty) :
    ∃ s' rows, normalize render s₀ (log.map Delivery.element) = .ok (s', rows) ∧
      ((∀ row ∈ rows, RowIsTrue x row) ↔
        ∀ past d rest, accepted none log = past ++ d :: rest →
          TwoSided x d.message.lastUpdateId.toNat (listed (past ++ [d])) →
          BestListed x d.message.lastUpdateId.toNat (listed (past ++ [d]))) := by
  rcases runOnce_ok hrun with ⟨_, _, _, _, _, _, _, hpublished⟩
  rcases records_of_session hpublished hlog with ⟨hdiffs, hkey⟩
  rcases normalize_ofKey render hkey hs₀ with ⟨s', hnormal⟩
  -- truth and continuity carry over from the live arrivals to the accepted records
  have htrue : ∀ d ∈ accepted none log, d.message.diff.Truthful x.history := by
    intro d hd
    have hmem : d.message.diff ∈ s.live.map (·.event.diff) := by
      rw [← hdiffs]
      exact List.mem_map_of_mem (mem_of_mem_accepted hd)
    rcases List.mem_map.mp hmem with ⟨a, ha, hdiff⟩
    rw [← hdiff]
    exact (htruth.events a (List.mem_append_right _ ha)).diff_truthful
  have hchain : List.IsChain Follows (accepted none log) := by
    have hlive : List.IsChain (fun d e : Diff Level String => e.first ≤ d.last + 1)
        (s.live.map (·.event.diff)) :=
      (List.isChain_map _).mpr (List.isChain_append.mp htruth.gapFree).2.1
    rw [← hdiffs, List.isChain_map] at hlive
    exact accepted_none_follows hlive
  have hsync : ∀ past d rest, accepted none log = past ++ d :: rest →
      ((bookAfter (past ++ [d])).replica d.message.lastUpdateId).InSyncOn x.history
        (listed (past ++ [d])) := by
    intro past d rest hsplit
    have hinitial : accepted none log = (past ++ [d]) ++ rest := by
      rw [hsplit, List.append_assoc]
      rfl
    refine fold_inSyncOn past d ?_ fun e he => htrue e ?_
    · rw [hinitial] at hchain
      exact (List.isChain_append.mp hchain).1
    · rw [hinitial]
      exact List.mem_append_left rest he
  have hlate : ∀ d ∈ accepted none log, ¬ d.Late := by
    intro d hd
    exact honTime d (mem_of_mem_accepted hd)
  refine ⟨s', _, hnormal, ?_⟩
  constructor
  · intro hall past d rest hsplit htwo
    rcases Option.isSome_iff_exists.mp ((quote_isSome_iff (bookAfter_isNumeric _)
      (hsync past d rest hsplit)).mpr htwo) with ⟨q, hq⟩
    have hrow := hall (d.row q) ((mem_rowsOf_iff hlate).mpr ⟨past, d, rest, q, hsplit, hq, rfl⟩)
    exact (row_true_iff hx rfl (bookAfter_isNumeric _) (hsync past d rest hsplit) hq).mp hrow
  · intro hall row hrow
    rcases (mem_rowsOf_iff hlate).mp hrow with ⟨past, d, rest, q, hsplit, hq, rfl⟩
    have hsome : (bookAfter (past ++ [d])).quote.isSome := Option.isSome_iff_exists.mpr ⟨q, hq⟩
    have htwo := (quote_isSome_iff (bookAfter_isNumeric _) (hsync past d rest hsplit)).mp hsome
    exact (row_true_iff hx rfl (bookAfter_isNumeric _) (hsync past d rest hsplit) hq).mpr
      (hall past d rest hsplit htwo)

/-! ## Two sample sessions -/

lemma sampleExchange_canonical : sampleExchange.Canonical := by
  have hprices : ∀ price ∈ sampleExchange.prices, price ∈ ["100", "101", "90", "110"] := by
    rintro price (⟨side, hinit⟩ | ⟨n, rfl⟩)
    · simp only [sampleExchange] at hinit
      split_ifs at hinit with hbid hask
      · rw [(Prod.mk.inj hbid).2]
        decide
      · rw [(Prod.mk.inj hask).2]
        decide
      · exact absurd rfl hinit
    · simp only [sampleExchange]
      split_ifs <;> decide
  have hnumeric : ∀ price ∈ ["100", "101", "90", "110"], Numeric price := by decide +kernel
  have hunique : ∀ price ∈ ["100", "101", "90", "110"], ∀ price' ∈ ["100", "101", "90", "110"],
      value price = value price' → price = price' := by decide +kernel
  refine ⟨?_, ?_⟩
  · intro p hp
    exact hnumeric p (hprices p hp)
  · intro p hp p' hp'
    exact hunique p (hprices p hp) p' (hprices p' hp')

/-- The record of what a sample session publishes for an event. -/
def sampleRecord (symbol : String) (event : BinanceDepthEvent) (hbids : NumericLevels event.bids)
    (hasks : NumericLevels event.asks) : Delivery :=
  deliveryOf ⟨"binance#" ++ symbol ++ "#" ++ toString event.lastUpdateId, "binance", symbol,
    1704067200000, 1704067200000, event.firstUpdateId, event.lastUpdateId, event.bids, event.asks,
    hbids, hasks⟩ rfl rfl 0 50

lemma isRecordOf_sampleRecord (symbol : String) {event : BinanceDepthEvent}
    (hbids : NumericLevels event.bids) (hasks : NumericLevels event.asks) :
    IsRecordOf (publicationOf symbol event) (sampleRecord symbol event hbids hasks) := by
  have hms : (1704067200000 : ℤ) = epochMs 1704067200000000 := by decide
  exact ⟨rfl, rfl, rfl, hms, hms, rfl, rfl, rfl, rfl⟩

/-- A session that is fed with true events without gaps behind the snapshot. -/
lemma sessionOf_truthful (symbol : String) {events : List BinanceDepthEvent}
    (htype : ∀ event ∈ events, event.eventType = "depthUpdate")
    (htruth : ∀ event ∈ events, TruthfulEvent sampleExchange event)
    (hchain : List.IsChain (fun e f => f.firstUpdateId ≤ e.lastUpdateId + 1) events) :
    TruthfulSession sampleExchange (sessionOf symbol events) := by
  have hlive : ((sessionOf symbol events).buffered ++ (sessionOf symbol events).live).map
      (·.event) = events := by
    have harrivals : (sessionOf symbol events).live
        = events.zipIdx.map fun entry => ⟨entry.2, entry.1⟩ := by
      rw [Session.live, sessionOf, List.filterMap_map, ← List.filterMap_eq_map]
      refine List.filterMap_congr fun entry hentry => ?_
      have hdepth := htype entry.1 (List.fst_mem_of_mem_zipIdx hentry)
      simp [Frame.arrival, hdepth]
    rw [harrivals, List.map_append, List.map_map]
    exact List.zipIdx_map_fst 0 events
  refine ⟨?_, ?_, ?_⟩
  · intro snapshot hsnapshot
    cases hsnapshot
    exact sampleSnapshot_truthful
  · intro a ha
    exact htruth a.event (hlive ▸ List.mem_map_of_mem ha)
  · rw [← hlive, List.isChain_map] at hchain
    exact hchain

/-- After update 3 the best levels of the sample exchange are still those of the beginning. -/
lemma sampleExchange_best :
    IsBest (· ≤ ·) (sampleExchange.book 3 .bid) "100" "1" ∧
      IsBest (· ≥ ·) (sampleExchange.book 3 .ask) "101" "1" := by
  have hbid : value "90" ≤ value "100" := by decide +kernel
  have hask : value "101" ≤ value "110" := by decide +kernel
  refine ⟨⟨?_, ?_⟩, ⟨?_, ?_⟩⟩
  · rw [sampleExchange_book_three, sampleExchange_book_one]
    decide
  · intro p q hpq
    rw [sampleExchange_book_three, sampleExchange_book_one] at hpq
    split_ifs at hpq with h₁ h₂ h₃ h₄
    · cases h₁
    · rw [(Prod.mk.inj h₂).2]
      exact hbid
    · rw [(Prod.mk.inj h₃).2]
    · cases h₄
  · rw [sampleExchange_book_three, sampleExchange_book_one]
    decide
  · intro p q hpq
    rw [sampleExchange_book_three, sampleExchange_book_one] at hpq
    split_ifs at hpq with h₁ h₂ h₃ h₄
    · rw [(Prod.mk.inj h₁).2]
      exact hask
    · cases h₂
    · cases h₃
    · rw [(Prod.mk.inj h₄).2]

lemma topEvent_bids : NumericLevels topEvent.bids := by decide +kernel

lemma topEvent_asks : NumericLevels topEvent.asks := by decide +kernel

lemma nextEvent_bids : NumericLevels nextEvent.bids := by decide +kernel

lemma nextEvent_asks : NumericLevels nextEvent.asks := by decide +kernel

/-- The record of updates 1 to 3. -/
def topRecord (symbol : String) : Delivery :=
  sampleRecord symbol topEvent topEvent_bids topEvent_asks

/-- The record of update 4. -/
def nextRecord (symbol : String) : Delivery :=
  sampleRecord symbol nextEvent nextEvent_bids nextEvent_asks

theorem rows_true_iff_sample :
    ∃ book effects s rows,
      runOnce (sessionOf "btcusdt" [topEvent, nextEvent]) = .ok (book, effects) ∧
      normalize (fun _ => "") noState
        ([topRecord "btcusdt", nextRecord "btcusdt"].map Delivery.element) = .ok (s, rows) ∧
      rows.map (fun row => (row.lastUpdateId, row.bestBidPrice)) = [(3, .fin 100), (4, .fin 100)] ∧
      ∀ row ∈ rows, RowIsTrue sampleExchange row := by
  obtain ⟨book, effects, hrun, hpublished⟩ := @exists_run_of_published
    (sessionOf "btcusdt" [topEvent, nextEvent])
    [publicationOf "btcusdt" topEvent, publicationOf "btcusdt" nextEvent] (by decide +kernel)
  have htruth : TruthfulSession sampleExchange (sessionOf "btcusdt" [topEvent, nextEvent]) := by
    refine sessionOf_truthful "btcusdt" (by decide) ?_ (by decide)
    intro event hevent
    rcases List.mem_pair.mp hevent with rfl | rfl
    · exact topEvent_truthful
    · exact nextEvent_truthful
  have hrecords : List.Forall₂ IsRecordOf (publishedOf effects)
      [topRecord "btcusdt", nextRecord "btcusdt"] := by
    rw [hpublished]
    exact .cons (isRecordOf_sampleRecord _ _ _) (.cons (isRecordOf_sampleRecord _ _ _) .nil)
  obtain ⟨s, rows, hnormal, hiff⟩ := rows_true_iff (fun _ => "") sampleExchange
    sampleExchange_canonical _ book effects hrun htruth _ hrecords (by decide) noState rfl
  refine ⟨book, effects, s, rows, hrun, hnormal, ?_, hiff.mpr ?_⟩
  · rw [normalize_noState, Except.ok.injEq] at hnormal
    have hrows : (Transducer.runPure normalizeStep noState
        [topRecord "btcusdt", nextRecord "btcusdt"]).2 = rows := congrArg Prod.snd hnormal
    rw [← hrows]
    decide +kernel
  · intro past d rest hsplit _
    -- the levels of the first message stay listed, and stay the best
    have hcases : topRecord "btcusdt" ∈ past ++ [d] ∧
        (d.message.lastUpdateId.toNat = 3 ∨ d.message.lastUpdateId.toNat = 4) := by
      have hall : [topRecord "btcusdt", nextRecord "btcusdt"] = past ++ d :: rest := hsplit
      match past, hall with
      | [], hall =>
          obtain ⟨rfl, _⟩ := List.cons.inj hall
          exact ⟨List.mem_singleton_self _, .inl rfl⟩
      | [c], hall =>
          obtain ⟨rfl, hrest⟩ := List.cons.inj hall
          obtain ⟨rfl, _⟩ := List.cons.inj hrest
          exact ⟨List.mem_cons_self, .inr rfl⟩
      | c :: c' :: past, hall => simp at hall
    obtain ⟨htop, hid⟩ := hcases
    have hlisted : ∀ level ∈ [(Side.bid, "100"), (Side.ask, "101")], level ∈ listed (past ++ [d]) := by
      intro level hlevel
      refine ⟨_, htop, mem_keys_diffEntries.mpr ?_⟩
      revert level
      decide
    have hbook : ∀ side, sampleExchange.book d.message.lastUpdateId.toNat side
        = sampleExchange.book 3 side := by
      intro side
      rcases hid with hid | hid
      · rw [hid]
      · rw [hid]
        exact funext (sampleExchange_book_four side)
    rw [BestListed, hbook, hbook]
    exact ⟨⟨_, _, sampleExchange_best.1, hlisted _ (by decide)⟩,
      ⟨_, _, sampleExchange_best.2, hlisted _ (by decide)⟩⟩

/-- The record of updates 2 and 3, with the levels they change. -/
def firstRecord : Delivery :=
  sampleRecord "btcusdt" sampleEvent (by decide +kernel) (by decide +kernel)

/-- **The snapshot's levels are missing.**  The first diff of the sample session is away from the
top of the book, and the row it leads to shows the diff's levels, not the exchange's best. -/
theorem snapshot_levels_are_missing :
    ¬ ∀ (render : Json → String) (x : Exchange) (s : Session) (book : OrderBook)
        (effects : List Effect) (log : List Delivery) (s₀ s' : String → ProcessorState)
        (rows : List BookTickerRow),
      x.Canonical → runOnce s = .ok (book, effects) → TruthfulSession x s →
      List.Forall₂ IsRecordOf (publishedOf effects) log → (∀ d ∈ log, ¬ d.Late) →
      s₀ ("binance#" ++ s.symbol) = ProcessorState.empty →
      normalize render s₀ (log.map Delivery.element) = .ok (s', rows) →
      ∀ row ∈ rows, RowIsTrue x row := by
  intro h
  obtain ⟨book, effects, hrun, hpublished⟩ := @exists_run_of_published
    (sessionOf "btcusdt" [sampleEvent]) [publicationOf "btcusdt" sampleEvent] (by decide +kernel)
  have htruth : TruthfulSession sampleExchange (sessionOf "btcusdt" [sampleEvent]) :=
    sessionOf_truthful "btcusdt" (by decide)
      (fun event hevent => List.mem_singleton.mp hevent ▸ sampleEvent_truthful) (by decide)
  have hrecords : List.Forall₂ IsRecordOf (publishedOf effects) [firstRecord] := by
    rw [hpublished]
    exact .cons (isRecordOf_sampleRecord _ _ _) .nil
  have hrows := h (fun _ => "") sampleExchange (sessionOf "btcusdt" [sampleEvent]) book effects
    [firstRecord] noState _ _ sampleExchange_canonical hrun htruth hrecords (by decide) rfl
    (normalize_noState _ _)
  have hfirst : ((Transducer.runPure normalizeStep noState [firstRecord]).2.head?.map
      fun row => (row.lastUpdateId, row.bestBidPrice)) = some (3, .fin 90) := by decide +kernel
  rcases Option.map_eq_some_iff.mp hfirst with ⟨row, hrow, hshown⟩
  rcases hrows row (List.mem_of_mem_head? hrow) with ⟨⟨price, qty, hbest, hprice, _⟩, _⟩
  rcases Prod.mk.inj hshown with ⟨hid, hbid⟩
  rw [hid] at hbest
  rw [hbid] at hprice
  have hle := hbest.best "100" "1" sampleExchange_best.1.level
  rw [← PyFloat.fin.inj hprice] at hle
  exact absurd hle (by decide +kernel)

end Ticksense
