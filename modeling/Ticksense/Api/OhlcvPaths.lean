import Mathlib.Data.List.Pairwise
import Mathlib.Data.String.Basic
import Ticksense.Api.Poller
import Ticksense.Lib.Sql

/-!
# The two paths of `get_ohlcv`

A request without a time range and with a limit that the poller preloads is answered from the read
model; every other one is answered from the table.

* `OhlcvSql` — the poller's query: the 60 newest bars of each symbol, of the last two hours.
* `ColdQuery` — the query of the router.
* `getOhlcv` — the handler, with its cold cache.
* `hot_bars_are_the_recent_cold_bars` — for one table, what the two paths answer.
-/

namespace Ticksense

/-! ## The table -/

/-- A row of `mart_ohlcv`; instants are in microseconds. -/
structure MartBar where
  exchange : String
  symbol : String
  windowStart : ℤ
  windowEnd : ℤ
  openPrice : Cell
  highPrice : Cell
  lowPrice : Cell
  closePrice : Cell
  volume : Cell
  vwap : Cell
  tickCount : Cell
  firstTs : Cell
  lastTs : Cell

/-- The row as the client returns it. -/
def MartBar.row (bar : MartBar) : Row where
  items := [("exchange", .str bar.exchange), ("symbol", .str bar.symbol),
    ("window_start", .timestamp ⟨bar.windowStart, some 0⟩),
    ("window_end", .timestamp ⟨bar.windowEnd, some 0⟩), ("open_price", bar.openPrice),
    ("high_price", bar.highPrice), ("low_price", bar.lowPrice), ("close_price", bar.closePrice),
    ("volume", bar.volume), ("vwap", bar.vwap), ("tick_count", bar.tickCount),
    ("first_ts", bar.firstTs), ("last_ts", bar.lastTs)]
  nodup := by simp

/-- `ORDER BY window_start DESC` -/
def newestFirst (a b : MartBar) : Prop := b.windowStart ≤ a.windowStart

/-- `ORDER BY symbol, window_start DESC` -/
def bySymbol (a b : MartBar) : Prop :=
  a.symbol < b.symbol ∨ a.symbol = b.symbol ∧ newestFirst a b

/-- `INTERVAL '2' HOUR` -/
def preloadedMicros : ℤ := 2 * 60 * 60 * 1000000

/-- `window_start >= NOW() - INTERVAL '2' HOUR` -/
def MartBar.recent (now : ℤ) (bar : MartBar) : Bool := now - preloadedMicros ≤ bar.windowStart

/-- `_PRELOADED_BARS`, and the bound of `rn` in `_OHLCV_SQL` -/
def preloadedBars : ℕ := 60

/-- A result of `_OHLCV_SQL`. -/
def OhlcvSql (table : List MartBar) (now : ℤ) (result : List MartBar) : Prop :=
  ∃ t, Sql.FirstRowsPerKey MartBar.symbol newestFirst preloadedBars (table.filter (·.recent now))
    t ∧ Sql.OrderBy bySymbol t result

/-- The statement that the cold path puts together, with its parameters. -/
structure ColdQuery where
  symbol : String
  fromTs : Option Datetime
  toTs : Option Datetime
  limit : ℕ

/-- The conditions of the statement; `sqlLower` is `LOWER`. -/
def ColdQuery.selects (sqlLower : String → String) (q : ColdQuery) (bar : MartBar) : Bool :=
  sqlLower bar.symbol = sqlLower q.symbol &&
    q.fromTs.all (fun ts => ts.instant ≤ bar.windowStart) &&
    q.toTs.all (fun ts => bar.windowEnd ≤ ts.instant)

/-- A result of the statement. -/
def ColdQuery.Result (sqlLower : String → String) (q : ColdQuery) (table result : List MartBar) :
    Prop :=
  Sql.FirstRows newestFirst q.limit (table.filter (q.selects sqlLower)) result

/-! ## The handler -/

/-- What a handler raises. -/
inductive Failure
  | http (e : HttpError)
  | exception (e : PyError)

structure OhlcvRequest where
  symbol : String
  limit : ℕ := 60
  fromTs : Option Datetime := none
  toTs : Option Datetime := none

/-- A key of `_cold_cache`. -/
abbrev ColdKey := String × ℕ × Option Datetime × Option Datetime

def noOhlcvData (sym : String) : Failure := .http ⟨404, "No OHLCV data for symbol " ++ sym⟩

/-- The hot path. -/
def hotOhlcv (m : ReadModel) (sym : String) (limit : ℕ) : Except Failure OHLCVResponse :=
  if m.ready then
    match m.ohlcv.get? sym with
    | none => .error (noOhlcvData sym)
    | some cached =>
        .ok { symbol := sym, exchange := cached.exchange, bars := cached.bars.take limit
              count := (cached.bars.take limit).length }
  else .error (.http ⟨503, "Service warming up"⟩)

/-- The cold path, from the rows on. -/
def coldOhlcv (lib : Libraries) (sym : String) : List Row → Except Failure OHLCVResponse
  | [] => .error (noOhlcvData sym)
  | r :: rows =>
      match (r :: rows).mapM (OHLCVBar.modelValidate lib), r.getItem "exchange" with
      | .ok bars, .ok exchange =>
          .ok { symbol := sym, exchange := lib.str exchange, bars, count := bars.length }
      | .error e, _ => .error (.exception e)
      | .ok _, .error e => .error (.exception e)

/-- `get_ohlcv`: the answer, and the key under which it is put into the cold cache, if it is.
`cache` is what the cold cache has when it is asked, `fetch` the answer of the query engine. -/
def getOhlcv (lib : Libraries) (m : ReadModel) (cache : ColdKey → Option OHLCVResponse)
    (fetch : ColdQuery → Except PyError (List Row)) (request : OhlcvRequest) :
    Except Failure (OHLCVResponse × Option ColdKey) :=
  let sym := lib.upper request.symbol
  if request.fromTs.isNone && request.toTs.isNone && request.limit ≤ preloadedBars then
    (hotOhlcv m sym request.limit).map fun response => (response, none)
  else
    let key := (sym, request.limit, request.fromTs, request.toTs)
    match cache key with
    | some response => .ok (response, none)
    | none =>
        match fetch ⟨sym, request.fromTs, request.toTs, request.limit⟩ with
        | .error e => .error (.exception e)
        | .ok rows => (coldOhlcv lib sym rows).map fun response => (response, some key)

/-! ## Rows -/

@[simp] lemma row_exchange (bar : MartBar) : bar.row.get? "exchange" = some (.str bar.exchange) :=
  rfl

@[simp] lemma symbolKey_row (lib : Libraries) (bar : MartBar) :
    bar.row.symbolKey lib = some (lib.upper bar.symbol) := rfl

lemma rowsUnder_rows (lib : Libraries) (bars : List MartBar) (sym : String) :
    rowsUnder lib (bars.map MartBar.row) sym =
      (bars.filter fun bar => lib.upper bar.symbol = sym).map MartBar.row := by
  rw [rowsUnder, List.filter_map]
  refine congrArg _ (List.filter_congr fun bar _ => ?_)
  simp

/-- A bar keeps the beginning of its window. -/
lemma windowStart_of_validate {lib : Libraries}
    (hdatetime : ∀ ts, lib.asDatetime (.timestamp ts) = some ts) {bar : MartBar} {b : OHLCVBar}
    (h : OHLCVBar.modelValidate lib bar.row = .ok b) : b.windowStart.instant = bar.windowStart := by
  unfold OHLCVBar.modelValidate at h
  simp only [bind_eq_ok, pure_eq_ok, Except.ok.injEq] at h
  obtain ⟨_, _, _, _, windowStart, hstart, h⟩ := h
  have hfield : bar.row.field lib.asDatetime "window_start" = .ok ⟨bar.windowStart, some 0⟩ := by
    rw [Row.field, show bar.row.get? "window_start" = some (.timestamp ⟨bar.windowStart, some 0⟩)
      from rfl, Option.bind_some, hdatetime]
  rw [hfield, Except.ok.injEq] at hstart
  obtain ⟨_, _, _, _, _, _, _, _, _, _, _, _, _, _, _, _, _, _, _, _, rfl⟩ := h
  rw [← hstart]
  simp [Datetime.instant]

/-! ## The hot rows -/

section Table

variable {table : List MartBar}
  (hdistinct : table.Pairwise fun a b => a.symbol = b.symbol → a.windowStart ≠ b.windowStart)
include hdistinct

/-- Bars of one symbol are told apart by their windows. -/
lemma eq_of_newestFirst {a b : MartBar} (ha : a ∈ table) (hb : b ∈ table)
    (hsymbol : a.symbol = b.symbol) (hab : newestFirst a b) (hba : newestFirst b a) : a = b := by
  by_contra hne
  have : Std.Symm fun a b : MartBar => a.symbol = b.symbol → a.windowStart ≠ b.windowStart :=
    ⟨fun _ _ h heq => (h heq.symm).symm⟩
  exact hdistinct.forall ha hb hne hsymbol (le_antisymm hba hab)

/-- **The hot rows of a symbol** are the newest of its recent ones. -/
lemma hot_rows_of_symbol {now : ℤ} {hot sorted : List MartBar} {s : String}
    (hhot : OhlcvSql table now hot)
    (hsorted : Sql.OrderBy newestFirst (table.filter (·.symbol = s)) sorted) :
    hot.filter (·.symbol = s) = (sorted.filter (·.recent now)).take preloadedBars := by
  obtain ⟨t, htop, horder⟩ := hhot
  obtain ⟨_, ⟨sorted', hsorted', rfl⟩, hfirst⟩ := htop s
  have hfilter : (table.filter (·.symbol = s)).filter (·.recent now) =
      (table.filter (·.recent now)).filter (·.symbol = s) := List.filter_comm _ _ table
  have hmem : ∀ a ∈ (table.filter (·.recent now)).filter (·.symbol = s),
      a ∈ table ∧ a.symbol = s := by
    intro a ha
    rw [List.mem_filter, List.mem_filter, decide_eq_true_eq] at ha
    exact ⟨ha.1.1, ha.2⟩
  have hantisymm : ∀ a ∈ (table.filter (·.recent now)).filter (·.symbol = s),
      ∀ b ∈ (table.filter (·.recent now)).filter (·.symbol = s),
      newestFirst a b → newestFirst b a → a = b := by
    intro a ha b hb
    refine eq_of_newestFirst hdistinct (hmem a ha).1 (hmem b hb).1 ?_
    rw [(hmem a ha).2, (hmem b hb).2]
  have hrecent : sorted.filter (·.recent now) = sorted' := by
    refine Sql.OrderBy.unique hantisymm ?_ hsorted'
    rw [← hfilter]
    exact hsorted.filter _
  have hnewest : (hot.filter (·.symbol = s)).Pairwise newestFirst := by
    refine (horder.2.filter _).imp_of_mem ?_
    intro a b ha hb hab
    rw [List.mem_filter, decide_eq_true_eq] at ha hb
    rcases hab with hlt | ⟨_, hnewest⟩
    · rw [ha.2, hb.2] at hlt
      exact absurd hlt (lt_irrefl s)
    · exact hnewest
  have hordered : Sql.OrderBy newestFirst (sorted'.take preloadedBars)
      (hot.filter (·.symbol = s)) :=
    ⟨(horder.1.filter _).trans hfirst, hnewest⟩
  rw [hrecent]
  refine hordered.unique ?_ ⟨List.Perm.refl _, hsorted'.2.take⟩
  intro a ha b hb
  exact hantisymm a (hsorted'.1.mem_iff.mp (List.mem_of_mem_take ha)) b
    (hsorted'.1.mem_iff.mp (List.mem_of_mem_take hb))

omit hdistinct in
/-- The query invents no rows. -/
lemma mem_of_mem_hot {now : ℤ} {hot : List MartBar} {bar : MartBar} (hhot : OhlcvSql table now hot)
    (hbar : bar ∈ hot) : bar ∈ table := by
  obtain ⟨t, htop, horder⟩ := hhot
  obtain ⟨_, ⟨sorted, hsorted, rfl⟩, hfirst⟩ := htop bar.symbol
  have ht : bar ∈ t.filter (·.symbol = bar.symbol) :=
    List.mem_filter.mpr ⟨horder.1.mem_iff.mp hbar, by simp⟩
  have hmem := hsorted.1.mem_iff.mp (List.mem_of_mem_take (hfirst.mem_iff.mp ht))
  exact List.mem_of_mem_filter (List.mem_of_mem_filter hmem)

/-- The same for the bars under a key of the read model, when each symbol has one spelling. -/
lemma hot_rows_under {lib : Libraries} {now : ℤ} {hot sorted : List MartBar} {sym : String}
    (hspelling : ∀ a ∈ table, ∀ b ∈ table,
      lib.upper a.symbol = lib.upper b.symbol → a.symbol = b.symbol)
    (hhot : OhlcvSql table now hot)
    (hsorted : Sql.OrderBy newestFirst (table.filter fun bar => lib.upper bar.symbol = sym)
      sorted) :
    (hot.filter fun bar => lib.upper bar.symbol = sym) =
      (sorted.filter (·.recent now)).take preloadedBars := by
  by_cases hlisted : ∃ bar ∈ table, lib.upper bar.symbol = sym
  · obtain ⟨bar, hbar, rfl⟩ := hlisted
    have hsame : ∀ b ∈ table, decide (lib.upper b.symbol = lib.upper bar.symbol) =
        decide (b.symbol = bar.symbol) := by
      intro b hb
      rw [decide_eq_decide]
      exact ⟨hspelling b hb bar hbar, congrArg lib.upper⟩
    rw [List.filter_congr hsame] at hsorted
    rw [List.filter_congr fun b hb => hsame b (mem_of_mem_hot hhot hb)]
    exact hot_rows_of_symbol hdistinct hhot hsorted
  · have hnone : ∀ l : List MartBar, (∀ bar ∈ l, bar ∈ table) →
        (l.filter fun bar => lib.upper bar.symbol = sym) = [] := by
      intro l hl
      refine List.filter_eq_nil_iff.mpr fun bar hbar => ?_
      rw [decide_eq_true_eq]
      exact fun hsym => hlisted ⟨bar, hl bar hbar, hsym⟩
    rw [hnone table fun _ h => h] at hsorted
    rw [hnone hot fun _ => mem_of_mem_hot hhot, List.perm_nil.mp hsorted.1]
    rfl

end Table

/-! ## The two answers -/

/-- A bar of the table and its validated form. -/
def Validates (lib : Libraries) (bar : MartBar) (b : OHLCVBar) : Prop :=
  OHLCVBar.modelValidate lib bar.row = .ok b

/-- The condition of the hot query on a validated bar. -/
def OHLCVBar.recent (now : ℤ) (b : OHLCVBar) : Bool := now - preloadedMicros ≤ b.windowStart.instant

lemma mapM_rows {lib : Libraries} {bars : List MartBar} {bs : List OHLCVBar} :
    (bars.map MartBar.row).mapM (OHLCVBar.modelValidate lib) = .ok bs ↔
      List.Forall₂ (Validates lib) bars bs := by
  rw [mapM_eq_ok, List.forall₂_map_left_iff]
  rfl

lemma validates_rightUnique (lib : Libraries) : Relator.RightUnique (Validates lib) := by
  intro bar b b' hb hb'
  exact Except.ok.inj (hb.symm.trans hb')

/-- The validated bars that are recent are those of the recent bars. -/
lemma filter_validates {lib : Libraries}
    (hdatetime : ∀ ts, lib.asDatetime (.timestamp ts) = some ts) (now : ℤ) {bars : List MartBar}
    {bs : List OHLCVBar} (h : List.Forall₂ (Validates lib) bars bs) :
    List.Forall₂ (Validates lib) (bars.filter (·.recent now)) (bs.filter (·.recent now)) := by
  refine List.rel_filter ?_ h
  intro bar b hb
  simp [MartBar.recent, OHLCVBar.recent, windowStart_of_validate hdatetime hb]

/-- Two answers over the same bars begin alike. -/
lemma take_eq_of_validates {lib : Libraries} {newest : List MartBar} {bs bs' : List OHLCVBar}
    {n l l' : ℕ} (hl : n ≤ l) (hl' : n ≤ l') (h : List.Forall₂ (Validates lib) (newest.take l) bs)
    (h' : List.Forall₂ (Validates lib) (newest.take l') bs') : bs.take n = bs'.take n := by
  have htake := List.forall₂_take n h
  have htake' := List.forall₂_take n h'
  rw [List.take_take, Nat.min_eq_left hl] at htake
  rw [List.take_take, Nat.min_eq_left hl'] at htake'
  exact (validates_rightUnique lib).forall₂ htake htake'

/-- The recent ones among the newest bars are the newest among the recent ones. -/
lemma recent_take {now : ℤ} {sorted : List MartBar} (h : sorted.Pairwise newestFirst) {m : ℕ} :
    (sorted.take m).filter (·.recent now) = (sorted.filter (·.recent now)).take m := by
  refine Sql.filter_take (h.imp ?_) m
  intro a b hab hb
  rw [MartBar.recent, decide_eq_true_eq] at hb ⊢
  exact le_trans hb hab

/-- What the hot path answers when these are the recent bars of the symbol, newest first. -/
def HotAnswer (lib : Libraries) (m : ReadModel) (sym : String) (n : ℕ) (newest : List MartBar) :
    Prop :=
  (newest = [] ∧ hotOhlcv m sym n = .error (noOhlcvData sym)) ∨
    ∃ bar ∈ newest, ∃ bs, List.Forall₂ (Validates lib) (newest.take preloadedBars) bs ∧
      hotOhlcv m sym n = .ok { symbol := sym, exchange := bar.exchange, bars := bs.take n
                               count := (bs.take n).length }

section HotAnswer

variable {lib : Libraries} {m : ReadModel} {sym : String} {n : ℕ} {newest : List MartBar}

lemma HotAnswer.of_nil (h : HotAnswer lib m sym n newest) (hempty : newest = []) :
    hotOhlcv m sym n = .error (noOhlcvData sym) := by
  rcases h with ⟨_, hanswer⟩ | ⟨bar, hbar, _⟩
  · exact hanswer
  · exact absurd hempty (List.ne_nil_of_mem hbar)

lemma HotAnswer.nil_of_error (h : HotAnswer lib m sym n newest)
    (herror : hotOhlcv m sym n = .error (noOhlcvData sym)) : newest = [] := by
  rcases h with ⟨hempty, _⟩ | ⟨_, _, _, _, hanswer⟩
  · exact hempty
  · rw [herror] at hanswer
    cases hanswer

/-- The hot path on the read model of the rows. -/
lemma hotAnswer_of_ohlcvOf {hot : List MartBar}
    (hcomplete : OhlcvOf lib (hot.map MartBar.row) m.ohlcv) (hready : m.ready = true)
    (hrows : (hot.filter fun bar => lib.upper bar.symbol = sym) = newest.take preloadedBars)
    (n : ℕ) : HotAnswer lib m sym n newest := by
  have hsym := hcomplete sym
  rw [rowsUnder_rows, hrows, List.getLast?_map] at hsym
  cases hlast : (newest.take preloadedBars).getLast? with
  | none =>
      rw [hlast] at hsym
      have hget : m.ohlcv.get? sym = none := hsym
      refine Or.inl ⟨?_, ?_⟩
      · simpa [preloadedBars] using List.getLast?_eq_none_iff.mp hlast
      · simp [hotOhlcv, hready, hget]
  | some bar =>
      rw [hlast] at hsym
      obtain ⟨bs, exchange, hbs, hexchange, hget⟩ := hsym
      rw [row_exchange, Option.some.injEq] at hexchange
      subst hexchange
      have hbar : bar ∈ newest := List.mem_of_mem_take (List.mem_of_getLast? hlast)
      refine Or.inr ⟨bar, hbar, bs, mapM_rows.mp hbs, ?_⟩
      simp [hotOhlcv, hready, hget, Libraries.str]

end HotAnswer

/-- The cold path on rows. -/
lemma coldOhlcv_ok {lib : Libraries} {sym : String} {bars : List MartBar}
    {response : OHLCVResponse} (h : coldOhlcv lib sym (bars.map MartBar.row) = .ok response) :
    ∃ bar ∈ bars, ∃ bs, List.Forall₂ (Validates lib) bars bs ∧
      response = { symbol := sym, exchange := bar.exchange, bars := bs, count := bs.length } := by
  cases bars with
  | nil => cases h
  | cons bar bars =>
      simp only [List.map_cons, coldOhlcv] at h
      cases hbs : (bar.row :: bars.map MartBar.row).mapM (OHLCVBar.modelValidate lib) with
      | error e => simp [hbs] at h
      | ok bs =>
          have hexchange : bar.row.getItem "exchange" = .ok (.str bar.exchange) := rfl
          simp only [hbs, hexchange, Except.ok.injEq] at h
          subst h
          rw [← List.map_cons, mapM_rows] at hbs
          exact ⟨bar, List.mem_cons_self, bs, hbs, rfl⟩

lemma coldOhlcv_eq_noOhlcvData {lib : Libraries} {sym : String} {bars : List MartBar}
    (h : coldOhlcv lib sym (bars.map MartBar.row) = .error (noOhlcvData sym)) : bars = [] := by
  cases bars with
  | nil => rfl
  | cons bar bars =>
      simp only [List.map_cons, coldOhlcv] at h
      split at h <;> simp [noOhlcvData] at h

/-- The answer with the newest of the recent bars of a response; a 404 if it has none. -/
def recentAnswer (response : OHLCVResponse) (now : ℤ) (n : ℕ) :
    Except Failure (OHLCVResponse × Option ColdKey) :=
  match response.bars.filter (·.recent now) with
  | [] => .error (noOhlcvData response.symbol)
  | b :: bs =>
      .ok ({ response with bars := (b :: bs).take n, count := ((b :: bs).take n).length }, none)

lemma recentAnswer_of_nil {response : OHLCVResponse} {now : ℤ} {n : ℕ}
    (h : response.bars.filter (·.recent now) = []) :
    recentAnswer response now n = .error (noOhlcvData response.symbol) := by
  simp [recentAnswer, h]

lemma recentAnswer_of_ne_nil {response : OHLCVResponse} {now : ℤ} {n : ℕ} {bs : List OHLCVBar}
    (hne : bs ≠ []) (h : response.bars.filter (·.recent now) = bs) :
    recentAnswer response now n =
      .ok ({ response with bars := bs.take n, count := (bs.take n).length }, none) := by
  cases bs with
  | nil => exact absurd rfl hne
  | cons b bs => simp [recentAnswer, h]

section Answers

variable {lib : Libraries} {m : ReadModel} {cache : ColdKey → Option OHLCVResponse}
  {fetch : ColdQuery → Except PyError (List Row)} {symbol : String} {n : ℕ}

lemma getOhlcv_hot (hn : n ≤ preloadedBars) :
    getOhlcv lib m cache fetch { symbol, limit := n } =
      (hotOhlcv m (lib.upper symbol) n).map fun response => (response, none) := by
  simp [getOhlcv, hn]

lemma getOhlcv_cold {rows : List Row} (hn : preloadedBars < n)
    (hmiss : cache (lib.upper symbol, n, none, none) = none)
    (hfetch : fetch ⟨lib.upper symbol, none, none, n⟩ = .ok rows) :
    getOhlcv lib m cache fetch { symbol, limit := n } =
      (coldOhlcv lib (lib.upper symbol) rows).map fun response =>
        (response, some (lib.upper symbol, n, none, none)) := by
  simp [getOhlcv, Nat.not_le.mpr hn, hmiss, hfetch]

end Answers

/-- The table is the same when the last refresh that did not raise reads it and when the cold path
does: what they get, and the process in between. -/
structure Unchanged (lib : Libraries) (sqlLower : String → String) (table : List MartBar)
    (symbol : String) (m : ℕ) (pollNow : ℤ) (cold : List MartBar) (events : List ApiEvent)
    (s : Api) : Prop where
  run : Api.run lib events = some s
  ready : s.process.model.ready = true
  refreshed : ∃ hot now, OhlcvSql table pollNow hot ∧
    Api.LastRefreshed lib events .ohlcv (hot.map MartBar.row) now
  cold : ColdQuery.Result sqlLower ⟨lib.upper symbol, none, none, m⟩ table cold

lemma hotAnswer_of_unchanged {lib : Libraries} {sqlLower : String → String}
    {table : List MartBar} {symbol : String}
    (hdistinct : table.Pairwise fun a b => a.symbol = b.symbol → a.windowStart ≠ b.windowStart)
    (hspelling : ∀ a ∈ table, ∀ b ∈ table,
      lib.upper a.symbol = lib.upper b.symbol → a.symbol = b.symbol)
    (hcase : ∀ bar ∈ table, sqlLower bar.symbol = sqlLower (lib.upper symbol) ↔
      lib.upper bar.symbol = lib.upper symbol)
    {m : ℕ} {pollNow : ℤ} {cold : List MartBar} {events : List ApiEvent} {s : Api}
    (hunchanged : Unchanged lib sqlLower table symbol m pollNow cold events s) (n : ℕ) :
    ∃ sorted, Sql.OrderBy newestFirst
        (table.filter fun bar => lib.upper bar.symbol = lib.upper symbol) sorted ∧
      cold = sorted.take m ∧ HotAnswer lib s.process.model (lib.upper symbol) n
        (sorted.filter (·.recent pollNow)) := by
  obtain ⟨hrun, hready, ⟨hot, now, hhot, hlast⟩, sorted, hsorted, hcold⟩ := hunchanged
  have hselects : table.filter (ColdQuery.selects sqlLower ⟨lib.upper symbol, none, none, m⟩) =
      table.filter fun bar => lib.upper bar.symbol = lib.upper symbol := by
    refine List.filter_congr fun bar hbar => ?_
    simp [ColdQuery.selects, hcase bar hbar]
  rw [hselects] at hsorted
  have hcomplete : OhlcvOf lib (hot.map MartBar.row) s.process.model.ohlcv :=
    complete_of_lastRefreshed hrun hlast
  have hrows := hot_rows_under hdistinct hspelling hhot hsorted
  exact ⟨sorted, hsorted, hcold, hotAnswer_of_ohlcvOf hcomplete hready hrows n⟩

/-- **What the two paths answer for one table.**  When each symbol has one exchange, one spelling
and distinct windows, and the table has not changed since the last refresh that did not raise, a
request on the hot path gets the newest of those bars of the cold path that were not older than two
hours at that refresh.  It is a 404 exactly when the symbol has no such bar. -/
theorem hot_bars_are_the_recent_cold_bars (lib : Libraries) (sqlLower : String → String)
    (hdatetime : ∀ ts, lib.asDatetime (.timestamp ts) = some ts) (table : List MartBar)
    (hexchange : ∀ a ∈ table, ∀ b ∈ table, a.symbol = b.symbol → a.exchange = b.exchange)
    (hdistinct : table.Pairwise fun a b => a.symbol = b.symbol → a.windowStart ≠ b.windowStart)
    (hspelling : ∀ a ∈ table, ∀ b ∈ table,
      lib.upper a.symbol = lib.upper b.symbol → a.symbol = b.symbol)
    (symbol : String)
    (hcase : ∀ bar ∈ table, sqlLower bar.symbol = sqlLower (lib.upper symbol) ↔
      lib.upper bar.symbol = lib.upper symbol)
    (n m : ℕ) (hn : n ≤ preloadedBars) (hm : preloadedBars < m)
    (pollNow : ℤ) (cold : List MartBar) (events : List ApiEvent) (s : Api)
    (hunchanged : Unchanged lib sqlLower table symbol m pollNow cold events s)
    (cache : ColdKey → Option OHLCVResponse) (fetch : ColdQuery → Except PyError (List Row))
    (hmiss : cache (lib.upper symbol, m, none, none) = none)
    (hfetch : fetch ⟨lib.upper symbol, none, none, m⟩ = .ok (cold.map MartBar.row)) :
    (∀ response key,
      getOhlcv lib s.process.model cache fetch { symbol, limit := m } = .ok (response, key) →
      getOhlcv lib s.process.model cache fetch { symbol, limit := n } =
        recentAnswer response pollNow n) ∧
    (getOhlcv lib s.process.model cache fetch { symbol, limit := m } =
        .error (noOhlcvData (lib.upper symbol)) →
      getOhlcv lib s.process.model cache fetch { symbol, limit := n } =
        .error (noOhlcvData (lib.upper symbol))) ∧
    (getOhlcv lib s.process.model cache fetch { symbol, limit := n } =
        .error (noOhlcvData (lib.upper symbol)) ↔
      ∀ bar ∈ table, lib.upper bar.symbol = lib.upper symbol → bar.recent pollNow = false) := by
  obtain ⟨sorted, hsorted, rfl, hanswer⟩ :=
    hotAnswer_of_unchanged hdistinct hspelling hcase hunchanged n
  have hmem : ∀ bar ∈ sorted, bar ∈ table ∧ lib.upper bar.symbol = lib.upper symbol := by
    intro bar hbar
    have := hsorted.1.mem_iff.mp hbar
    rwa [List.mem_filter, decide_eq_true_eq] at this
  rw [getOhlcv_hot hn, getOhlcv_cold hm hmiss hfetch]
  refine ⟨?_, ?_, ?_⟩
  · intro response key hresponse
    obtain ⟨_, hcold, heq⟩ := map_eq_ok.mp hresponse
    cases heq
    obtain ⟨bar, hbar, bs, hbs, rfl⟩ := coldOhlcv_ok hcold
    have hrecent := filter_validates hdatetime pollNow hbs
    rw [recent_take hsorted.2] at hrecent
    rcases hanswer with ⟨hempty, hhot⟩ | ⟨bar', hbar', bs', hbs', hhot⟩
    · rw [hempty, List.take_nil, List.forall₂_nil_left_iff] at hrecent
      rw [hhot, recentAnswer_of_nil hrecent]
      rfl
    · have hne : bs.filter (·.recent pollNow) ≠ [] := by
        intro hempty
        rw [hempty, List.forall₂_nil_right_iff, List.take_eq_nil_iff] at hrecent
        rcases hrecent with hzero | hempty
        · omega
        · exact absurd hempty (List.ne_nil_of_mem hbar')
      have hbars := hmem bar (List.mem_of_mem_take hbar)
      have hbars' := hmem bar' (List.mem_of_mem_filter hbar')
      have hsame : bar'.exchange = bar.exchange :=
        hexchange bar' hbars'.1 bar hbars.1
          (hspelling bar' hbars'.1 bar hbars.1 (hbars'.2.trans hbars.2.symm))
      rw [hhot, recentAnswer_of_ne_nil hne rfl, hsame,
        take_eq_of_validates hn (le_trans hn (le_of_lt hm)) hbs' hrecent]
      rfl
  · intro h
    have hempty := coldOhlcv_eq_noOhlcvData (map_eq_error.mp h)
    rw [List.take_eq_nil_iff] at hempty
    rcases hempty with hzero | hempty
    · omega
    · rw [hanswer.of_nil (by rw [hempty, List.filter_nil])]
      rfl
  · rw [map_eq_error]
    constructor
    · intro h bar hbar hsymbol
      have hlisted : bar ∈ sorted := by
        rw [hsorted.1.mem_iff, List.mem_filter, decide_eq_true_eq]
        exact ⟨hbar, hsymbol⟩
      simpa using List.filter_eq_nil_iff.mp (hanswer.nil_of_error h) bar hlisted
    · intro h
      refine hanswer.of_nil (List.filter_eq_nil_iff.mpr fun bar hbar => ?_)
      simp [h bar (hmem bar hbar).1 (hmem bar hbar).2]

/-! ## Three tables -/

/-- A bar of one exchange. -/
def sampleMartBar (symbol : String) (windowStart : ℤ) : MartBar where
  exchange := "binance"
  symbol
  windowStart
  windowEnd := windowStart + 60000000
  openPrice := .int 100
  highPrice := .int 101
  lowPrice := .int 99
  closePrice := .int 100
  volume := .int 1
  vwap := .int 100
  tickCount := .int 1
  firstTs := .timestamp ⟨windowStart, some 0⟩
  lastTs := .timestamp ⟨windowStart, some 0⟩

/-- A bar of the last two hours and an older one, seen after three hours. -/
def sparseTable : List MartBar := [sampleMartBar "BTCUSDT" 10000000000, sampleMartBar "BTCUSDT" 0]

/-- Only an older one. -/
def idleTable : List MartBar := [sampleMartBar "BTCUSDT" 0]

/-- Two bars of the last two hours, under two spellings of their symbol. -/
def spellings : List MartBar :=
  [sampleMartBar "BTCUSDT" 9000000000, sampleMartBar "btcusdt" 10000000000]

lemma upper_btcusdt : sampleLibraries.upper "btcusdt" = "BTCUSDT" := by decide +kernel

lemma upper_BTCUSDT : sampleLibraries.upper "BTCUSDT" = "BTCUSDT" := by decide +kernel

lemma lower_spellings : sampleLibraries.lower "btcusdt" = sampleLibraries.lower "BTCUSDT" := by
  decide +kernel

/-- A refresh of the bars, after which the process is ready. -/
def ohlcvEvents (hot : List MartBar) : List ApiEvent :=
  [.start .ohlcv, .resume .ohlcv (.ok (hot.map MartBar.row)) ⟨0, some 0⟩, .ready]

/-- The hot query, when each symbol has one recent bar. -/
lemma ohlcvSql_of_symbols {table rows : List MartBar} {now : ℤ}
    (hrows : table.filter (·.recent now) = rows)
    (hsymbols : rows.Pairwise fun a b => a.symbol < b.symbol) : OhlcvSql table now rows := by
  refine ⟨rows, ?_, List.Perm.refl _, hsymbols.imp Or.inl⟩
  intro s
  rw [hrows]
  have hfalse : (rows.filter (·.symbol = s)).Pairwise fun _ _ => False := by
    refine (hsymbols.filter _).imp_of_mem ?_
    intro a b ha hb hlt
    rw [List.mem_filter, decide_eq_true_eq] at ha hb
    rw [ha.2, hb.2] at hlt
    exact lt_irrefl s hlt
  have hlength : (rows.filter (·.symbol = s)).length ≤ preloadedBars := by
    cases hlist : rows.filter (·.symbol = s) with
    | nil => simp
    | cons a bs =>
        cases bs with
        | nil => simp [preloadedBars]
        | cons b bs =>
            rw [hlist, List.pairwise_cons] at hfalse
            exact (hfalse.1 b List.mem_cons_self).elim
  refine ⟨_, ⟨_, ⟨List.Perm.refl _, hfalse.imp False.elim⟩, rfl⟩, ?_⟩
  rw [List.take_of_length_le hlength]

/-- A refresh and a query of a table, one after the other. -/
lemma exists_unchanged (pollNow : ℤ) (hot : List MartBar) {table cold : List MartBar}
    (hrows : table.filter (·.recent pollNow) = hot)
    (hsymbols : hot.Pairwise fun a b => a.symbol < b.symbol)
    (hok : ((pollOhlcv sampleLibraries (.ok (hot.map MartBar.row))).run {}).1 = .ok ())
    (hselects : ∀ bar ∈ table, sampleLibraries.lower bar.symbol = sampleLibraries.lower "BTCUSDT")
    (hcold : Sql.OrderBy newestFirst table cold) (hlimit : cold.length ≤ 61) :
    ∃ s, Unchanged sampleLibraries sampleLibraries.lower table "btcusdt" 61 pollNow cold
        (ohlcvEvents hot) s ∧
      OhlcvOf sampleLibraries (hot.map MartBar.row) s.process.model.ohlcv := by
  have hlast : Api.LastRefreshed sampleLibraries (ohlcvEvents hot) .ohlcv (hot.map MartBar.row)
      ⟨0, some 0⟩ := by
    refine ⟨[.start .ohlcv], [.ready], _, rfl, rfl, hok, ?_⟩
    intro mid answer now' rest t hafter
    cases mid <;> simp at hafter
  refine ⟨_, ⟨rfl, rfl, ⟨hot, _, ohlcvSql_of_symbols hrows hsymbols, hlast⟩, cold, ⟨?_, ?_⟩, ?_⟩,
    complete_of_lastRefreshed rfl hlast⟩
  · rw [List.filter_eq_self.mpr]
    · exact hcold.1
    · intro bar hbar
      simp [ColdQuery.selects, upper_btcusdt, hselects bar hbar]
  · exact hcold.2
  · exact (List.take_of_length_le hlimit).symm

theorem hot_bars_are_the_recent_cold_bars_sample :
    ∃ s, Unchanged sampleLibraries sampleLibraries.lower sparseTable "btcusdt" 61 10800000000
        sparseTable (ohlcvEvents [sampleMartBar "BTCUSDT" 10000000000]) s ∧
      ∀ response key,
        getOhlcv sampleLibraries s.process.model (fun _ => none)
          (fun _ => .ok (sparseTable.map MartBar.row)) { symbol := "btcusdt", limit := 61 } =
            .ok (response, key) →
        getOhlcv sampleLibraries s.process.model (fun _ => none)
          (fun _ => .ok (sparseTable.map MartBar.row)) { symbol := "btcusdt", limit := 30 } =
            recentAnswer response 10800000000 30 := by
  have hsorted : Sql.OrderBy newestFirst sparseTable sparseTable := by
    refine ⟨List.Perm.refl _, ?_⟩
    simp [sparseTable, newestFirst, sampleMartBar]
  have hselects : ∀ bar ∈ sparseTable,
      sampleLibraries.lower bar.symbol = sampleLibraries.lower "BTCUSDT" := by
    simp [sparseTable, sampleMartBar]
  obtain ⟨s, hunchanged, _⟩ := exists_unchanged 10800000000
    [sampleMartBar "BTCUSDT" 10000000000] rfl (List.pairwise_singleton _ _) (by decide +kernel)
    hselects hsorted (by decide)
  refine ⟨s, hunchanged, (hot_bars_are_the_recent_cold_bars sampleLibraries sampleLibraries.lower
    (fun _ => rfl) sparseTable ?_ ?_ ?_ "btcusdt" ?_ 30 61 (by decide) (by decide) _ _ _ s
    hunchanged _ _ rfl rfl).1⟩
  · simp [sparseTable, sampleMartBar]
  · simp [sparseTable, sampleMartBar]
  · simp [sparseTable, sampleMartBar]
  · simp [sparseTable, sampleMartBar, upper_btcusdt, upper_BTCUSDT]

lemma windows_of_validates {lib : Libraries}
    (hdatetime : ∀ ts, lib.asDatetime (.timestamp ts) = some ts) {bars : List MartBar}
    {bs : List OHLCVBar} (h : List.Forall₂ (Validates lib) bars bs) :
    bs.map (·.windowStart.instant) = bars.map (·.windowStart) := by
  induction h with
  | nil => rfl
  | cons hb _ ih => rw [List.map_cons, List.map_cons, windowStart_of_validate hdatetime hb, ih]

/-- **Where the two paths differ.**  An idle symbol has bars on the cold path and none on the hot
one; and two spellings of a symbol are merged on the cold path, while the hot one has the bars of
one after those of the other. -/
theorem hot_and_cold_paths_differ :
    (∃ s, Unchanged sampleLibraries sampleLibraries.lower idleTable "btcusdt" 61 10800000000
        idleTable (ohlcvEvents []) s ∧
      getOhlcv sampleLibraries s.process.model (fun _ => none)
        (fun _ => .ok (idleTable.map MartBar.row)) { symbol := "btcusdt", limit := 30 } =
          .error (noOhlcvData (sampleLibraries.upper "btcusdt")) ∧
      ∃ response key, getOhlcv sampleLibraries s.process.model (fun _ => none)
        (fun _ => .ok (idleTable.map MartBar.row)) { symbol := "btcusdt", limit := 61 } =
          .ok (response, key) ∧ response.bars ≠ []) ∧
    ∃ s, Unchanged sampleLibraries sampleLibraries.lower spellings "btcusdt" 61 10800000000
        spellings.reverse (ohlcvEvents spellings) s ∧
      ∃ response response' key,
        getOhlcv sampleLibraries s.process.model (fun _ => none)
          (fun _ => .ok (spellings.reverse.map MartBar.row)) { symbol := "btcusdt", limit := 30 } =
            .ok (response, none) ∧
        getOhlcv sampleLibraries s.process.model (fun _ => none)
          (fun _ => .ok (spellings.reverse.map MartBar.row)) { symbol := "btcusdt", limit := 61 } =
            .ok (response', key) ∧
        response.bars.map (·.windowStart.instant) = [9000000000, 10000000000] ∧
        response'.bars.map (·.windowStart.instant) = [10000000000, 9000000000] := by
  constructor
  · have hselects : ∀ bar ∈ idleTable,
        sampleLibraries.lower bar.symbol = sampleLibraries.lower "BTCUSDT" := by
      simp [idleTable, sampleMartBar]
    obtain ⟨s, hunchanged, hcomplete⟩ := exists_unchanged 10800000000 [] rfl List.Pairwise.nil
      rfl hselects ⟨List.Perm.refl _, List.pairwise_singleton _ _⟩ (by decide)
    refine ⟨s, hunchanged, ?_, _, _, rfl, ?_⟩
    · have hnone : s.process.model.ohlcv.get? (sampleLibraries.upper "btcusdt") = none :=
        hcomplete _
      rw [getOhlcv_hot (by decide), hotOhlcv, hunchanged.ready, hnone]
      rfl
    · simp
  · have hsymbols : "BTCUSDT" < "btcusdt" := by decide +kernel
    have hselects : ∀ bar ∈ spellings,
        sampleLibraries.lower bar.symbol = sampleLibraries.lower "BTCUSDT" := by
      simp [spellings, sampleMartBar, lower_spellings]
    have hsorted : Sql.OrderBy newestFirst spellings spellings.reverse := by
      refine ⟨List.reverse_perm _, ?_⟩
      simp [spellings, newestFirst, sampleMartBar]
    have hrows : (spellings.filter fun bar => sampleLibraries.upper bar.symbol = "BTCUSDT") =
        spellings.take preloadedBars := by
      simp [spellings, sampleMartBar, upper_btcusdt, upper_BTCUSDT, preloadedBars]
    obtain ⟨s, hunchanged, hcomplete⟩ := exists_unchanged 10800000000 spellings rfl
      (List.pairwise_pair.mpr hsymbols) (by decide +kernel) hselects hsorted (by decide)
    refine ⟨s, hunchanged, ?_⟩
    rcases hotAnswer_of_ohlcvOf hcomplete hunchanged.ready hrows 30 with
      ⟨hempty, _⟩ | ⟨bar, _, bs, hbs, hhot⟩
    · cases hempty
    · refine ⟨{ symbol := "BTCUSDT", exchange := bar.exchange, bars := bs.take 30
                count := (bs.take 30).length }, _, _, ?_, rfl, ?_, rfl⟩
      · rw [getOhlcv_hot (by decide), upper_btcusdt, hhot]
        rfl
      · rw [List.map_take, windows_of_validates (fun _ => rfl) hbs]
        rfl

end Ticksense
