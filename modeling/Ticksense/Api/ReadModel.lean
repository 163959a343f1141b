import Ticksense.Api.Responses
import Ticksense.Lib.Fallible

/-!
# The read model

`read_model.py` keeps what the request handlers answer from; the four refreshes of `poller.py` are
the only writers of its data.  A refresh awaits its query once and then runs to its end; whatever it
raises is caught around its whole body, which takes nothing back of what it has done so far.

* `pollLiquidity`, `pollOhlcv`, `pollPipeline`, `pollSymbols` — the bodies, from the answer to the
  query on.
* `LiquidityOf`, `OhlcvOf`, `PipelineOf`, `SymbolsOf` — what the fields have to be for the rows that
  were fetched.
* `refresh_atomic` — a body that raises leaves the model as it was; otherwise exactly the fields of
  the refresh are replaced, all of them for the rows of its answer.
* `getSpread`, `getLiquidity`, `getPipelineLag`, `listSymbols` — the handlers without an await.
-/

namespace Ticksense

/-- `ReadModel` -/
structure ReadModel where
  spread : Dict String SpreadResponse := .empty
  liquidity : Dict String LiquidityResponse := .empty
  ohlcv : Dict String OHLCVResponse := .empty
  pipeline : Option PipelineLagResponse := none
  symbols : Option SymbolsResponse := none
  ready : Bool := false

/-- The labels of a gauge, symbol and exchange. -/
abbrev GaugeLabel := String × String

/-- The gauges of the process, by name and labels. -/
abbrev Gauges := Dict (String × GaugeLabel) PyFloat

/-- The state that the refreshes share with the handlers. -/
structure Process where
  model : ReadModel := {}
  gauges : Gauges := .empty

/-- What a refresh does between its await and its end. -/
abbrev Poll := Fallible Process PyError

/-! ## The gauges -/

namespace Gauge

def midPrice : String := "market_mid_price_usd"
def spreadBps : String := "market_spread_bps"
def imbalance : String := "market_bid_ask_imbalance"
def staleness : String := "market_staleness_seconds"
def healthScore : String := "pipeline_health_score"

end Gauge

/-- `GAUGE.labels(…).set(r[column])`; asking for the labels creates the time series. -/
def setGauge (lib : Libraries) (gauge : String) (label : GaugeLabel) (r : Row) (column : String) :
    Poll Unit := do
  modify fun p =>
    { p with gauges := p.gauges.set (gauge, label) ((p.gauges.get? (gauge, label)).getD (.fin 0)) }
  let value ← liftM (r.getItem column >>= lib.gaugeValue)
  modify fun p => { p with gauges := p.gauges.set (gauge, label) value }

/-! ## The bodies of the refreshes -/

/-- One row of `_poll_liquidity`. -/
def liquidityRow (lib : Libraries)
    (tables : Dict String SpreadResponse × Dict String LiquidityResponse) (r : Row) :
    Poll (Dict String SpreadResponse × Dict String LiquidityResponse) := do
  let symbol ← liftM (r.getItem "symbol")
  let exchange ← liftM (r.getItem "exchange")
  let sym := lib.upper (lib.str symbol)
  let label := (lib.lower (lib.str symbol), lib.str exchange)
  let spread ← liftM (SpreadResponse.modelValidate lib r)
  let liquidity ← liftM (LiquidityResponse.modelValidate lib r)
  setGauge lib Gauge.midPrice label r "mid_price"
  setGauge lib Gauge.spreadBps label r "spread_bps"
  setGauge lib Gauge.imbalance label r "imbalance"
  setGauge lib Gauge.staleness label r "staleness_seconds"
  return (tables.1.set sym spread, tables.2.set sym liquidity)

/-- `_poll_liquidity` -/
def pollLiquidity (lib : Libraries) (answer : Except PyError (List Row)) : Poll Unit := do
  let rows ← liftM answer
  let tables ← rows.foldlM (liquidityRow lib) (.empty, .empty)
  modify fun p => { p with model := { p.model with spread := tables.1 } }
  modify fun p => { p with model := { p.model with liquidity := tables.2 } }

/-- One row of `_poll_ohlcv`. -/
def ohlcvRow (lib : Libraries) (tables : Dict String (List OHLCVBar) × Dict String String)
    (r : Row) : Poll (Dict String (List OHLCVBar) × Dict String String) := do
  let symbol ← liftM (r.getItem "symbol")
  let sym := lib.upper (lib.str symbol)
  let bar ← liftM (OHLCVBar.modelValidate lib r)
  let exchange ← liftM (r.getItem "exchange")
  return (tables.1.set sym ((tables.1.get? sym).getD [] ++ [bar]),
    tables.2.set sym (lib.str exchange))

/-- The response for one symbol; a symbol without an exchange is a `KeyError`. -/
def ohlcvResponse (exchangeBySymbol : Dict String String) (item : String × List OHLCVBar) :
    Except PyError (String × OHLCVResponse) :=
  match exchangeBySymbol.get? item.1 with
  | some exchange =>
      .ok (item.1, { symbol := item.1, exchange, bars := item.2, count := item.2.length })
  | none => .error .keyError

/-- `_poll_ohlcv` -/
def pollOhlcv (lib : Libraries) (answer : Except PyError (List Row)) : Poll Unit := do
  let rows ← liftM answer
  let tables ← rows.foldlM (ohlcvRow lib) (.empty, .empty)
  let items ← liftM (tables.1.items.mapM (ohlcvResponse tables.2))
  modify fun p => { p with model := { p.model with ohlcv := .ofList items } }

/-- The gauge of one row of `_poll_pipeline`. -/
def pipelineGauge (lib : Libraries) (r : Row) : Poll Unit := do
  let symbol ← liftM (r.getItem "symbol")
  let exchange ← liftM (r.getItem "exchange")
  setGauge lib Gauge.healthScore (lib.str symbol, lib.str exchange) r "health_score"

/-- `PipelineLagResponse(items=items, checked_at=datetime.now(UTC), …)` -/
def pipelineResponse (items : List PipelineLagItem) (now : Datetime) : PipelineLagResponse where
  items
  checkedAt := now
  healthyCount := items.countP (·.freshnessStatus = "FRESH")
  totalCount := items.length

/-- `_poll_pipeline` -/
def pollPipeline (lib : Libraries) (answer : Except PyError (List Row)) (now : Datetime) :
    Poll Unit := do
  let rows ← liftM answer
  let items ← liftM (rows.mapM (PipelineLagItem.modelValidate lib))
  forM rows (pipelineGauge lib)
  modify fun p => { p with model := { p.model with pipeline := some (pipelineResponse items now) } }

/-- `_poll_symbols` -/
def pollSymbols (lib : Libraries) (answer : Except PyError (List Row)) : Poll Unit := do
  let rows ← liftM answer
  let symbols ← liftM (rows.mapM (SymbolItem.modelValidate lib))
  modify fun p =>
    { p with model := { p.model with symbols := some ⟨symbols, symbols.length⟩ } }

/-- The four refreshes. -/
inductive Refresh
  | liquidity
  | pipeline
  | symbols
  | ohlcv
deriving DecidableEq

/-- The body of a refresh, from the answer to its query on. -/
def Refresh.body (lib : Libraries) (answer : Except PyError (List Row)) (now : Datetime) :
    Refresh → Poll Unit
  | .liquidity => pollLiquidity lib answer
  | .pipeline => pollPipeline lib answer now
  | .symbols => pollSymbols lib answer
  | .ohlcv => pollOhlcv lib answer

/-! ## What the fields have to be -/

/-- The key under which a row is stored. -/
def Row.symbolKey (lib : Libraries) (r : Row) : Option String :=
  (r.get? "symbol").map fun v => lib.upper (lib.str v)

/-- The rows that are stored under a key. -/
def rowsUnder (lib : Libraries) (rows : List Row) (sym : String) : List Row :=
  rows.filter fun r => r.symbolKey lib = some sym

/-- Under every key, the two fields of `_poll_liquidity` have the last row of the key. -/
def LiquidityOf (lib : Libraries) (rows : List Row) (spread : Dict String SpreadResponse)
    (liquidity : Dict String LiquidityResponse) : Prop :=
  ∀ sym,
    match (rowsUnder lib rows sym).getLast? with
    | none => spread.get? sym = none ∧ liquidity.get? sym = none
    | some r => ∃ s l, SpreadResponse.modelValidate lib r = .ok s ∧
        LiquidityResponse.modelValidate lib r = .ok l ∧
        spread.get? sym = some s ∧ liquidity.get? sym = some l

/-- Under every key, the field of `_poll_ohlcv` has the bars of all rows of the key, in order. -/
def OhlcvOf (lib : Libraries) (rows : List Row) (ohlcv : Dict String OHLCVResponse) : Prop :=
  ∀ sym,
    match (rowsUnder lib rows sym).getLast? with
    | none => ohlcv.get? sym = none
    | some r => ∃ bars exchange, (rowsUnder lib rows sym).mapM (OHLCVBar.modelValidate lib) =
        .ok bars ∧ r.get? "exchange" = some exchange ∧
        ohlcv.get? sym =
          some { symbol := sym, exchange := lib.str exchange, bars, count := bars.length }

/-- The field of `_poll_pipeline` has all rows. -/
def PipelineOf (lib : Libraries) (rows : List Row) (now : Datetime)
    (pipeline : PipelineLagResponse) : Prop :=
  ∃ items, rows.mapM (PipelineLagItem.modelValidate lib) = .ok items ∧
    pipeline = pipelineResponse items now

/-- The field of `_poll_symbols` has all rows. -/
def SymbolsOf (lib : Libraries) (rows : List Row) (symbols : SymbolsResponse) : Prop :=
  ∃ items, rows.mapM (SymbolItem.modelValidate lib) = .ok items ∧
    symbols = ⟨items, items.length⟩

/-- The fields of a refresh are those for the rows. -/
def Refresh.Complete (lib : Libraries) (rows : List Row) (now : Datetime) (m : ReadModel) :
    Refresh → Prop
  | .liquidity => LiquidityOf lib rows m.spread m.liquidity
  | .pipeline => ∃ pipeline, m.pipeline = some pipeline ∧ PipelineOf lib rows now pipeline
  | .symbols => ∃ symbols, m.symbols = some symbols ∧ SymbolsOf lib rows symbols
  | .ohlcv => OhlcvOf lib rows m.ohlcv

/-- The models have the same data in the fields of a refresh. -/
def Refresh.SameFields (m m' : ReadModel) : Refresh → Prop
  | .liquidity => m'.spread = m.spread ∧ m'.liquidity = m.liquidity
  | .pipeline => m'.pipeline = m.pipeline
  | .symbols => m'.symbols = m.symbols
  | .ohlcv => m'.ohlcv = m.ohlcv

/-- A refresh has replaced its own fields, and nothing else. -/
def Refresh.Replaces (lib : Libraries) (rows : List Row) (now : Datetime) (m m' : ReadModel)
    (refresh : Refresh) : Prop :=
  refresh.Complete lib rows now m' ∧ (∀ other, other ≠ refresh → other.SameFields m m') ∧
    m'.ready = m.ready

/-- All or nothing: a refresh that raises leaves the model, one that does not replaces its fields.
-/
def Refresh.Atomic (lib : Libraries) (answer : Except PyError (List Row)) (now : Datetime)
    (m : ReadModel) (refresh : Refresh) (outcome : Except PyError Unit × Process) : Prop :=
  match outcome.1 with
  | .error _ => outcome.2.model = m
  | .ok _ => ∃ rows, answer = .ok rows ∧ refresh.Replaces lib rows now m outcome.2.model

/-! ## The loops do not touch the model -/

section Loops

variable {lib : Libraries} {m : ReadModel}

lemma setGauge_ensures (gauge : String) (label : GaugeLabel) (r : Row) (column : String) :
    Fallible.Ensures (·.model = m) (setGauge lib gauge label r column) fun _ => True := by
  unfold setGauge
  refine Fallible.Ensures.bind (.modify ?_) fun _ _ => ?_
  · intro _ hs
    exact hs
  · refine Fallible.Ensures.lift.bind fun _ _ => .modify ?_
    intro _ hs
    exact hs

lemma getItem_eq_ok {r : Row} {key : String} {v : Cell} :
    r.getItem key = .ok v ↔ r.get? key = some v := by
  unfold Row.getItem
  cases r.get? key <;> simp

/-- What a row of `_poll_liquidity` adds. -/
lemma liquidityRow_ensures
    (tables : Dict String SpreadResponse × Dict String LiquidityResponse) (r : Row) :
    Fallible.Ensures (·.model = m) (liquidityRow lib tables r) fun tables' =>
      ∃ sym s l, r.symbolKey lib = some sym ∧ SpreadResponse.modelValidate lib r = .ok s ∧
        LiquidityResponse.modelValidate lib r = .ok l ∧
        tables' = (tables.1.set sym s, tables.2.set sym l) := by
  unfold liquidityRow
  refine Fallible.Ensures.lift.bind fun symbol hsymbol => ?_
  refine Fallible.Ensures.lift.bind fun exchange _ => ?_
  refine Fallible.Ensures.lift.bind fun s hs => ?_
  refine Fallible.Ensures.lift.bind fun l hl => ?_
  refine (setGauge_ensures _ _ r _).bind fun _ _ => ?_
  refine (setGauge_ensures _ _ r _).bind fun _ _ => ?_
  refine (setGauge_ensures _ _ r _).bind fun _ _ => ?_
  refine (setGauge_ensures _ _ r _).bind fun _ _ => ?_
  refine .pure ⟨lib.upper (lib.str symbol), s, l, ?_, hs, hl, rfl⟩
  rw [Row.symbolKey, getItem_eq_ok.mp hsymbol, Option.map_some]

lemma rowsUnder_append (rows : List Row) (r : Row) (sym : String) :
    rowsUnder lib (rows ++ [r]) sym =
      if r.symbolKey lib = some sym then rowsUnder lib rows sym ++ [r]
      else rowsUnder lib rows sym := by
  by_cases h : r.symbolKey lib = some sym <;> simp [rowsUnder, h]

/-- The loop of `_poll_liquidity`. -/
lemma liquidityLoop_ensures (rows : List Row) :
    Fallible.Ensures (·.model = m) (rows.foldlM (liquidityRow lib) (.empty, .empty)) fun tables =>
      LiquidityOf lib rows tables.1 tables.2 := by
  refine Fallible.Ensures.foldlM
    (P := fun rows (tables : Dict _ _ × Dict _ _) => LiquidityOf lib rows tables.1 tables.2)
    ?_ (fun _ => ⟨rfl, rfl⟩) rows
  intro done r tables hdone
  refine (liquidityRow_ensures tables r).imp ?_
  rintro _ ⟨sym, s, l, hkey, hs, hl, rfl⟩ sym'
  have hbefore := hdone sym'
  rw [rowsUnder_append, hkey]
  by_cases hsame : sym' = sym
  · subst hsame
    rw [if_pos rfl, List.getLast?_concat]
    exact ⟨s, l, hs, hl, Dict.get?_set_self _ _ _, Dict.get?_set_self _ _ _⟩
  · rw [if_neg fun h => hsame (Option.some.inj h).symm, Dict.get?_set_of_ne _ _ hsame,
      Dict.get?_set_of_ne _ _ hsame]
    exact hbefore

/-- What a row of `_poll_ohlcv` adds. -/
lemma ohlcvRow_ensures (tables : Dict String (List OHLCVBar) × Dict String String) (r : Row) :
    Fallible.Ensures (·.model = m) (ohlcvRow lib tables r) fun tables' =>
      ∃ sym bar exchange, r.symbolKey lib = some sym ∧ OHLCVBar.modelValidate lib r = .ok bar ∧
        r.get? "exchange" = some exchange ∧
        tables' = (tables.1.set sym ((tables.1.get? sym).getD [] ++ [bar]),
          tables.2.set sym (lib.str exchange)) := by
  unfold ohlcvRow
  refine Fallible.Ensures.lift.bind fun symbol hsymbol => ?_
  refine Fallible.Ensures.lift.bind fun bar hbar => ?_
  refine Fallible.Ensures.lift.bind fun exchange hexchange => ?_
  refine .pure ⟨lib.upper (lib.str symbol), bar, exchange, ?_, hbar, getItem_eq_ok.mp hexchange, rfl⟩
  rw [Row.symbolKey, getItem_eq_ok.mp hsymbol, Option.map_some]

/-- Under every key, the tables of `_poll_ohlcv` have the bars of the rows so far and the exchange
of the last one. -/
def BarsOf (lib : Libraries) (rows : List Row)
    (tables : Dict String (List OHLCVBar) × Dict String String) : Prop :=
  ∀ sym,
    match (rowsUnder lib rows sym).getLast? with
    | none => tables.1.get? sym = none ∧ tables.2.get? sym = none
    | some r => ∃ bars exchange, (rowsUnder lib rows sym).mapM (OHLCVBar.modelValidate lib) =
        .ok bars ∧ r.get? "exchange" = some exchange ∧
        tables.1.get? sym = some bars ∧ tables.2.get? sym = some (lib.str exchange)

/-- The loop of `_poll_ohlcv`. -/
lemma ohlcvLoop_ensures (rows : List Row) :
    Fallible.Ensures (·.model = m) (rows.foldlM (ohlcvRow lib) (.empty, .empty))
      (BarsOf lib rows) := by
  refine Fallible.Ensures.foldlM ?_ (fun _ => ⟨rfl, rfl⟩) rows
  intro done r tables hdone
  refine (ohlcvRow_ensures tables r).imp ?_
  rintro _ ⟨sym, bar, exchange, hkey, hbar, hexchange, rfl⟩ sym'
  have hbefore := hdone sym'
  rw [rowsUnder_append, hkey]
  by_cases hsame : sym' = sym
  · subst hsame
    rw [if_pos rfl, List.getLast?_concat]
    refine ⟨(tables.1.get? sym').getD [] ++ [bar], exchange, ?_, hexchange,
      Dict.get?_set_self _ _ _, Dict.get?_set_self _ _ _⟩
    have hbars : (rowsUnder lib done sym').mapM (OHLCVBar.modelValidate lib) =
        .ok ((tables.1.get? sym').getD []) := by
      cases hlast : (rowsUnder lib done sym').getLast? with
      | none =>
          rw [hlast] at hbefore
          rw [List.getLast?_eq_none_iff.mp hlast, hbefore.1]
          rfl
      | some r' =>
          rw [hlast] at hbefore
          obtain ⟨bars, _, hbars, _, hget, _⟩ := hbefore
          rw [hbars, hget, Option.getD_some]
    rw [List.mapM_append, hbars, List.mapM_cons, hbar]
    rfl
  · rw [if_neg fun h => hsame (Option.some.inj h).symm, Dict.get?_set_of_ne _ _ hsame,
      Dict.get?_set_of_ne _ _ hsame]
    exact hbefore

lemma pipelineGauge_ensures (r : Row) :
    Fallible.Ensures (·.model = m) (pipelineGauge lib r) fun _ => True := by
  unfold pipelineGauge
  refine Fallible.Ensures.lift.bind fun _ _ => ?_
  refine Fallible.Ensures.lift.bind fun _ _ => ?_
  exact setGauge_ensures _ _ r _

/-- The responses of `_poll_ohlcv`, one for each symbol. -/
lemma ohlcvOf_responses {rows : List Row}
    {tables : Dict String (List OHLCVBar) × Dict String String}
    {items : List (String × OHLCVResponse)} (htables : BarsOf lib rows tables)
    (hitems : tables.1.items.mapM (ohlcvResponse tables.2) = .ok items) :
    OhlcvOf lib rows (.ofList items) := by
  have hget : (Dict.ofList items).get? = fun sym => (tables.1.get? sym).bind fun bars =>
      (tables.2.get? sym).map fun exchange =>
        ({ symbol := sym, exchange, bars, count := bars.length } : OHLCVResponse) := by
    refine Dict.get?_ofList fun sym response => ?_
    rw [mem_of_mapM_ok hitems]
    constructor
    · rintro ⟨⟨sym', bars⟩, hbars, hresponse⟩
      rw [Dict.mem_items_iff] at hbars
      unfold ohlcvResponse at hresponse
      cases hexchange : tables.2.get? sym' with
      | none => simp [hexchange] at hresponse
      | some exchange =>
          simp only [hexchange, Except.ok.injEq, Prod.mk.injEq] at hresponse
          obtain ⟨rfl, rfl⟩ := hresponse
          simp [hbars, hexchange]
    · intro h
      obtain ⟨bars, hbars, h⟩ := Option.bind_eq_some_iff.mp h
      obtain ⟨exchange, hexchange, rfl⟩ := Option.map_eq_some_iff.mp h
      refine ⟨(sym, bars), Dict.mem_items_iff.mpr hbars, ?_⟩
      simp [ohlcvResponse, hexchange]
  intro sym
  have hbefore := htables sym
  rw [hget]
  cases hlast : (rowsUnder lib rows sym).getLast? with
  | none =>
      rw [hlast] at hbefore
      simp [hbefore.1]
  | some r =>
      rw [hlast] at hbefore
      obtain ⟨bars, exchange, hbars, hexchange, hget₁, hget₂⟩ := hbefore
      refine ⟨bars, exchange, hbars, hexchange, ?_⟩
      simp [hget₁, hget₂]

end Loops

/-! ## Atomicity -/

section Atomicity

variable (lib : Libraries) (answer : Except PyError (List Row)) (now : Datetime) (s : Process)

/-- Sequence rule: a first part that does not touch the model leaves it to the rest. -/
lemma Refresh.atomic_bind {α : Type} {refresh : Refresh} {m : ReadModel} {p : Poll α}
    {f : α → Poll Unit} {Q : α → Prop} {t : Process}
    (hp : Fallible.Ensures (·.model = m) p Q) (ht : t.model = m)
    (hok : ∀ a t', Q a → t'.model = m → refresh.Atomic lib answer now m ((f a).run t')) :
    refresh.Atomic lib answer now m ((p >>= f).run t) :=
  hp.run_bind ht (fun _ _ herror => herror) hok

lemma pollLiquidity_atomic :
    Refresh.Atomic lib answer now s.model .liquidity ((pollLiquidity lib answer).run s) := by
  unfold pollLiquidity
  refine Refresh.atomic_bind lib answer now .lift rfl ?_
  intro rows t hrows ht
  refine Refresh.atomic_bind lib answer now (liquidityLoop_ensures rows) ht ?_
  intro tables t' htables ht'
  simp only [Fallible.run_bind, Fallible.run_modify]
  refine ⟨rows, hrows, htables, ?_, by rw [← ht']⟩
  intro other hother
  rw [← ht']
  cases other with
  | liquidity => exact absurd rfl hother
  | pipeline => rfl
  | symbols => rfl
  | ohlcv => rfl

lemma pollOhlcv_atomic :
    Refresh.Atomic lib answer now s.model .ohlcv ((pollOhlcv lib answer).run s) := by
  unfold pollOhlcv
  refine Refresh.atomic_bind lib answer now .lift rfl ?_
  intro rows t hrows ht
  refine Refresh.atomic_bind lib answer now (ohlcvLoop_ensures rows) ht ?_
  intro tables t' htables ht'
  refine Refresh.atomic_bind lib answer now .lift ht' ?_
  intro items t'' hitems ht''
  refine ⟨rows, hrows, ?_, ?_, by rw [← ht'']; rfl⟩
  · exact ohlcvOf_responses htables hitems
  · intro other hother
    rw [← ht'']
    cases other with
    | liquidity => exact ⟨rfl, rfl⟩
    | pipeline => rfl
    | symbols => rfl
    | ohlcv => exact absurd rfl hother

lemma pollPipeline_atomic :
    Refresh.Atomic lib answer now s.model .pipeline ((pollPipeline lib answer now).run s) := by
  unfold pollPipeline
  refine Refresh.atomic_bind lib answer now .lift rfl ?_
  intro rows t hrows ht
  refine Refresh.atomic_bind lib answer now .lift ht ?_
  intro items t' hitems ht'
  refine Refresh.atomic_bind lib answer now (.forM pipelineGauge_ensures rows) ht' ?_
  intro _ t'' _ ht''
  refine ⟨rows, hrows, ⟨_, rfl, items, hitems, rfl⟩, ?_, by rw [← ht'']; rfl⟩
  intro other hother
  rw [← ht'']
  cases other with
  | liquidity => exact ⟨rfl, rfl⟩
  | pipeline => exact absurd rfl hother
  | symbols => rfl
  | ohlcv => rfl

lemma pollSymbols_atomic :
    Refresh.Atomic lib answer now s.model .symbols ((pollSymbols lib answer).run s) := by
  unfold pollSymbols
  refine Refresh.atomic_bind lib answer now .lift rfl ?_
  intro rows t hrows ht
  refine Refresh.atomic_bind lib answer now .lift ht ?_
  intro symbols t' hsymbols ht'
  refine ⟨rows, hrows, ⟨_, rfl, symbols, hsymbols, rfl⟩, ?_, by rw [← ht']; rfl⟩
  intro other hother
  rw [← ht']
  cases other with
  | liquidity => exact ⟨rfl, rfl⟩
  | pipeline => rfl
  | symbols => exact absurd rfl hother
  | ohlcv => rfl

/-- **Every refresh is atomic.** -/
theorem refresh_atomic (refresh : Refresh) :
    refresh.Atomic lib answer now s.model ((refresh.body lib answer now).run s) := by
  cases refresh with
  | liquidity => exact pollLiquidity_atomic lib answer now s
  | pipeline => exact pollPipeline_atomic lib answer now s
  | symbols => exact pollSymbols_atomic lib answer now s
  | ohlcv => exact pollOhlcv_atomic lib answer now s

end Atomicity

/-! ## The handlers -/

/-- `HTTPException` -/
structure HttpError where
  statusCode : ℕ
  detail : String

/-- `_check_ready` -/
def checkReady (m : ReadModel) : Except HttpError Unit :=
  if m.ready then .ok () else .error ⟨503, "Service warming up"⟩

/-- `get_spread` -/
def getSpread (lib : Libraries) (m : ReadModel) (symbol : String) :
    Except HttpError SpreadResponse := do
  checkReady m
  let sym := lib.upper symbol
  match m.spread.get? sym with
  | none => .error ⟨404, "No spread data for symbol " ++ sym⟩
  | some result => return result

/-- `get_liquidity` -/
def getLiquidity (lib : Libraries) (m : ReadModel) (symbol : String) :
    Except HttpError LiquidityResponse := do
  checkReady m
  let sym := lib.upper symbol
  match m.liquidity.get? sym with
  | none => .error ⟨404, "No liquidity data for symbol " ++ sym⟩
  | some result => return result

/-- `get_pipeline_lag` -/
def getPipelineLag (m : ReadModel) : Except HttpError PipelineLagResponse := do
  checkReady m
  match m.pipeline with
  | none => .error ⟨503, "Service warming up"⟩
  | some result => return result

/-- `list_symbols` -/
def listSymbols (m : ReadModel) : Except HttpError SymbolsResponse := do
  checkReady m
  match m.symbols with
  | none => .error ⟨503, "Service warming up"⟩
  | some result => return result

end Ticksense
