import Ticksense.Api.ReadModel

/-!
# The process of the API

One event loop runs the refreshes and the handlers.  A coroutine gives way only at an await, and a
refresh has one, on the answer to its query; so what the others see of it is nothing before and all
of it after.  Handlers read the model between two events.

* `Api` — the shared state and the refreshes that are waiting; answers come in any order, any number
  of refreshes may be under way.
* `read_model_consistent` — what a handler can find, in every state of every run.
* `spread_and_liquidity_agree`, `pipeline_and_symbols_are_complete` — the same at the handlers.
* `Poller` — `run_poller`, which starts the refreshes in turns; `poller_runs`: its runs are runs of
  the process.
-/

namespace Ticksense

/-! ## Runs -/

structure Api where
  process : Process := {}
  waiting : List Refresh := []

inductive ApiEvent
  -- a refresh runs up to its await
  | start (refresh : Refresh)
  -- its query is answered, or raises, and it runs to its end; `now` is the clock then
  | resume (refresh : Refresh) (answer : Except PyError (List Row)) (now : Datetime)
  -- it is cancelled at its await
  | cancel (refresh : Refresh)
  -- `_model.ready = True`
  | ready

def Api.step (lib : Libraries) (s : Api) : ApiEvent → Option Api
  | .start refresh => some { s with waiting := refresh :: s.waiting }
  | .resume refresh answer now =>
      if refresh ∈ s.waiting then
        -- `except Exception`
        some ⟨(refresh.body lib answer now).settle s.process, s.waiting.erase refresh⟩
      else none
  | .cancel refresh =>
      if refresh ∈ s.waiting then some { s with waiting := s.waiting.erase refresh } else none
  | .ready =>
      some { s with process :=
        { s.process with model := { s.process.model with ready := true } } }

/-- The state after the events, if they can happen. -/
def Api.run (lib : Libraries) (events : List ApiEvent) : Option Api :=
  events.foldlM (Api.step lib) {}

/-- In this run, a refresh has ended without an exception, on these rows. -/
def Api.Refreshed (lib : Libraries) (events : List ApiEvent) (refresh : Refresh) (rows : List Row)
    (now : Datetime) : Prop :=
  ∃ before after s, events = before ++ .resume refresh (.ok rows) now :: after ∧
    Api.run lib before = some s ∧ ((refresh.body lib (.ok rows) now).run s.process).1 = .ok ()

/-- In this run, it was the last one of its kind: all later ones have raised. -/
def Api.LastRefreshed (lib : Libraries) (events : List ApiEvent) (refresh : Refresh)
    (rows : List Row) (now : Datetime) : Prop :=
  ∃ before after s, events = before ++ .resume refresh (.ok rows) now :: after ∧
    Api.run lib before = some s ∧ ((refresh.body lib (.ok rows) now).run s.process).1 = .ok () ∧
    ∀ mid answer now' rest t, after = mid ++ .resume refresh answer now' :: rest →
      Api.run lib (before ++ .resume refresh (.ok rows) now :: mid) = some t →
      ((refresh.body lib answer now').run t.process).1 ≠ .ok ()

/-- The data of a refresh is the initial one, or that of one refresh in the run, all of it. -/
def Api.FromOne (lib : Libraries) (events : List ApiEvent) (m : ReadModel) (refresh : Refresh) :
    Prop :=
  refresh.SameFields {} m ∨
    ∃ rows now, Api.Refreshed lib events refresh rows now ∧ refresh.Complete lib rows now m

section Runs

variable {lib : Libraries} {events : List ApiEvent} {event : ApiEvent} {s s' : Api}

lemma run_append_singleton :
    Api.run lib (events ++ [event]) = (Api.run lib events).bind (Api.step lib · event) := by
  simp [Api.run, List.foldlM_append]

lemma Api.Refreshed.append {refresh : Refresh} {rows : List Row} {now : Datetime}
    (h : Api.Refreshed lib events refresh rows now) (event : ApiEvent) :
    Api.Refreshed lib (events ++ [event]) refresh rows now := by
  obtain ⟨before, after, t, rfl, hrun, hok⟩ := h
  exact ⟨before, after ++ [event], t, by simp, hrun, hok⟩

lemma Refresh.SameFields.refl (m : ReadModel) (refresh : Refresh) : refresh.SameFields m m := by
  cases refresh with
  | liquidity => exact ⟨rfl, rfl⟩
  | pipeline => rfl
  | symbols => rfl
  | ohlcv => rfl

lemma Refresh.SameFields.trans {m₁ m₂ m₃ : ReadModel} {refresh : Refresh}
    (h₁ : refresh.SameFields m₁ m₂) (h₂ : refresh.SameFields m₂ m₃) :
    refresh.SameFields m₁ m₃ := by
  cases refresh with
  | liquidity => exact ⟨h₂.1.trans h₁.1, h₂.2.trans h₁.2⟩
  | pipeline => exact Eq.trans h₂ h₁
  | symbols => exact Eq.trans h₂ h₁
  | ohlcv => exact Eq.trans h₂ h₁

lemma Refresh.Complete.congr {m m' : ReadModel} {refresh : Refresh} {rows : List Row}
    {now : Datetime} (h : refresh.Complete lib rows now m) (hsame : refresh.SameFields m m') :
    refresh.Complete lib rows now m' := by
  cases refresh with
  | liquidity =>
      show LiquidityOf lib rows m'.spread m'.liquidity
      rw [hsame.1, hsame.2]
      exact h
  | pipeline =>
      obtain ⟨pipeline, hpipeline, hrows⟩ := h
      exact ⟨pipeline, Eq.trans hsame hpipeline, hrows⟩
  | symbols =>
      obtain ⟨symbols, hsymbols, hrows⟩ := h
      exact ⟨symbols, Eq.trans hsame hsymbols, hrows⟩
  | ohlcv =>
      show OhlcvOf lib rows m'.ohlcv
      rw [show m'.ohlcv = m.ohlcv from hsame]
      exact h

/-- A refresh that does not raise. -/
lemma resume_replaces {refresh : Refresh} {rows : List Row} {now : Datetime}
    (hstep : Api.step lib s (.resume refresh (.ok rows) now) = some s')
    (hok : ((refresh.body lib (.ok rows) now).run s.process).1 = .ok ()) :
    refresh.Replaces lib rows now s.process.model s'.process.model := by
  simp only [Api.step] at hstep
  split_ifs at hstep with hwaiting
  cases hstep
  have hatomic := refresh_atomic lib (.ok rows) now s.process refresh
  rw [Refresh.Atomic, hok] at hatomic
  obtain ⟨_, hrows, hreplaces⟩ := hatomic
  cases hrows
  exact hreplaces

/-- **What an event does to the data**: nothing, or what a refresh does that does not raise. -/
lemma step_model (hstep : Api.step lib s event = some s') :
    (∀ refresh : Refresh, refresh.SameFields s.process.model s'.process.model) ∨
      ∃ refresh rows now, event = .resume refresh (.ok rows) now ∧
        ((refresh.body lib (.ok rows) now).run s.process).1 = .ok () ∧
        refresh.Replaces lib rows now s.process.model s'.process.model := by
  cases event with
  | start refresh =>
      cases hstep
      exact Or.inl (Refresh.SameFields.refl _)
  | cancel refresh =>
      simp only [Api.step] at hstep
      split_ifs at hstep with hwaiting
      cases hstep
      exact Or.inl (Refresh.SameFields.refl _)
  | ready =>
      cases hstep
      refine Or.inl fun refresh => ?_
      cases refresh with
      | liquidity => exact ⟨rfl, rfl⟩
      | pipeline => rfl
      | symbols => rfl
      | ohlcv => rfl
  | resume refresh answer now =>
      simp only [Api.step] at hstep
      split_ifs at hstep with hwaiting
      cases hstep
      have hatomic := refresh_atomic lib answer now s.process refresh
      unfold Refresh.Atomic at hatomic
      cases houtcome : ((refresh.body lib answer now).run s.process).1 with
      | error e =>
          rw [houtcome] at hatomic
          refine Or.inl fun other => ?_
          rw [Fallible.settle, hatomic]
          exact Refresh.SameFields.refl _ other
      | ok _ =>
          rw [houtcome] at hatomic
          obtain ⟨rows, rfl, hreplaces⟩ := hatomic
          exact Or.inr ⟨refresh, rows, now, rfl, houtcome, hreplaces⟩

/-- **The data of a refresh is from one refresh**, by induction from the end of the run. -/
theorem fromOne_of_run (refresh : Refresh) (hrun : Api.run lib events = some s) :
    Api.FromOne lib events s.process.model refresh := by
  induction events using List.reverseRecOn generalizing s with
  | nil =>
      cases hrun
      exact Or.inl (Refresh.SameFields.refl _ refresh)
  | append_singleton events event ih =>
      rw [run_append_singleton] at hrun
      obtain ⟨t, hbefore, hstep⟩ := Option.bind_eq_some_iff.mp hrun
      have hkept (hsame : refresh.SameFields t.process.model s.process.model) :
          Api.FromOne lib (events ++ [event]) s.process.model refresh := by
        rcases ih hbefore with hinitial | ⟨rows, now, hrefreshed, hcomplete⟩
        · exact Or.inl (hinitial.trans hsame)
        · exact Or.inr ⟨rows, now, hrefreshed.append event, hcomplete.congr hsame⟩
      rcases step_model hstep with hsame | ⟨refresh', rows, now, rfl, hok, hreplaces⟩
      · exact hkept (hsame refresh)
      · by_cases hown : refresh = refresh'
        · subst hown
          exact Or.inr ⟨rows, now, ⟨events, [], t, rfl, hbefore, hok⟩, hreplaces.1⟩
        · exact hkept (hreplaces.2.1 refresh hown)

/-- **The data is that of the last refresh**, by induction from the end of what came after it. -/
theorem complete_of_lastRefreshed {refresh : Refresh} {rows : List Row} {now : Datetime}
    (hrun : Api.run lib events = some s) (h : Api.LastRefreshed lib events refresh rows now) :
    refresh.Complete lib rows now s.process.model := by
  obtain ⟨before, after, s₀, rfl, hbefore, hok, hlast⟩ := h
  induction after using List.reverseRecOn generalizing s with
  | nil =>
      rw [run_append_singleton, hbefore] at hrun
      exact (resume_replaces hrun hok).1
  | append_singleton after event ih =>
      rw [← List.cons_append, ← List.append_assoc, run_append_singleton] at hrun
      obtain ⟨t, hrunBefore, hstep⟩ := Option.bind_eq_some_iff.mp hrun
      have hcomplete : refresh.Complete lib rows now t.process.model := by
        refine ih hrunBefore ?_
        intro mid answer now' rest t' hafter
        refine hlast mid answer now' (rest ++ [event]) t' ?_
        rw [hafter, List.append_assoc, List.cons_append]
      rcases step_model hstep with hsame | ⟨refresh', rows', now', rfl, hok', hreplaces⟩
      · exact hcomplete.congr (hsame refresh)
      · by_cases hown : refresh = refresh'
        · subst hown
          exact absurd hok' (hlast after (.ok rows') now' [] t rfl hrunBefore)
        · exact hcomplete.congr (hreplaces.2.1 refresh hown)

/-- The two fields of `_poll_liquidity` have a row in common, or none. -/
def FromOneRow (lib : Libraries) (events : List ApiEvent) (sym : String)
    (spread : Option SpreadResponse) (liquidity : Option LiquidityResponse) : Prop :=
  (spread = none ∧ liquidity = none) ∨
    ∃ rows now r s l, Api.Refreshed lib events .liquidity rows now ∧ r ∈ rows ∧
      r.symbolKey lib = some sym ∧ SpreadResponse.modelValidate lib r = .ok s ∧
      LiquidityResponse.modelValidate lib r = .ok l ∧ spread = some s ∧ liquidity = some l

lemma fromOneRow_of_run (hrun : Api.run lib events = some s) (sym : String) :
    FromOneRow lib events sym (s.process.model.spread.get? sym)
      (s.process.model.liquidity.get? sym) := by
  rcases fromOne_of_run .liquidity hrun with hinitial | ⟨rows, now, hrefreshed, hcomplete⟩
  · rw [hinitial.1, hinitial.2]
    exact Or.inl ⟨rfl, rfl⟩
  · have hsym := hcomplete sym
    cases hlast : (rowsUnder lib rows sym).getLast? with
    | none =>
        rw [hlast] at hsym
        exact Or.inl hsym
    | some r =>
        rw [hlast] at hsym
        obtain ⟨a, b, ha, hb, hspread, hliquidity⟩ := hsym
        have hr := List.mem_of_getLast? hlast
        rw [rowsUnder, List.mem_filter, decide_eq_true_eq] at hr
        exact Or.inr ⟨rows, now, r, a, b, hrefreshed, hr.1, hr.2, ha, hb, hspread, hliquidity⟩

end Runs

/-- **The read model is consistent in every state of every run.**  Spread and liquidity have the
same keys, and under each the same row of the same refresh; every field is the initial one or that
of a single refresh that did not raise, all of it; and a refresh that raises changes no field. -/
theorem read_model_consistent (lib : Libraries) (events : List ApiEvent) (s : Api)
    (hrun : Api.run lib events = some s) :
    (∀ sym, FromOneRow lib events sym (s.process.model.spread.get? sym)
      (s.process.model.liquidity.get? sym)) ∧
    (∀ refresh, Api.FromOne lib events s.process.model refresh) ∧
    ∀ (refresh : Refresh) (answer : Except PyError (List Row)) (now : Datetime) (e : PyError),
      ((refresh.body lib answer now).run s.process).1 = .error e →
      ((refresh.body lib answer now).settle s.process).model = s.process.model := by
  refine ⟨fromOneRow_of_run hrun, fun refresh => fromOne_of_run refresh hrun, ?_⟩
  intro refresh answer now e herror
  have hatomic := refresh_atomic lib answer now s.process refresh
  rw [Refresh.Atomic, herror] at hatomic
  exact hatomic

/-! ## A run -/

/-- Only values of the right kind are accepted. -/
def sampleLibraries : Libraries where
  upper := fun text => String.ofList (text.toList.map Char.toUpper)
  lower := fun text => String.ofList (text.toList.map Char.toLower)
  render := fun _ => "?"
  asStr := fun | .str text => some text | _ => none
  asFloat := fun | .real x => some x | .int n => some (.fin n) | _ => none
  asInt := fun | .int n => some n | _ => none
  asDatetime := fun | .timestamp ts => some ts | _ => none
  gaugeValue := fun | .real x => .ok x | .int n => .ok (.fin n) | _ => .error .typeError

/-- A row of the liquidity query. -/
def sampleQuote (mid : Cell) : Row :=
  .ofList [("exchange", .str "binance"), ("symbol", .str "btcusdt"),
    ("latest_ts", .timestamp ⟨0, some 0⟩), ("best_bid_price", .int 99), ("best_ask_price", .int 101),
    ("spread", .int 2), ("mid_price", mid), ("spread_bps", .int 200), ("best_bid_qty", .int 1),
    ("best_ask_qty", .int 1), ("imbalance", .int 0), ("market_signal", .str "neutral"),
    ("staleness_seconds", .int 1), ("freshness_status", .str "FRESH")]

/-- A refresh, and one that raises at its second row. -/
def sampleEvents : List ApiEvent :=
  [.start .liquidity, .resume .liquidity (.ok [sampleQuote (.int 100)]) ⟨0, some 0⟩,
    .start .liquidity, .resume .liquidity (.ok [sampleQuote (.int 102), sampleQuote .null]) ⟨1, some 0⟩]

/-- The price is that of the first answer, and liquidity shows the same row of it. -/
theorem read_model_consistent_sample :
    ∃ s, Api.run sampleLibraries sampleEvents = some s ∧
      (s.process.model.spread.get? "BTCUSDT").map SpreadResponse.midPrice = some (.fin 100) ∧
      ∃ rows now r a b, Api.Refreshed sampleLibraries sampleEvents .liquidity rows now ∧ r ∈ rows ∧
        SpreadResponse.modelValidate sampleLibraries r = .ok a ∧
        LiquidityResponse.modelValidate sampleLibraries r = .ok b ∧ a.midPrice = .fin 100 ∧
        s.process.model.spread.get? "BTCUSDT" = some a ∧
        s.process.model.liquidity.get? "BTCUSDT" = some b := by
  obtain ⟨s, hrun, hprice⟩ : ∃ s, Api.run sampleLibraries sampleEvents = some s ∧
      (s.process.model.spread.get? "BTCUSDT").map SpreadResponse.midPrice = some (.fin 100) :=
    ⟨_, rfl, by decide +kernel⟩
  refine ⟨s, hrun, hprice, ?_⟩
  rcases (read_model_consistent sampleLibraries sampleEvents s hrun).1 "BTCUSDT" with
    ⟨hnone, _⟩ | ⟨rows, now, r, a, b, hrefreshed, hr, _, ha, hb, hspread, hliquidity⟩
  · rw [hnone] at hprice
    cases hprice
  · rw [hspread] at hprice
    exact ⟨rows, now, r, a, b, hrefreshed, hr, ha, hb, Option.some.inj hprice, hspread, hliquidity⟩

/-! ## The handlers -/

/-- **`get_spread` and `get_liquidity` agree**: asked between two events, both fail in the same way,
or both answer from one row of one refresh. -/
theorem spread_and_liquidity_agree (lib : Libraries) (events : List ApiEvent) (s : Api)
    (hrun : Api.run lib events = some s) (symbol : String) :
    (∃ e e', getSpread lib s.process.model symbol = .error e ∧
      getLiquidity lib s.process.model symbol = .error e' ∧ e.statusCode = e'.statusCode) ∨
    ∃ rows now r a b, Api.Refreshed lib events .liquidity rows now ∧ r ∈ rows ∧
      r.symbolKey lib = some (lib.upper symbol) ∧
      SpreadResponse.modelValidate lib r = .ok a ∧ LiquidityResponse.modelValidate lib r = .ok b ∧
      getSpread lib s.process.model symbol = .ok a ∧
      getLiquidity lib s.process.model symbol = .ok b := by
  cases hready : s.process.model.ready with
  | false =>
      refine Or.inl ⟨⟨503, "Service warming up"⟩, ⟨503, "Service warming up"⟩, ?_, ?_, rfl⟩
      · simp [getSpread, checkReady, hready]
      · simp [getLiquidity, checkReady, hready]
  | true =>
      rcases fromOneRow_of_run hrun (lib.upper symbol) with hnone |
        ⟨rows, now, r, a, b, hrefreshed, hr, hkey, ha, hb, hspread, hliquidity⟩
      · refine Or.inl ⟨⟨404, "No spread data for symbol " ++ lib.upper symbol⟩,
          ⟨404, "No liquidity data for symbol " ++ lib.upper symbol⟩, ?_, ?_, rfl⟩
        · simp [getSpread, checkReady, hready, hnone.1]
        · simp [getLiquidity, checkReady, hready, hnone.2]
      · refine Or.inr ⟨rows, now, r, a, b, hrefreshed, hr, hkey, ha, hb, ?_, ?_⟩
        · simp [getSpread, checkReady, hready, hspread]
        · simp [getLiquidity, checkReady, hready, hliquidity]

/-- **`get_pipeline_lag` and `list_symbols`** answer with all rows of one refresh. -/
theorem pipeline_and_symbols_are_complete (lib : Libraries) (events : List ApiEvent) (s : Api)
    (hrun : Api.run lib events = some s) :
    (∀ response, getPipelineLag s.process.model = .ok response →
      ∃ rows now, Api.Refreshed lib events .pipeline rows now ∧
        PipelineOf lib rows now response) ∧
    ∀ response, listSymbols s.process.model = .ok response →
      ∃ rows now, Api.Refreshed lib events .symbols rows now ∧ SymbolsOf lib rows response := by
  constructor
  · intro response hresponse
    unfold getPipelineLag at hresponse
    obtain ⟨_, _, hresponse⟩ := bind_eq_ok.mp hresponse
    cases hpipeline : s.process.model.pipeline with
    | none => simp [hpipeline] at hresponse
    | some pipeline =>
        simp only [hpipeline, pure_eq_ok, Except.ok.injEq] at hresponse
        subst hresponse
        rcases fromOne_of_run .pipeline hrun with hinitial | ⟨rows, now, hrefreshed, hcomplete⟩
        · cases hpipeline.symm.trans hinitial
        · obtain ⟨_, hsame, hrows⟩ := hcomplete
          cases hpipeline.symm.trans hsame
          exact ⟨rows, now, hrefreshed, hrows⟩
  · intro response hresponse
    unfold listSymbols at hresponse
    obtain ⟨_, _, hresponse⟩ := bind_eq_ok.mp hresponse
    cases hsymbols : s.process.model.symbols with
    | none => simp [hsymbols] at hresponse
    | some symbols =>
        simp only [hsymbols, pure_eq_ok, Except.ok.injEq] at hresponse
        subst hresponse
        rcases fromOne_of_run .symbols hrun with hinitial | ⟨rows, now, hrefreshed, hcomplete⟩
        · cases hsymbols.symm.trans hinitial
        · obtain ⟨_, hsame, hrows⟩ := hcomplete
          cases hsymbols.symm.trans hsame
          exact ⟨rows, now, hrefreshed, hrows⟩

/-! ## `run_poller` -/

/-- `_OHLCV_INTERVAL` -/
def ohlcvInterval : ℚ := 60

/-- `_SYMBOLS_INTERVAL` -/
def symbolsInterval : ℚ := 300

/-- Where `run_poller` awaits: the first turn, the sleep, a later turn; or it has been cancelled. -/
inductive PollerPhase
  | firstTurn
  | asleep
  | turn
  | cancelled
deriving DecidableEq

/-- The coroutine `run_poller` with the process it runs in. -/
structure Poller where
  phase : PollerPhase
  lastOhlcv : ℚ
  lastSymbols : ℚ
  api : Api

inductive PollerEvent
  -- the query of a refresh is answered
  | resume (refresh : Refresh) (answer : Except PyError (List Row)) (now : Datetime)
  -- all refreshes of the turn have ended; `t` is the monotonic clock
  | gathered (t : ℚ)
  -- the sleep of 30 seconds is over
  | woken (t : ℚ)
  -- the lifespan of the application ends
  | cancel

/-- `run_poller` at its first await. -/
def Poller.begin : Poller where
  phase := .firstTurn
  lastOhlcv := 0
  lastSymbols := 0
  api := { waiting := [.liquidity, .pipeline, .symbols, .ohlcv] }

/-- The refreshes of a turn. -/
def Poller.due (p : Poller) (t : ℚ) : List Refresh :=
  [.liquidity, .pipeline] ++ (if t - p.lastOhlcv ≥ ohlcvInterval then [.ohlcv] else []) ++
    (if t - p.lastSymbols ≥ symbolsInterval then [.symbols] else [])

def Poller.step (lib : Libraries) (p : Poller) : PollerEvent → Option Poller
  | .resume refresh answer now =>
      (p.api.step lib (.resume refresh answer now)).map fun api => { p with api }
  | .gathered t =>
      if p.api.waiting = [] then
        match p.phase with
        | .firstTurn =>
            (p.api.step lib .ready).map fun api =>
              { phase := .asleep, lastOhlcv := t, lastSymbols := t, api }
        | .turn => some { p with phase := .asleep }
        | _ => none
      else none
  | .woken t =>
      if p.phase = .asleep then
        some {
          phase := .turn
          lastOhlcv := if t - p.lastOhlcv ≥ ohlcvInterval then t else p.lastOhlcv
          lastSymbols := if t - p.lastSymbols ≥ symbolsInterval then t else p.lastSymbols
          api := { p.api with waiting := p.due t ++ p.api.waiting } }
      else none
  -- the cancellation reaches every refresh that is waiting
  | .cancel => some { p with phase := .cancelled, api := { p.api with waiting := [] } }

/-- The poller after the events, if they can happen. -/
def Poller.run (lib : Libraries) (events : List PollerEvent) : Option Poller :=
  events.foldlM (Poller.step lib) Poller.begin

/-- Refreshes can be started one after the other. -/
lemma start_all (lib : Libraries) (refreshes : List Refresh) (s : Api) :
    (refreshes.map ApiEvent.start).foldlM (Api.step lib) s =
      some { s with waiting := refreshes.reverse ++ s.waiting } := by
  induction refreshes generalizing s with
  | nil => rfl
  | cons refresh refreshes ih =>
      rw [List.map_cons, List.foldlM_cons]
      show (refreshes.map ApiEvent.start).foldlM (Api.step lib) _ = _
      rw [ih]
      simp

/-- Refreshes can be cancelled one after the other. -/
lemma cancel_all (lib : Libraries) (process : Process) (waiting : List Refresh) :
    (waiting.map ApiEvent.cancel).foldlM (Api.step lib) ⟨process, waiting⟩ =
      some ⟨process, []⟩ := by
  induction waiting with
  | nil => rfl
  | cons refresh waiting ih =>
      rw [List.map_cons, List.foldlM_cons]
      simp [Api.step, ih]

/-- A step of the poller is some events of the process. -/
lemma poller_step {lib : Libraries} {p p' : Poller} {event : PollerEvent}
    (hstep : Poller.step lib p event = some p') :
    ∃ events : List ApiEvent, events.foldlM (Api.step lib) p.api = some p'.api := by
  cases event with
  | resume refresh answer now =>
      obtain ⟨api, hapi, rfl⟩ := Option.map_eq_some_iff.mp hstep
      exact ⟨[.resume refresh answer now], by simp [hapi]⟩
  | gathered t =>
      simp only [Poller.step] at hstep
      split_ifs at hstep with hwaiting
      cases hphase : p.phase with
      | firstTurn =>
          simp only [hphase] at hstep
          obtain ⟨api, hapi, rfl⟩ := Option.map_eq_some_iff.mp hstep
          exact ⟨[.ready], by simp [hapi]⟩
      | turn =>
          simp only [hphase] at hstep
          cases hstep
          exact ⟨[], rfl⟩
      | asleep => simp [hphase] at hstep
      | cancelled => simp [hphase] at hstep
  | woken t =>
      rw [Poller.step, Option.ite_none_right_eq_some] at hstep
      obtain ⟨_, hstep⟩ := hstep
      cases hstep
      refine ⟨(p.due t).reverse.map .start, ?_⟩
      rw [start_all, List.reverse_reverse]
  | cancel =>
      cases hstep
      exact ⟨p.api.waiting.map .cancel, cancel_all lib p.api.process p.api.waiting⟩

/-- **The runs of `run_poller` are runs of the process.** -/
theorem poller_runs (lib : Libraries) (events : List PollerEvent) (p : Poller)
    (hrun : Poller.run lib events = some p) : ∃ events, Api.run lib events = some p.api := by
  induction events using List.reverseRecOn generalizing p with
  | nil =>
      cases hrun
      exact ⟨[.start .ohlcv, .start .symbols, .start .pipeline, .start .liquidity], rfl⟩
  | append_singleton events event ih =>
      rw [Poller.run, List.foldlM_append] at hrun
      obtain ⟨q, hbefore, hlast⟩ := Option.bind_eq_some_iff.mp hrun
      have hstep : Poller.step lib q event = some p := by simpa using hlast
      obtain ⟨before, hrunBefore⟩ := ih q hbefore
      obtain ⟨after, hrunAfter⟩ := poller_step hstep
      refine ⟨before ++ after, ?_⟩
      rw [Api.run] at hrunBefore
      rw [Api.run, List.foldlM_append, hrunBefore]
      exact hrunAfter

end Ticksense
