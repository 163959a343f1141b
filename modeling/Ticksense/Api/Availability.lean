import Ticksense.Api.ColdCache

/-!
# What the API answers while `run_poller` runs

`Poller` has the refreshes that are under way and the model they write to.  Here are the rules of
its runs that a client sees.

* `ping`, `ready` — the `/ready` endpoint.
* `unavailable_iff` — when the handlers answer 503, and when `/ready` says that it is.
* `polls_in_order` — the query behind an answer was started after the answer before was in the
  model: what is read never goes back to older data.
* `polls_spaced` — how far apart the queries for bars and for symbols are.
-/

namespace Ticksense

/-! ## `/ready` -/

/-- `TrinoClient.ping`, with what becomes of `SELECT 1`. -/
def ping : Except PyError (List Row) → Bool
  | .ok rows => rows.length = 1
  | .error _ => false

/-- `ready`: status code and text. -/
def ready (answer : Except PyError (List Row)) (m : ReadModel) : ℕ × String :=
  if !ping answer then (503, "unavailable")
  else if !m.ready || m.ohlcv.items.isEmpty then (503, "warming_up")
  else (200, "ready")

/-- The handler answers 503. -/
def Unavailable {α : Type} (answer : Except HttpError α) : Prop :=
  ∃ detail, answer = .error ⟨503, detail⟩

/-! ## Runs of the poller -/

/-- The first turn has ended. -/
def Warm (events : List PollerEvent) : Prop := ∃ t, PollerEvent.gathered t ∈ events

/-- In this run, a refresh has ended without an exception, on these rows. -/
def Poller.Refreshed (lib : Libraries) (events : List PollerEvent) (refresh : Refresh)
    (rows : List Row) (now : Datetime) : Prop :=
  ∃ before after p, events = before ++ .resume refresh (.ok rows) now :: after ∧
    Poller.run lib before = some p ∧
    ((refresh.body lib (.ok rows) now).run p.api.process).1 = .ok ()

/-- It was the last one of its kind. -/
def Poller.LastRefreshed (lib : Libraries) (events : List PollerEvent) (refresh : Refresh)
    (rows : List Row) (now : Datetime) : Prop :=
  ∃ before after p, events = before ++ .resume refresh (.ok rows) now :: after ∧
    Poller.run lib before = some p ∧
    ((refresh.body lib (.ok rows) now).run p.api.process).1 = .ok () ∧
    ∀ mid answer now' rest q, after = mid ++ .resume refresh answer now' :: rest →
      Poller.run lib (before ++ .resume refresh (.ok rows) now :: mid) = some q →
      ((refresh.body lib answer now').run q.api.process).1 ≠ .ok ()

section Runs

variable {lib : Libraries} {events : List PollerEvent} {event : PollerEvent} {p p' : Poller}

lemma poller_run_append {events' : List PollerEvent} :
    Poller.run lib (events ++ events')
      = (Poller.run lib events).bind fun p => events'.foldlM (Poller.step lib) p := by
  rw [Poller.run, List.foldlM_append]
  rfl

/-- **What an event can do.** -/
inductive Poller.Moves (lib : Libraries) (p : Poller) : PollerEvent → Poller → Prop
  | resume {refresh : Refresh} {answer : Except PyError (List Row)} {now : Datetime}
      (hwaiting : refresh ∈ p.api.waiting) :
      Moves lib p (.resume refresh answer now)
        { p with api := ⟨(refresh.body lib answer now).settle p.api.process,
            p.api.waiting.erase refresh⟩ }
  | gatheredFirst {t : ℚ} (hphase : p.phase = .firstTurn) (hwaiting : p.api.waiting = []) :
      Moves lib p (.gathered t)
        { phase := .asleep, lastOhlcv := t, lastSymbols := t
          api := { p.api with process := { p.api.process with
            model := { p.api.process.model with ready := true } } } }
  | gathered {t : ℚ} (hphase : p.phase = .turn) (hwaiting : p.api.waiting = []) :
      Moves lib p (.gathered t) { p with phase := .asleep }
  | woken {t : ℚ} (hphase : p.phase = .asleep) :
      Moves lib p (.woken t)
        { phase := .turn
          lastOhlcv := if t - p.lastOhlcv ≥ ohlcvInterval then t else p.lastOhlcv
          lastSymbols := if t - p.lastSymbols ≥ symbolsInterval then t else p.lastSymbols
          api := { p.api with waiting := p.due t ++ p.api.waiting } }
  | cancel : Moves lib p .cancel
      { p with phase := .cancelled, api := { p.api with waiting := [] } }

lemma moves_of_step (hstep : Poller.step lib p event = some p') : Poller.Moves lib p event p' := by
  cases event with
  | resume refresh answer now =>
      obtain ⟨api, hapi, rfl⟩ := Option.map_eq_some_iff.mp hstep
      simp only [Api.step, Option.ite_none_right_eq_some] at hapi
      obtain ⟨hwaiting, hapi⟩ := hapi
      cases hapi
      exact .resume hwaiting
  | gathered t =>
      simp only [Poller.step, Option.ite_none_right_eq_some] at hstep
      obtain ⟨hwaiting, hstep⟩ := hstep
      cases hphase : p.phase with
      | firstTurn =>
          simp only [hphase] at hstep
          cases hstep
          exact .gatheredFirst hphase hwaiting
      | turn =>
          simp only [hphase] at hstep
          cases hstep
          exact .gathered hphase hwaiting
      | asleep => simp [hphase] at hstep
      | cancelled => simp [hphase] at hstep
  | woken t =>
      rw [Poller.step, Option.ite_none_right_eq_some] at hstep
      obtain ⟨hphase, hstep⟩ := hstep
      cases hstep
      exact .woken hphase
  | cancel =>
      cases hstep
      exact .cancel

/-- A fact about one event, carried to the end of a run. -/
lemma poller_invariant {P : List PollerEvent → Poller → Prop} (hbegin : P [] Poller.begin)
    (hstep : ∀ events event p p', Poller.run lib events = some p → P events p →
      Poller.Moves lib p event p' → P (events ++ [event]) p')
    (hrun : Poller.run lib events = some p) : P events p := by
  induction events using List.reverseRecOn generalizing p with
  | nil =>
      cases hrun
      exact hbegin
  | append_singleton events event ih =>
      rw [poller_run_append, Option.bind_eq_some_iff] at hrun
      obtain ⟨q, hbefore, hlast⟩ := hrun
      have hlast : Poller.step lib q event = some p := by simpa using hlast
      exact hstep events event q p hbefore (ih hbefore) (moves_of_step hlast)

/-! ## The data -/

/-- A refresh leaves the data, or it does not raise and replaces what is its own. -/
lemma settle_cases (refresh : Refresh) (answer : Except PyError (List Row)) (now : Datetime)
    (s : Process) :
    ((refresh.body lib answer now).settle s).model = s.model ∨
      ∃ rows, answer = .ok rows ∧ ((refresh.body lib answer now).run s).1 = .ok () ∧
        refresh.Replaces lib rows now s.model ((refresh.body lib answer now).settle s).model := by
  have hatomic := refresh_atomic lib answer now s refresh
  rw [Refresh.Atomic] at hatomic
  cases houtcome : ((refresh.body lib answer now).run s).1 with
  | error e =>
      rw [houtcome] at hatomic
      exact .inl hatomic
  | ok _ =>
      rw [houtcome] at hatomic
      obtain ⟨rows, hrows, hreplaces⟩ := hatomic
      exact .inr ⟨rows, hrows, rfl, hreplaces⟩

lemma ready_settle (refresh : Refresh) (answer : Except PyError (List Row)) (now : Datetime)
    (s : Process) : ((refresh.body lib answer now).settle s).model.ready = s.model.ready := by
  rcases settle_cases refresh answer now s with hsame | ⟨rows, _, _, _, _, hready⟩
  · rw [hsame]
  · exact hready

/-- Only an answer with rows can be read to its end. -/
lemma rows_of_ok {refresh : Refresh} {answer : Except PyError (List Row)} {now : Datetime}
    {s : Process} (hok : ((refresh.body lib answer now).run s).1 = .ok ()) :
    ∃ rows, answer = .ok rows := by
  have hatomic := refresh_atomic lib answer now s refresh
  rw [Refresh.Atomic, hok] at hatomic
  exact hatomic.imp fun rows h => h.1

/-- The model is ready from the end of the first turn on, and no later turn comes before. -/
structure Readied (events : List PollerEvent) (p : Poller) : Prop where
  ready : p.api.process.model.ready = true ↔ Warm events
  later : p.phase = .asleep ∨ p.phase = .turn → Warm events

lemma warm_append : Warm (events ++ [event]) ↔ Warm events ∨ ∃ t, event = .gathered t := by
  simp only [Warm, List.mem_append, List.mem_singleton, exists_or, eq_comm]

lemma readied_of_run (hrun : Poller.run lib events = some p) : Readied events p := by
  refine poller_invariant (P := Readied) ⟨by simp [Poller.begin, Warm], by simp [Poller.begin]⟩ ?_
    hrun
  intro events event p p' _ hbefore hmove
  cases hmove with
  | resume hwaiting =>
      refine ⟨?_, fun hphase => warm_append.mpr (.inl (hbefore.later hphase))⟩
      rw [ready_settle, hbefore.ready, warm_append]
      simp
  | @gatheredFirst t hphase hwaiting =>
      have hwarm : Warm (events ++ [.gathered t]) := warm_append.mpr (.inr ⟨t, rfl⟩)
      exact ⟨iff_of_true rfl hwarm, fun _ => hwarm⟩
  | gathered hphase hwaiting =>
      have hwarm := hbefore.later (.inr hphase)
      exact ⟨iff_of_true (hbefore.ready.mpr hwarm) (warm_append.mpr (.inl hwarm)),
        fun _ => warm_append.mpr (.inl hwarm)⟩
  | woken hphase =>
      refine ⟨?_, fun _ => warm_append.mpr (.inl (hbefore.later (.inl hphase)))⟩
      rw [hbefore.ready, warm_append]
      simp
  | cancel =>
      refine ⟨?_, by simp⟩
      rw [hbefore.ready, warm_append]
      simp

/-- One event more: it is the one in question, or comes after it. -/
lemma append_singleton_eq {before after : List PollerEvent} {x : PollerEvent}
    (h : events ++ [event] = before ++ x :: after) :
    (after = [] ∧ event = x ∧ events = before) ∨
      ∃ after', after = after' ++ [event] ∧ events = before ++ x :: after' := by
  rcases List.eq_nil_or_concat after with rfl | ⟨after', last, rfl⟩
  · obtain ⟨hevents, hlast⟩ := List.append_inj' h rfl
    exact .inl ⟨rfl, by simpa using hlast, hevents⟩
  · rw [List.concat_eq_append, ← List.cons_append, ← List.append_assoc] at h
    obtain ⟨hevents, hlast⟩ := List.append_inj' h rfl
    rw [List.singleton_inj] at hlast
    exact .inr ⟨after', by rw [List.concat_eq_append, hlast], hevents⟩

/-- The data of a refresh is the initial one, and none has succeeded; or some has, and one was the
last. -/
def Poller.FromLast (lib : Libraries) (events : List PollerEvent) (m : ReadModel)
    (refresh : Refresh) : Prop :=
  (refresh.SameFields {} m ∧ ∀ rows now, ¬ Poller.Refreshed lib events refresh rows now) ∨
    ∃ rows now, Poller.LastRefreshed lib events refresh rows now

/-- The event is a refresh that succeeds. -/
def Poller.Succeeds (lib : Libraries) (p : Poller) (refresh : Refresh) (event : PollerEvent) :
    Prop :=
  ∃ rows now, event = .resume refresh (.ok rows) now ∧
    ((refresh.body lib (.ok rows) now).run p.api.process).1 = .ok ()

lemma sameFields_of_moves {refresh : Refresh} (hmove : Poller.Moves lib p event p')
    (hsucceeds : ¬ p.Succeeds lib refresh event) :
    refresh.SameFields p.api.process.model p'.api.process.model := by
  cases hmove with
  | @resume other answer now hwaiting =>
      rcases settle_cases other answer now p.api.process with
        hsame | ⟨rows, rfl, hok, hreplaces⟩
      · show refresh.SameFields _ ((other.body lib answer now).settle p.api.process).model
        rw [hsame]
        exact Refresh.SameFields.refl _ _
      · refine hreplaces.2.1 refresh ?_
        rintro rfl
        exact hsucceeds ⟨rows, now, rfl, hok⟩
  | gatheredFirst hphase hwaiting =>
      cases refresh with
      | liquidity => exact ⟨rfl, rfl⟩
      | pipeline => rfl
      | symbols => rfl
      | ohlcv => rfl
  | gathered hphase hwaiting => exact Refresh.SameFields.refl _ _
  | woken hphase => exact Refresh.SameFields.refl _ _
  | cancel => exact Refresh.SameFields.refl _ _

lemma Poller.LastRefreshed.append {refresh : Refresh} {rows : List Row} {now : Datetime}
    (h : Poller.LastRefreshed lib events refresh rows now) (hrun : Poller.run lib events = some p)
    (hsucceeds : ¬ p.Succeeds lib refresh event) :
    Poller.LastRefreshed lib (events ++ [event]) refresh rows now := by
  obtain ⟨before, after, q, rfl, hbefore, hok, hlast⟩ := h
  refine ⟨before, after ++ [event], q, by simp, hbefore, hok, ?_⟩
  intro mid answer now' rest t hafter ht hok'
  rcases append_singleton_eq hafter with ⟨_, rfl, rfl⟩ | ⟨rest', _, hafter'⟩
  · cases hrun.symm.trans ht
    obtain ⟨rows', rfl⟩ := rows_of_ok hok'
    exact hsucceeds ⟨rows', now', rfl, hok'⟩
  · exact hlast mid answer now' rest' t hafter' ht hok'

lemma fromLast_of_run (refresh : Refresh) (hrun : Poller.run lib events = some p) :
    Poller.FromLast lib events p.api.process.model refresh := by
  refine poller_invariant (P := fun events p =>
    Poller.FromLast lib events p.api.process.model refresh) (.inl ⟨Refresh.SameFields.refl _ _, ?_⟩)
    ?_ hrun
  · rintro rows now ⟨before, after, _, hnil, _⟩
    simp at hnil
  · intro events event p p' hrun hbefore hmove
    by_cases hsucceeds : p.Succeeds lib refresh event
    · obtain ⟨rows, now, rfl, hok⟩ := hsucceeds
      refine .inr ⟨rows, now, events, [], p, rfl, hrun, hok, ?_⟩
      intro mid answer now' rest q hnil
      simp at hnil
    · have hsame := sameFields_of_moves hmove hsucceeds
      rcases hbefore with ⟨hinitial, hnone⟩ | ⟨rows, now, hlast⟩
      · refine .inl ⟨hinitial.trans hsame, ?_⟩
        rintro rows now ⟨before, after, q, hevents, hq, hok⟩
        rcases append_singleton_eq hevents with ⟨_, rfl, rfl⟩ | ⟨after', _, rfl⟩
        · cases hrun.symm.trans hq
          exact hsucceeds ⟨rows, now, rfl, hok⟩
        · exact hnone rows now ⟨before, after', q, rfl, hq, hok⟩
      · exact .inr ⟨rows, now, hlast.append hrun hsucceeds⟩

/-- **The data is that of the last refresh that succeeded.** -/
lemma Poller.LastRefreshed.complete {refresh : Refresh} {rows : List Row} {now : Datetime}
    (h : Poller.LastRefreshed lib events refresh rows now) (hrun : Poller.run lib events = some p) :
    refresh.Complete lib rows now p.api.process.model := by
  obtain ⟨before, after, q, rfl, hbefore, hok, hlast⟩ := h
  induction after using List.reverseRecOn generalizing p with
  | nil =>
      rw [poller_run_append, hbefore] at hrun
      have hstep : Poller.step lib q (.resume refresh (.ok rows) now) = some p := by simpa using hrun
      cases moves_of_step hstep with
      | resume hwaiting =>
          have hatomic := refresh_atomic lib (.ok rows) now q.api.process refresh
          rw [Refresh.Atomic, hok] at hatomic
          obtain ⟨_, heq, hreplaces⟩ := hatomic
          cases heq
          exact hreplaces.1
  | append_singleton after event ih =>
      rw [← List.cons_append, ← List.append_assoc, poller_run_append,
        Option.bind_eq_some_iff] at hrun
      obtain ⟨q', hrunBefore, hlastStep⟩ := hrun
      have hstep : Poller.step lib q' event = some p := by simpa using hlastStep
      have hcomplete : refresh.Complete lib rows now q'.api.process.model := by
        refine ih hrunBefore ?_
        intro mid answer now' rest t hafter
        refine hlast mid answer now' (rest ++ [event]) t ?_
        rw [hafter, List.append_assoc, List.cons_append]
      refine hcomplete.congr (sameFields_of_moves (moves_of_step hstep) ?_)
      rintro ⟨rows', now', rfl, hok'⟩
      exact hlast after (.ok rows') now' [] q' rfl hrunBefore hok'

end Runs

/-! ## What a client sees -/

lemma items_eq_nil {κ ν : Type} [DecidableEq κ] (d : Dict κ ν) :
    d.items = [] ↔ ∀ k, d.get? k = none := by
  simp only [Dict.get?_eq_none_iff, ← List.eq_nil_iff_forall_not_mem, List.map_eq_nil_iff]

lemma unavailable_checkReady {α : Type} {m : ReadModel} {answer : Except HttpError α} :
    Unavailable (checkReady m >>= fun _ => answer) ↔ m.ready = false ∨ Unavailable answer := by
  rw [checkReady]
  cases m.ready with
  | true => simp [Unavailable]
  | false => simp [Unavailable]

section Fields

variable {lib : Libraries} {events : List PollerEvent} {p : Poller}

lemma Poller.LastRefreshed.refreshed {refresh : Refresh} {rows : List Row} {now : Datetime}
    (h : Poller.LastRefreshed lib events refresh rows now) :
    Poller.Refreshed lib events refresh rows now := by
  obtain ⟨before, after, q, hevents, hq, hok, _⟩ := h
  exact ⟨before, after, q, hevents, hq, hok⟩

lemma pipeline_eq_none (hrun : Poller.run lib events = some p) :
    p.api.process.model.pipeline = none ↔
      ∀ rows now, ¬ Poller.Refreshed lib events .pipeline rows now := by
  rcases fromLast_of_run .pipeline hrun with ⟨hinitial, hnone⟩ | ⟨rows, now, hlast⟩
  · exact iff_of_true hinitial hnone
  · obtain ⟨pipeline, hpipeline, _⟩ := hlast.complete hrun
    exact iff_of_false (by simp [hpipeline]) fun hnone => hnone rows now hlast.refreshed

lemma symbols_eq_none (hrun : Poller.run lib events = some p) :
    p.api.process.model.symbols = none ↔
      ∀ rows now, ¬ Poller.Refreshed lib events .symbols rows now := by
  rcases fromLast_of_run .symbols hrun with ⟨hinitial, hnone⟩ | ⟨rows, now, hlast⟩
  · exact iff_of_true hinitial hnone
  · obtain ⟨symbols, hsymbols, _⟩ := hlast.complete hrun
    exact iff_of_false (by simp [hsymbols]) fun hnone => hnone rows now hlast.refreshed

/-- Some symbol has bars. -/
lemma ohlcv_ne_nil (hrun : Poller.run lib events = some p) :
    p.api.process.model.ohlcv.items ≠ [] ↔ ∃ rows now symbol,
      Poller.LastRefreshed lib events .ohlcv rows now ∧ rowsUnder lib rows symbol ≠ [] := by
  -- under a symbol there are bars if and only if the refresh has found some
  have hkey : ∀ {rows now}, Poller.LastRefreshed lib events .ohlcv rows now → ∀ symbol,
      p.api.process.model.ohlcv.get? symbol = none ↔ rowsUnder lib rows symbol = [] := by
    intro rows now hlast symbol
    have hcomplete : OhlcvOf lib rows p.api.process.model.ohlcv := hlast.complete hrun
    have hsymbol := hcomplete symbol
    cases hrow : (rowsUnder lib rows symbol).getLast? with
    | none =>
        rw [hrow] at hsymbol
        exact iff_of_true hsymbol (List.getLast?_eq_none_iff.mp hrow)
    | some r =>
        rw [hrow] at hsymbol
        obtain ⟨bars, exchange, _, _, hbars⟩ := hsymbol
        refine iff_of_false (by simp [hbars]) fun hnil => ?_
        simp [hnil] at hrow
  rw [Ne, items_eq_nil, not_forall]
  constructor
  · rintro ⟨symbol, hsome⟩
    rcases fromLast_of_run .ohlcv hrun with ⟨hinitial, _⟩ | ⟨rows, now, hlast⟩
    · have hempty : p.api.process.model.ohlcv = Dict.empty := hinitial
      rw [hempty, Dict.get?_empty] at hsome
      exact absurd rfl hsome
    · exact ⟨rows, now, symbol, hlast, fun hnil => hsome ((hkey hlast symbol).mpr hnil)⟩
  · rintro ⟨rows, now, symbol, hlast, hne⟩
    exact ⟨symbol, fun hnone => hne ((hkey hlast symbol).mp hnone)⟩

end Fields

/-- A first turn in which only the bars can be read. -/
def sampleTurn : List PollerEvent :=
  [.resume .liquidity (.error .typeError) ⟨0, some 0⟩,
    .resume .pipeline (.error .typeError) ⟨0, some 0⟩,
    .resume .symbols (.error .typeError) ⟨0, some 0⟩,
    .resume .ohlcv (.ok (idleTable.map MartBar.row)) ⟨0, some 0⟩, .gathered 0]

/-- **When the API is unavailable.**  In every state of every run of the poller: spread, liquidity
and the preloaded bars are refused until the first turn has ended, and never again; lag and symbols
as long as no refresh of theirs has succeeded.  `/ready` says so if and only if the engine answers,
the first turn has ended and the last refresh of the bars that succeeded has found some. -/
theorem unavailable_iff (lib : Libraries) {events : List PollerEvent} {p : Poller}
    (hrun : Poller.run lib events = some p) :
    (∀ symbol, Unavailable (getSpread lib p.api.process.model symbol) ↔ ¬ Warm events) ∧
      (∀ symbol, Unavailable (getLiquidity lib p.api.process.model symbol) ↔ ¬ Warm events) ∧
      (∀ cache fetch (request : OhlcvRequest), request.Hot →
        ((∃ detail, getOhlcv lib p.api.process.model cache fetch request
          = .error (.http ⟨503, detail⟩)) ↔ ¬ Warm events)) ∧
      (Unavailable (getPipelineLag p.api.process.model) ↔
        ¬ Warm events ∨ ∀ rows now, ¬ Poller.Refreshed lib events .pipeline rows now) ∧
      (Unavailable (listSymbols p.api.process.model) ↔
        ¬ Warm events ∨ ∀ rows now, ¬ Poller.Refreshed lib events .symbols rows now) ∧
      ∀ answer, (ready answer p.api.process.model).1 = 200 ↔
        ping answer = true ∧ Warm events ∧ ∃ rows now symbol,
          Poller.LastRefreshed lib events .ohlcv rows now ∧ rowsUnder lib rows symbol ≠ [] := by
  have hready : p.api.process.model.ready = false ↔ ¬ Warm events := by
    rw [← (readied_of_run hrun).ready, Bool.not_eq_true]
  refine ⟨fun symbol => ?_, fun symbol => ?_, fun cache fetch request hhot => ?_, ?_, ?_,
    fun answer => ?_⟩
  · rw [getSpread, unavailable_checkReady, hready, or_iff_left]
    cases h : p.api.process.model.spread.get? (lib.upper symbol) <;> simp [Unavailable, h]
  · rw [getLiquidity, unavailable_checkReady, hready, or_iff_left]
    cases h : p.api.process.model.liquidity.get? (lib.upper symbol) <;> simp [Unavailable, h]
  · obtain ⟨hfrom, hto, hlimit⟩ := hhot
    rw [← hready]
    simp only [getOhlcv, hfrom, hto, Option.isNone_none, Bool.and_self, hlimit, decide_true,
      if_true, hotOhlcv]
    cases p.api.process.model.ready with
    | false => simp [Except.map]
    | true =>
        cases h : p.api.process.model.ohlcv.get? (lib.upper request.symbol) <;>
          simp [Except.map, noOhlcvData]
  · rw [getPipelineLag, unavailable_checkReady, hready, ← pipeline_eq_none hrun]
    cases p.api.process.model.pipeline <;> simp [Unavailable]
  · rw [listSymbols, unavailable_checkReady, hready, ← symbols_eq_none hrun]
    cases p.api.process.model.symbols <;> simp [Unavailable]
  · rw [← ohlcv_ne_nil hrun, ← (readied_of_run hrun).ready, ready]
    cases ping answer <;> cases p.api.process.model.ready <;>
      cases p.api.process.model.ohlcv.items <;> simp

/-- Ready after the turn, though the lag is refused. -/
theorem unavailable_iff_sample :
    ∃ p, Poller.run sampleLibraries sampleTurn = some p ∧
      (ready (.ok [.empty]) p.api.process.model).1 = 200 ∧
      Unavailable (getPipelineLag p.api.process.model) := by
  obtain ⟨p, hrun⟩ : ∃ p, Poller.run sampleLibraries sampleTurn = some p := ⟨_, rfl⟩
  obtain ⟨_, _, _, hpipeline, _, hready⟩ := unavailable_iff sampleLibraries hrun
  have hlast : Poller.LastRefreshed sampleLibraries sampleTurn .ohlcv (idleTable.map MartBar.row)
      ⟨0, some 0⟩ := by
    refine ⟨sampleTurn.take 3, [.gathered 0], _, rfl, rfl, rfl, ?_⟩
    intro mid answer now rest q hafter
    cases mid <;> simp at hafter
  have hbars : rowsUnder sampleLibraries (idleTable.map MartBar.row) "BTCUSDT" ≠ [] := by
    decide +kernel
  refine ⟨p, hrun, (hready _).mpr ⟨rfl, ⟨0, by simp [sampleTurn]⟩, _, _, "BTCUSDT", hlast, hbars⟩,
    hpipeline.mpr (.inr ?_)⟩
  rintro rows now ⟨before, after, _, hevents, _⟩
  have hmem : PollerEvent.resume .pipeline (.ok rows) now ∈ sampleTurn := by simp [hevents]
  simp [sampleTurn] at hmem

/-! ## In what order the queries run -/

section Order

variable {lib : Libraries} {events : List PollerEvent} {event : PollerEvent} {p p' : Poller}

/-- No refresh is under way twice, and none while the poller sleeps. -/
structure Poller.OneEach (p : Poller) : Prop where
  nodup : p.api.waiting.Nodup
  idle : p.phase = .asleep ∨ p.phase = .cancelled → p.api.waiting = []

lemma nodup_due (p : Poller) (t : ℚ) : (p.due t).Nodup := by
  rw [Poller.due]
  split_ifs <;> decide

lemma oneEach_of_run (hrun : Poller.run lib events = some p) : p.OneEach := by
  refine poller_invariant (P := fun _ p => p.OneEach) ⟨by decide, by simp [Poller.begin]⟩ ?_ hrun
  intro events event p p' _ hbefore hmove
  cases hmove with
  | resume hwaiting =>
      refine ⟨hbefore.nodup.erase _, fun hphase => ?_⟩
      rw [hbefore.idle hphase] at hwaiting
      exact absurd hwaiting List.not_mem_nil
  | gatheredFirst hphase hwaiting => exact ⟨hbefore.nodup, fun _ => hwaiting⟩
  | gathered hphase hwaiting => exact ⟨hbefore.nodup, fun _ => hwaiting⟩
  | woken hphase =>
      refine ⟨?_, by simp⟩
      rw [hbefore.idle (.inl hphase), List.append_nil]
      exact nodup_due p _
  | cancel => exact ⟨List.nodup_nil, fun _ => rfl⟩

/-- What was not under way and is now has been started by a turn in between. -/
lemma started_between {refresh : Refresh} {mid : List PollerEvent}
    (hmid : mid.foldlM (Poller.step lib) p = some p') (hbefore : refresh ∉ p.api.waiting)
    (hafter : refresh ∈ p'.api.waiting) :
    ∃ start t rest q, mid = start ++ .woken t :: rest ∧
      start.foldlM (Poller.step lib) p = some q ∧ refresh ∈ q.due t := by
  induction mid using List.reverseRecOn generalizing p' with
  | nil =>
      cases hmid
      exact absurd hafter hbefore
  | append_singleton mid event ih =>
      rw [List.foldlM_append] at hmid
      obtain ⟨q, hq, hlast⟩ := Option.bind_eq_some_iff.mp hmid
      by_cases hstarted : refresh ∈ q.api.waiting
      · obtain ⟨start, t, rest, s, rfl, hs, hdue⟩ := ih hq hstarted
        exact ⟨start, t, rest ++ [event], s, by simp, hs, hdue⟩
      · have hstep : Poller.step lib q event = some p' := by simpa using hlast
        cases moves_of_step hstep with
        | resume hwaiting => exact absurd (List.mem_of_mem_erase hafter) hstarted
        | gatheredFirst hphase hwaiting => exact absurd hafter hstarted
        | gathered hphase hwaiting => exact absurd hafter hstarted
        | @woken t hphase =>
            rcases List.mem_append.mp hafter with hdue | hold
            · exact ⟨mid, t, [], q, rfl, hq, hdue⟩
            · exact absurd hold hstarted
        | cancel => exact absurd hafter List.not_mem_nil

/-- After the first turn, the times of the last queries only go forward. -/
lemma later_of_moves (hmove : Poller.Moves lib p event p') (hphase : p.phase ≠ .firstTurn) :
    p'.phase ≠ .firstTurn ∧ p.lastOhlcv ≤ p'.lastOhlcv ∧ p.lastSymbols ≤ p'.lastSymbols := by
  cases hmove with
  | resume hwaiting => exact ⟨hphase, le_refl _, le_refl _⟩
  | gatheredFirst hfirst hwaiting => exact absurd hfirst hphase
  | gathered hturn hwaiting => exact ⟨by simp, le_refl _, le_refl _⟩
  | woken hasleep =>
      refine ⟨by simp, ?_, ?_⟩
      · show _ ≤ ite _ _ _
        rw [ohlcvInterval]
        split_ifs <;> linarith
      · show _ ≤ ite _ _ _
        rw [symbolsInterval]
        split_ifs <;> linarith
  | cancel => exact ⟨by simp, le_refl _, le_refl _⟩

lemma later_of_run {mid : List PollerEvent} (hmid : mid.foldlM (Poller.step lib) p = some p')
    (hphase : p.phase ≠ .firstTurn) :
    p'.phase ≠ .firstTurn ∧ p.lastOhlcv ≤ p'.lastOhlcv ∧ p.lastSymbols ≤ p'.lastSymbols := by
  induction mid generalizing p with
  | nil =>
      cases hmid
      exact ⟨hphase, le_refl _, le_refl _⟩
  | cons event mid ih =>
      rw [List.foldlM_cons] at hmid
      obtain ⟨q, hstep, hrest⟩ := Option.bind_eq_some_iff.mp hmid
      obtain ⟨hphase', hohlcv, hsymbols⟩ := later_of_moves (moves_of_step hstep) hphase
      obtain ⟨hphase', hohlcv', hsymbols'⟩ := ih hrest hphase'
      exact ⟨hphase', hohlcv.trans hohlcv', hsymbols.trans hsymbols'⟩

lemma ohlcv_mem_due {t : ℚ} : .ohlcv ∈ p.due t ↔ t - p.lastOhlcv ≥ ohlcvInterval := by
  rw [Poller.due]
  split_ifs <;> simp [*]

lemma symbols_mem_due {t : ℚ} : .symbols ∈ p.due t ↔ t - p.lastSymbols ≥ symbolsInterval := by
  rw [Poller.due]
  split_ifs <;> simp [*]

end Order

/-- **The model never goes back.**  Of two answers to queries of one kind, the query of the second
was started by a turn that began after the first was in the model; so no answer is overwritten by
an older one.  In every state, each kind has one query under way at most. -/
theorem polls_in_order (lib : Libraries) {events : List PollerEvent} {p : Poller}
    (hrun : Poller.run lib events = some p) :
    p.api.waiting.Nodup ∧
      ∀ before mid after refresh answer answer' now now',
        events = before ++ .resume refresh answer now :: (mid ++ .resume refresh answer' now' :: after)
          → ∃ start t rest q, mid = start ++ .woken t :: rest ∧
            Poller.run lib (before ++ .resume refresh answer now :: start) = some q ∧
            refresh ∈ q.due t := by
  refine ⟨(oneEach_of_run hrun).nodup, ?_⟩
  rintro before mid after refresh answer answer' now now' rfl
  rw [poller_run_append, Option.bind_eq_some_iff] at hrun
  obtain ⟨q₁, hq₁, hrun⟩ := hrun
  rw [List.foldlM_cons] at hrun
  obtain ⟨q₂, hq₂, hrun⟩ := Option.bind_eq_some_iff.mp hrun
  rw [List.foldlM_append] at hrun
  obtain ⟨q₃, hq₃, hrun⟩ := Option.bind_eq_some_iff.mp hrun
  rw [List.foldlM_cons] at hrun
  obtain ⟨q₄, hq₄, _⟩ := Option.bind_eq_some_iff.mp hrun
  have hout : refresh ∉ q₂.api.waiting := by
    cases moves_of_step hq₂ with
    | resume hwaiting => exact (oneEach_of_run hq₁).nodup.not_mem_erase
  have hin : refresh ∈ q₃.api.waiting := by
    cases moves_of_step hq₄ with
    | resume hwaiting => exact hwaiting
  obtain ⟨start, t, rest, q, rfl, hstart, hdue⟩ := started_between hq₃ hout hin
  refine ⟨start, t, rest, q, rfl, ?_, hdue⟩
  rw [poller_run_append, hq₁]
  show (PollerEvent.resume refresh answer now :: start).foldlM (Poller.step lib) q₁ = some q
  rw [List.foldlM_cons, hq₂]
  exact hstart

/-- Liquidity is asked for in the first turn, and in the one that begins after 30 seconds. -/
theorem polls_in_order_sample :
    ∃ start t rest q, sampleTurn.tail ++ [.woken 30] = start ++ PollerEvent.woken t :: rest ∧
      Poller.run sampleLibraries
        ([] ++ .resume .liquidity (.error .typeError) ⟨0, some 0⟩ :: start) = some q ∧
      .liquidity ∈ q.due t := by
  obtain ⟨p, hrun⟩ : ∃ p, Poller.run sampleLibraries (sampleTurn ++ [.woken 30,
      .resume .liquidity (.error .typeError) ⟨1, some 0⟩]) = some p := ⟨_, rfl⟩
  exact (polls_in_order sampleLibraries hrun).2 [] (sampleTurn.tail ++ [.woken 30]) [] .liquidity _ _
    _ _ rfl

/-- The event at which the clock of a refresh starts: a turn begins that asks for it, or the first
turn, which asks for everything, has ended. -/
def AsksAt (refresh : Refresh) (p : Poller) (event : PollerEvent) (t : ℚ) : Prop :=
  (event = .woken t ∧ refresh ∈ p.due t) ∨
    (event = .gathered t ∧ p.phase = .firstTurn ∧ refresh ∈ Poller.begin.api.waiting)

section Spaced

variable {lib : Libraries} {event : PollerEvent} {p p' : Poller} {t : ℚ}

/-- What is asked for is noted down. -/
lemma asked_last (hmove : Poller.Moves lib p event p') :
    (AsksAt .ohlcv p event t → p'.phase ≠ .firstTurn ∧ t ≤ p'.lastOhlcv) ∧
      (AsksAt .symbols p event t → p'.phase ≠ .firstTurn ∧ t ≤ p'.lastSymbols) := by
  constructor
  · rintro (⟨rfl, hdue⟩ | ⟨rfl, hfirst, _⟩)
    · cases hmove with
      | woken hasleep => exact ⟨by simp, (if_pos (ohlcv_mem_due.mp hdue)).ge⟩
    · cases hmove with
      | gatheredFirst => exact ⟨by simp, le_refl t⟩
      | gathered hturn => simp [hfirst] at hturn
  · rintro (⟨rfl, hdue⟩ | ⟨rfl, hfirst, _⟩)
    · cases hmove with
      | woken hasleep => exact ⟨by simp, (if_pos (symbols_mem_due.mp hdue)).ge⟩
    · cases hmove with
      | gatheredFirst => exact ⟨by simp, le_refl t⟩
      | gathered hturn => simp [hfirst] at hturn

/-- Nothing is asked for before its time has come, the first turn apart. -/
lemma asked_due (hphase : p.phase ≠ .firstTurn) :
    (AsksAt .ohlcv p event t → p.lastOhlcv + 60 ≤ t) ∧
      (AsksAt .symbols p event t → p.lastSymbols + 300 ≤ t) := by
  constructor
  · rintro (⟨_, hdue⟩ | ⟨_, hfirst, _⟩)
    · have hdue := ohlcv_mem_due.mp hdue
      rw [ohlcvInterval] at hdue
      linarith
    · exact absurd hfirst hphase
  · rintro (⟨_, hdue⟩ | ⟨_, hfirst, _⟩)
    · have hdue := symbols_mem_due.mp hdue
      rw [symbolsInterval] at hdue
      linarith
    · exact absurd hfirst hphase

end Spaced

/-- **The queries are spaced.**  A turn asks for the bars 60 seconds after the last one that asked
for them began, at the earliest, and for the symbols 300 seconds; after the first turn the time counts
from its end. -/
theorem polls_spaced (lib : Libraries) {before mid : List PollerEvent}
    {event event' : PollerEvent} {t t' : ℚ} {q q' : Poller}
    (hbefore : Poller.run lib before = some q)
    (hmid : Poller.run lib (before ++ event :: mid) = some q') :
    (AsksAt .ohlcv q event t → AsksAt .ohlcv q' event' t' → t + 60 ≤ t') ∧
      (AsksAt .symbols q event t → AsksAt .symbols q' event' t' → t + 300 ≤ t') := by
  rw [poller_run_append, hbefore] at hmid
  have hmid : (event :: mid).foldlM (Poller.step lib) q = some q' := hmid
  rw [List.foldlM_cons] at hmid
  obtain ⟨s, hs, hmid⟩ := Option.bind_eq_some_iff.mp hmid
  obtain ⟨hohlcv, hsymbols⟩ := asked_last (t := t) (moves_of_step hs)
  refine ⟨fun hasks hasks' => ?_, fun hasks hasks' => ?_⟩
  · obtain ⟨hphase, hlast⟩ := hohlcv hasks
    obtain ⟨hphase', hlater, _⟩ := later_of_run hmid hphase
    linarith [(asked_due hphase').1 hasks']
  · obtain ⟨hphase, hlast⟩ := hsymbols hasks
    obtain ⟨hphase', _, hlater⟩ := later_of_run hmid hphase
    linarith [(asked_due hphase').2 hasks']

/-- The second turn asks for the bars at 60 seconds; so the third one does not, which begins at
119. -/
theorem polls_spaced_sample :
    ∃ q q' : Poller, Poller.run sampleLibraries sampleTurn = some q ∧
      Poller.run sampleLibraries (sampleTurn ++ .woken 60 ::
        [.resume .liquidity (.error .typeError) ⟨1, some 0⟩,
          .resume .pipeline (.error .typeError) ⟨1, some 0⟩,
          .resume .ohlcv (.error .typeError) ⟨1, some 0⟩, .gathered 61]) = some q' ∧
      AsksAt .ohlcv q (.woken 60) 60 ∧ ¬ AsksAt .ohlcv q' (.woken 119) 119 := by
  obtain ⟨q, hbefore, hasks⟩ : ∃ q, Poller.run sampleLibraries sampleTurn = some q ∧
      AsksAt .ohlcv q (.woken 60) 60 := ⟨_, rfl, .inl ⟨rfl, by decide +kernel⟩⟩
  have hgoes : (Poller.run sampleLibraries (sampleTurn ++ .woken 60 ::
      [.resume .liquidity (.error .typeError) ⟨1, some 0⟩,
        .resume .pipeline (.error .typeError) ⟨1, some 0⟩,
        .resume .ohlcv (.error .typeError) ⟨1, some 0⟩, .gathered 61])).isSome := by
    decide +kernel
  obtain ⟨q', hmid⟩ := Option.isSome_iff_exists.mp hgoes
  refine ⟨q, q', hbefore, hmid, hasks, fun hasks' => ?_⟩
  have hspaced : (60 : ℚ) + 60 ≤ 119 :=
    (polls_spaced sampleLibraries hbefore hmid).1 hasks hasks'
  norm_num at hspaced

end Ticksense
