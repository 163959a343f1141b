import Mathlib.Data.List.Pairwise
import Ticksense.Api.Poller

/-!
# Gauges and read model

The liquidity refresh sets the gauges of a row as soon as it has read the row, and replaces the model
only after the last one.  An exception leaves the model, but not the gauges.

* `Write`, `performAll` — what is done to the gauges; `gaugeWrites` — the writes of an answer, up to
  the row that fails.
* `Writes` — a program that does just these writes; one rule for each way of composing programs.
* `InStep` — model and gauges have the data of the same rows.
* `gauges_in_step_iff` — when they stay in step.
-/

namespace Ticksense

/-! ## Writes -/

/-- A time series and the value it is set to; without one it is only created. -/
abbrev Write := (String × GaugeLabel) × Option PyFloat

def perform (gauges : Gauges) (w : Write) : Gauges :=
  let created := gauges.set w.1 ((gauges.get? w.1).getD (.fin 0))
  match w.2 with
  | none => created
  | some value => created.set w.1 value

def performAll (ws : List Write) (gauges : Gauges) : Gauges := ws.foldl perform gauges

/-- The values that a series is set to. -/
def valuesAt (ws : List Write) (series : String × GaugeLabel) : List PyFloat :=
  ws.filterMap fun w => if w.1 = series then w.2 else none

lemma valuesAt_append_singleton (ws : List Write) (w : Write) (series : String × GaugeLabel) :
    valuesAt (ws ++ [w]) series =
      if w.1 = series then valuesAt ws series ++ w.2.toList else valuesAt ws series := by
  rw [valuesAt, List.filterMap_append, valuesAt]
  split_ifs with hw
  · cases hvalue : w.2 <;> simp [hw, hvalue]
  · simp [hw]

lemma valuesAt_of_notMem {ws : List Write} {series : String × GaugeLabel}
    (h : series ∉ ws.map Prod.fst) : valuesAt ws series = [] := by
  refine List.filterMap_eq_nil_iff.mpr fun w hw => if_neg ?_
  rintro rfl
  exact h (List.mem_map_of_mem hw)

lemma performAll_append (ws ws' : List Write) (gauges : Gauges) :
    performAll (ws ++ ws') gauges = performAll ws' (performAll ws gauges) := List.foldl_append

lemma get?_perform (gauges : Gauges) (w : Write) :
    (perform gauges w).get? =
      Function.update gauges.get? w.1 (some (w.2.getD ((gauges.get? w.1).getD (.fin 0)))) := by
  unfold perform
  cases w.2 with
  | none => simp only [Dict.get?_set, Option.getD_none]
  | some value => simp only [Dict.get?_set, Function.update_idem, Option.getD_some]

/-- A series ends with the last value it is set to. -/
lemma get?_performAll (ws : List Write) (gauges : Gauges) (series : String × GaugeLabel) :
    (performAll ws gauges).get? series =
      if series ∈ ws.map Prod.fst then
        some ((valuesAt ws series).getLast?.getD ((gauges.get? series).getD (.fin 0)))
      else gauges.get? series := by
  induction ws using List.reverseRecOn with
  | nil => rfl
  | append_singleton ws w ih =>
      rw [performAll_append, performAll, List.foldl_cons, List.foldl_nil, get?_perform]
      rw [valuesAt_append_singleton, List.map_append, List.map_singleton]
      by_cases hw : w.1 = series
      · subst hw
        rw [Function.update_self, if_pos (by simp), if_pos rfl, ih]
        cases w.2 with
        | some value => simp
        | none =>
            split_ifs with hseries
            · simp
            · simp [valuesAt_of_notMem hseries]
      · rw [Function.update_of_ne (Ne.symm hw), if_neg hw, ih]
        simp only [List.mem_append, List.mem_singleton, Ne.symm hw, or_false]

/-- The writes change nothing: every series they touch is there, with the value it ends with. -/
def ChangesNothing (ws : List Write) (gauges : Gauges) : Prop :=
  ∀ series ∈ ws.map Prod.fst, ∃ value, gauges.get? series = some value ∧
    ∀ last ∈ (valuesAt ws series).getLast?, last = value

lemma get?_performAll_eq_iff (ws : List Write) (gauges : Gauges) :
    (performAll ws gauges).get? = gauges.get? ↔ ChangesNothing ws gauges := by
  constructor
  · intro h series hseries
    have hvalue := congrFun h series
    rw [get?_performAll, if_pos hseries] at hvalue
    refine ⟨_, hvalue.symm, ?_⟩
    intro last hlast
    rw [Option.mem_def.mp hlast, Option.getD_some]
  · intro h
    funext series
    rw [get?_performAll]
    split_ifs with hseries
    · obtain ⟨value, hvalue, hlast⟩ := h series hseries
      rw [hvalue, Option.getD_some]
      cases hvalues : (valuesAt ws series).getLast? with
      | none => rfl
      | some last => rw [hlast last hvalues, Option.getD_some]
    · rfl

/-! ## The writes of an answer -/

/-- The gauges of a row and their columns. -/
def marketGauges : List (String × String) :=
  [(Gauge.midPrice, "mid_price"), (Gauge.spreadBps, "spread_bps"), (Gauge.imbalance, "imbalance"),
    (Gauge.staleness, "staleness_seconds")]

/-- The value that a gauge takes from a column. -/
def Row.reading (lib : Libraries) (r : Row) (column : String) : Except PyError PyFloat :=
  r.getItem column >>= lib.gaugeValue

/-- `lbl` -/
def Row.gaugeLabel (lib : Libraries) (r : Row) : Option GaugeLabel := do
  let symbol ← r.get? "symbol"
  let exchange ← r.get? "exchange"
  return (lib.lower (lib.str symbol), lib.str exchange)

/-- The writes of some gauges, up to the first that cannot be read, and whether all can. -/
def readingWrites (lib : Libraries) (r : Row) (label : GaugeLabel) :
    List (String × String) → List Write × Bool
  | [] => ([], true)
  | (gauge, column) :: rest =>
      match r.reading lib column with
      | .error _ => ([((gauge, label), none)], false)
      | .ok value =>
          (((gauge, label), some value) :: (readingWrites lib r label rest).1,
            (readingWrites lib r label rest).2)

/-- The writes of a row, and whether it can be read to its end. -/
def rowWrites (lib : Libraries) (r : Row) : List Write × Bool :=
  match r.gaugeLabel lib, SpreadResponse.modelValidate lib r, LiquidityResponse.modelValidate lib r with
  | some label, .ok _, .ok _ => readingWrites lib r label marketGauges
  | _, _, _ => ([], false)

/-- The writes of an answer, up to the first row that cannot be read to its end. -/
def gaugeWrites (lib : Libraries) : List Row → List Write × Bool
  | [] => ([], true)
  | r :: rows =>
      if (rowWrites lib r).2 then
        ((rowWrites lib r).1 ++ (gaugeWrites lib rows).1, (gaugeWrites lib rows).2)
      else rowWrites lib r

/-! ## Programs that write -/

/-- The program does these writes, and raises unless it is done. -/
def Writes {α : Type} (p : Poll α) (ws : List Write) (done : Bool) : Prop :=
  ∀ s, (p.run s).2 = { s with gauges := performAll ws s.gauges } ∧ (p.run s).1.isOk = done

section Programs

variable {α β : Type} {p : Poll α} {f : α → Poll β} {ws ws' : List Write} {done : Bool}

lemma Writes.pure (a : α) : Writes (pure a) [] true := fun _ => ⟨rfl, rfl⟩

lemma Writes.lift_error {e : PyError} {x : Except PyError α} (h : x = .error e) :
    Writes (liftM x >>= f) [] false := by
  intro s
  rw [Fallible.run_bind, Fallible.run_lift, h]
  exact ⟨rfl, rfl⟩

lemma Writes.lift_ok {a : α} {x : Except PyError α} (h : x = .ok a) (hf : Writes (f a) ws done) :
    Writes (liftM x >>= f) ws done := by
  intro s
  rw [Fallible.run_bind, Fallible.run_lift, h]
  exact hf s

/-- **Sequence rule.** -/
lemma Writes.bind (hp : Writes p ws true) (hf : ∀ a, Writes (f a) ws' done) :
    Writes (p >>= f) (ws ++ ws') done := by
  intro s
  obtain ⟨hstate, hok⟩ := hp s
  rw [Fallible.run_bind]
  rcases hrun : p.run s with ⟨outcome, t⟩
  rw [hrun] at hstate hok
  cases outcome with
  | error e => cases hok
  | ok a =>
      obtain rfl : t = _ := hstate
      obtain ⟨hstate', hdone⟩ := hf a { s with gauges := performAll ws s.gauges }
      exact ⟨by rw [performAll_append]; exact hstate', hdone⟩

/-- What raises leaves its writes. -/
lemma Writes.bind_raised (hp : Writes p ws false) : Writes (p >>= f) ws false := by
  intro s
  obtain ⟨hstate, hok⟩ := hp s
  rw [Fallible.run_bind]
  rcases hrun : p.run s with ⟨outcome, t⟩
  rw [hrun] at hstate hok
  cases outcome with
  | error e => exact ⟨hstate, rfl⟩
  | ok a => cases hok

end Programs

section Rows

variable {lib : Libraries} {r : Row} {label : GaugeLabel}

lemma setGauge_writes (gauge : String) (label : GaugeLabel) (r : Row) (column : String) :
    Writes (setGauge lib gauge label r column)
      (readingWrites lib r label [(gauge, column)]).1
      (readingWrites lib r label [(gauge, column)]).2 := by
  intro s
  cases hreading : r.reading lib column with
  | error e =>
      have hget : r.getItem column >>= lib.gaugeValue = .error e := hreading
      simp [setGauge, Fallible.run_bind, hget, readingWrites, hreading, performAll, perform]
      rfl
  | ok value =>
      have hget : r.getItem column >>= lib.gaugeValue = .ok value := hreading
      simp [setGauge, Fallible.run_bind, hget, readingWrites, hreading, performAll, perform]
      rfl

/-- A gauge and the ones after it. -/
lemma Writes.setGauge_bind {α : Type} {gauge column : String} {rest : List (String × String)}
    {f : Unit → Poll α}
    (hf : Writes (f ()) (readingWrites lib r label rest).1 (readingWrites lib r label rest).2) :
    Writes (setGauge lib gauge label r column >>= f)
      (readingWrites lib r label ((gauge, column) :: rest)).1
      (readingWrites lib r label ((gauge, column) :: rest)).2 := by
  have hgauge : Writes (setGauge lib gauge label r column) _ _ :=
    setGauge_writes gauge label r column
  cases hreading : r.reading lib column with
  | error e =>
      simp only [readingWrites, hreading] at hgauge ⊢
      exact hgauge.bind_raised
  | ok value =>
      simp only [readingWrites, hreading] at hgauge ⊢
      exact hgauge.bind fun _ => hf

/-- **A row does its writes.** -/
lemma liquidityRow_writes (tables : Dict String SpreadResponse × Dict String LiquidityResponse)
    (r : Row) :
    Writes (liquidityRow lib tables r) (rowWrites lib r).1 (rowWrites lib r).2 := by
  unfold liquidityRow rowWrites Row.gaugeLabel
  cases hsymbol : r.get? "symbol" with
  | none => exact Writes.lift_error (by rw [Row.getItem, hsymbol])
  | some symbol =>
      refine Writes.lift_ok (getItem_eq_ok.mpr hsymbol) ?_
      cases hexchange : r.get? "exchange" with
      | none => exact Writes.lift_error (by rw [Row.getItem, hexchange])
      | some exchange =>
          refine Writes.lift_ok (getItem_eq_ok.mpr hexchange) ?_
          cases hspread : SpreadResponse.modelValidate lib r with
          | error e => exact Writes.lift_error rfl
          | ok spread =>
              refine Writes.lift_ok rfl ?_
              cases hliquidity : LiquidityResponse.modelValidate lib r with
              | error e => exact Writes.lift_error rfl
              | ok liquidity =>
                  refine Writes.lift_ok rfl ?_
                  refine Writes.setGauge_bind (Writes.setGauge_bind (Writes.setGauge_bind
                    (Writes.setGauge_bind ?_)))
                  exact Writes.pure _

/-- **An answer does its writes**, up to the row that fails. -/
lemma liquidityLoop_writes (rows : List Row)
    (tables : Dict String SpreadResponse × Dict String LiquidityResponse) :
    Writes (rows.foldlM (liquidityRow lib) tables) (gaugeWrites lib rows).1
      (gaugeWrites lib rows).2 := by
  induction rows generalizing tables with
  | nil => exact Writes.pure _
  | cons r rows ih =>
      rw [List.foldlM_cons, gaugeWrites]
      have hrow : Writes (liquidityRow lib tables r) _ _ := liquidityRow_writes tables r
      cases hdone : (rowWrites lib r).2 with
      | true =>
          rw [hdone] at hrow
          rw [if_pos rfl]
          exact hrow.bind ih
      | false =>
          rw [hdone] at hrow
          rw [if_neg Bool.false_ne_true, hdone]
          exact hrow.bind_raised

lemma pollLiquidity_error (e : PyError) (s : Process) :
    (pollLiquidity lib (.error e)).run s = (.error e, s) := by
  unfold pollLiquidity
  rw [Fallible.run_bind, Fallible.run_lift]

/-- The gauges behind a refresh, and whether it came to its end. -/
lemma pollLiquidity_gauges (lib : Libraries) (answer : Except PyError (List Row)) (s : Process) :
    (((pollLiquidity lib answer).run s).1.isOk = true ↔
      ∃ rows, answer = .ok rows ∧ (gaugeWrites lib rows).2 = true) ∧
    ∀ rows, answer = .ok rows →
      ((pollLiquidity lib answer).run s).2.gauges = performAll (gaugeWrites lib rows).1 s.gauges := by
  cases answer with
  | error e =>
      rw [pollLiquidity_error]
      exact ⟨⟨fun h => (nomatch h), by rintro ⟨_, h, _⟩; cases h⟩, by rintro _ ⟨⟩⟩
  | ok rows =>
      unfold pollLiquidity
      have hloop : Writes (rows.foldlM (liquidityRow lib) (.empty, .empty)) _ _ :=
        liquidityLoop_writes rows _
      obtain ⟨hstate, hdone⟩ := hloop s
      rw [Fallible.run_bind, Fallible.run_lift]
      simp only [Fallible.run_bind, Except.ok.injEq, exists_eq_left', forall_eq']
      rcases hrun : Fallible.run (rows.foldlM (liquidityRow lib) (.empty, .empty)) s with ⟨outcome, t⟩
      rw [hrun] at hstate hdone
      rw [← hdone]
      obtain rfl : t = _ := hstate
      cases outcome with
      | error e => exact ⟨Iff.rfl, rfl⟩
      | ok tables => exact ⟨Iff.rfl, rfl⟩

end Rows

/-! ## In step -/

/-- The gauges have the values of a row. -/
def HoldsRow (lib : Libraries) (gauges : Gauges) (r : Row) : Prop :=
  ∃ label, r.gaugeLabel lib = some label ∧ ∀ g ∈ marketGauges, ∃ value,
    r.reading lib g.2 = .ok value ∧ gauges.get? (g.1, label) = some value

/-- Everything in the model comes from one of the rows, and the gauges have the values of this
row. -/
def InStep (lib : Libraries) (rows : List Row) (p : Process) : Prop :=
  ∀ sym liquidity, p.model.liquidity.get? sym = some liquidity →
    ∃ r ∈ rows, r.symbolKey lib = some sym ∧
      LiquidityResponse.modelValidate lib r = .ok liquidity ∧
      (∃ spread, SpreadResponse.modelValidate lib r = .ok spread ∧
        p.model.spread.get? sym = some spread) ∧
      HoldsRow lib p.gauges r

/-- A process after some refreshes, with the rows of the last one that came to its end. -/
structure Served where
  process : Process := {}
  rows : List Row := []

/-- A refresh; its exception is caught. -/
def Served.poll (lib : Libraries) (s : Served) (answer : Except PyError (List Row)) : Served where
  process := (pollLiquidity lib answer).settle s.process
  rows :=
    match ((pollLiquidity lib answer).run s.process).1, answer with
    | .ok _, .ok rows => rows
    | _, _ => s.rows

/-- The process after the refreshes. -/
def served (lib : Libraries) (answers : List (Except PyError (List Row))) : Served :=
  answers.foldl (Served.poll lib) {}

/-- After every refresh the gauges are in step with the model, and one that fails changes neither. -/
def MovesTogether (lib : Libraries) (answers : List (Except PyError (List Row))) : Prop :=
  ∀ before answer, before ++ [answer] <+: answers →
    InStep lib (served lib (before ++ [answer])).rows (served lib (before ++ [answer])).process ∧
    (((pollLiquidity lib answer).run (served lib before).process).1.isOk = false →
      (served lib (before ++ [answer])).process.model = (served lib before).process.model ∧
      (served lib (before ++ [answer])).process.gauges.get? =
        (served lib before).process.gauges.get?)

/-- Rows with the same labels have the same values. -/
def AgreeOnLabels (lib : Libraries) (rows : List Row) : Prop :=
  ∀ r ∈ rows, ∀ r' ∈ rows, r.gaugeLabel lib = r'.gaugeLabel lib →
    ∀ g ∈ marketGauges, r.reading lib g.2 = r'.reading lib g.2

/-- An answer whose rows can all be read and agree on labels, or whose rows before the one that
fails say nothing that the gauges do not show already. -/
def Safe (lib : Libraries) (gauges : Gauges) : Except PyError (List Row) → Prop
  | .error _ => True
  | .ok rows =>
      if (gaugeWrites lib rows).2 then AgreeOnLabels lib rows
      else ChangesNothing (gaugeWrites lib rows).1 gauges

/-- No symbol occurs twice. -/
def DistinctSymbols (lib : Libraries) (rows : List Row) : Prop :=
  rows.Pairwise fun r r' => ∀ sym, r.symbolKey lib = some sym → r'.symbolKey lib ≠ some sym

section Step

variable {lib : Libraries} {r : Row} {rows : List Row} {label : GaugeLabel} {p : Process}

/-- The writes of gauges that can all be read. -/
lemma readingWrites_done {gs : List (String × String)}
    (h : (readingWrites lib r label gs).2 = true) :
    (∀ g ∈ gs, ∃ value, r.reading lib g.2 = .ok value) ∧
    ∀ w, w ∈ (readingWrites lib r label gs).1 ↔
      ∃ g ∈ gs, ∃ value, r.reading lib g.2 = .ok value ∧ w = ((g.1, label), some value) := by
  induction gs with
  | nil => simp [readingWrites]
  | cons g gs ih =>
      cases hreading : r.reading lib g.2 with
      | error e =>
          simp only [readingWrites, hreading] at h
          cases h
      | ok value =>
          simp only [readingWrites, hreading] at h ⊢
          obtain ⟨hall, hmem⟩ := ih h
          refine ⟨List.forall_mem_cons.mpr ⟨⟨value, hreading⟩, hall⟩, fun w => ?_⟩
          rw [List.mem_cons, hmem, List.exists_mem_cons_iff, hreading]
          simp

lemma rowWrites_done (h : (rowWrites lib r).2 = true) :
    ∃ label, r.gaugeLabel lib = some label ∧
      rowWrites lib r = readingWrites lib r label marketGauges := by
  unfold rowWrites at h ⊢
  split at h
  · next label _ _ hlabel _ _ =>
      exact ⟨label, hlabel, rfl⟩
  · cases h

/-- **The writes of an answer that can be read to its end**: those of all its rows. -/
lemma gaugeWrites_done (h : (gaugeWrites lib rows).2 = true) :
    (∀ r ∈ rows, ∃ label, r.gaugeLabel lib = some label ∧
      ∀ g ∈ marketGauges, ∃ value, r.reading lib g.2 = .ok value) ∧
    ∀ w, w ∈ (gaugeWrites lib rows).1 ↔ ∃ r ∈ rows, ∃ label, r.gaugeLabel lib = some label ∧
      ∃ g ∈ marketGauges, ∃ value, r.reading lib g.2 = .ok value ∧
        w = ((g.1, label), some value) := by
  induction rows with
  | nil => simp [gaugeWrites]
  | cons r rows ih =>
      rw [gaugeWrites] at h ⊢
      split_ifs at h ⊢ with hrow
      · obtain ⟨hall, hmem⟩ := ih h
        obtain ⟨label, hlabel, hwrites⟩ := rowWrites_done hrow
        rw [hwrites] at hrow
        obtain ⟨hreadings, hmemRow⟩ := readingWrites_done hrow
        refine ⟨List.forall_mem_cons.mpr ⟨⟨label, hlabel, hreadings⟩, hall⟩, fun w => ?_⟩
        rw [List.mem_append, hmem, hwrites, hmemRow, List.exists_mem_cons_iff, hlabel]
        simp
      · exact absurd h hrow

lemma DistinctSymbols.eq (h : DistinctSymbols lib rows) {r r' : Row} (hr : r ∈ rows)
    (hr' : r' ∈ rows) {sym : String} (hsym : r.symbolKey lib = some sym)
    (hsym' : r'.symbolKey lib = some sym) : r = r' := by
  by_contra hne
  have hsymmetric : Std.Symm fun r r' : Row =>
      ∀ sym, r.symbolKey lib = some sym → r'.symbolKey lib ≠ some sym :=
    ⟨fun _ _ hrr sym hs hs' => hrr sym hs' hs⟩
  exact List.Pairwise.forall h hr hr' hne sym hsym hsym'

lemma exists_symbolKey (h : r.gaugeLabel lib = some label) : ∃ sym, r.symbolKey lib = some sym := by
  unfold Row.gaugeLabel at h
  obtain ⟨symbol, hsymbol, -⟩ := Option.bind_eq_some_iff.mp h
  exact ⟨_, by rw [Row.symbolKey, hsymbol]; rfl⟩

/-- The gauges of the market have different names. -/
lemma marketGauges_inj : ∀ g ∈ marketGauges, ∀ g' ∈ marketGauges, g.1 = g'.1 → g = g' := by
  decide

/-- A symbol of the model comes from a row. -/
lemma row_of_model {sym : String} {liquidity : LiquidityResponse}
    (hmodel : LiquidityOf lib rows p.model.spread p.model.liquidity)
    (hget : p.model.liquidity.get? sym = some liquidity) :
    ∃ r ∈ rows, r.symbolKey lib = some sym ∧ LiquidityResponse.modelValidate lib r = .ok liquidity ∧
      ∃ spread, SpreadResponse.modelValidate lib r = .ok spread ∧
        p.model.spread.get? sym = some spread := by
  have hlast := hmodel sym
  cases hunder : (rowsUnder lib rows sym).getLast? with
  | none =>
      rw [hunder] at hlast
      rw [hlast.2] at hget
      cases hget
  | some r =>
      rw [hunder] at hlast
      obtain ⟨spread, liquidity', hspread, hliquidity, hgetSpread, hgetLiquidity⟩ := hlast
      obtain rfl : liquidity' = liquidity := Option.some.inj (hgetLiquidity.symm.trans hget)
      have hmemUnder := List.mem_of_mem_getLast? hunder
      rw [rowsUnder, List.mem_filter, decide_eq_true_eq] at hmemUnder
      exact ⟨r, hmemUnder.1, hmemUnder.2, hliquidity, spread, hspread, hgetSpread⟩

/-- The symbol of a row is in the model. -/
lemma model_of_row {sym : String} (hmodel : LiquidityOf lib rows p.model.spread p.model.liquidity)
    (hr : r ∈ rows) (hsym : r.symbolKey lib = some sym) :
    ∃ liquidity, p.model.liquidity.get? sym = some liquidity := by
  have hlast := hmodel sym
  cases hunder : (rowsUnder lib rows sym).getLast? with
  | none =>
      have hmemUnder : r ∈ rowsUnder lib rows sym := by simp [rowsUnder, hr, hsym]
      rw [List.getLast?_eq_none_iff.mp hunder] at hmemUnder
      cases hmemUnder
  | some r' =>
      rw [hunder] at hlast
      obtain ⟨_, liquidity, -, -, -, hget⟩ := hlast
      exact ⟨liquidity, hget⟩

/-- Gauges with the values of all rows have one value for each label. -/
lemma agree_of_holdsRow {gauges : Gauges} (h : ∀ r ∈ rows, HoldsRow lib gauges r) :
    AgreeOnLabels lib rows := by
  intro r hr r' hr' hlabels g hg
  obtain ⟨label, hlabel, hvalues⟩ := h r hr
  obtain ⟨label', hlabel', hvalues'⟩ := h r' hr'
  obtain ⟨value, hvalue, hget⟩ := hvalues g hg
  obtain ⟨value', hvalue', hget'⟩ := hvalues' g hg
  rw [hlabel, hlabel', Option.some.injEq] at hlabels
  rw [← hlabels, hget, Option.some.injEq] at hget'
  rw [hvalue, hvalue', hget']

/-- **Rows that agree on labels** all have their values in the gauges. -/
lemma holdsRow_of_agree (hdone : (gaugeWrites lib rows).2 = true) (h : AgreeOnLabels lib rows)
    (gauges : Gauges) (hr : r ∈ rows) :
    HoldsRow lib (performAll (gaugeWrites lib rows).1 gauges) r := by
  obtain ⟨hall, hmem⟩ := gaugeWrites_done hdone
  obtain ⟨label, hlabel, hreadings⟩ := hall r hr
  refine ⟨label, hlabel, fun g hg => ?_⟩
  obtain ⟨value, hvalue⟩ := hreadings g hg
  refine ⟨value, hvalue, ?_⟩
  have hwrite : ((g.1, label), some value) ∈ (gaugeWrites lib rows).1 :=
    (hmem _).mpr ⟨r, hr, label, hlabel, g, hg, value, hvalue, rfl⟩
  -- whoever sets this series sets it to this value
  have hvalues : ∀ v ∈ valuesAt (gaugeWrites lib rows).1 (g.1, label), v = value := by
    intro v hv
    obtain ⟨w, hw, hwv⟩ := List.mem_filterMap.mp hv
    obtain ⟨r', hr', label', hlabel', g', hg', value', hvalue', rfl⟩ := (hmem w).mp hw
    split_ifs at hwv with hseries
    obtain ⟨hname, rfl⟩ := Prod.mk.inj hseries
    obtain rfl := marketGauges_inj g' hg' g hg hname
    have hsame := h r hr r' hr' (hlabel.trans hlabel'.symm) g' hg
    rw [hvalue, hvalue', Except.ok.injEq] at hsame
    rw [← Option.some.inj hwv, hsame]
  obtain ⟨last, hlast⟩ : ∃ last, (valuesAt (gaugeWrites lib rows).1 (g.1, label)).getLast? =
      some last := by
    refine Option.ne_none_iff_exists'.mp fun hnone => ?_
    have hin : value ∈ valuesAt (gaugeWrites lib rows).1 (g.1, label) :=
      List.mem_filterMap.mpr ⟨_, hwrite, if_pos rfl⟩
    rw [List.getLast?_eq_none_iff.mp hnone] at hin
    cases hin
  rw [get?_performAll, if_pos (List.mem_map_of_mem hwrite), hlast, Option.getD_some,
    hvalues last (List.mem_of_mem_getLast? hlast)]

/-- **An answer that is read to its end** is shown by gauges and model alike if and only if its rows
agree on labels. -/
lemma inStep_iff_agree (hdistinct : DistinctSymbols lib rows)
    (hdone : (gaugeWrites lib rows).2 = true) (gauges : Gauges)
    (hmodel : LiquidityOf lib rows p.model.spread p.model.liquidity)
    (hgauges : p.gauges = performAll (gaugeWrites lib rows).1 gauges) :
    InStep lib rows p ↔ AgreeOnLabels lib rows := by
  constructor
  · intro h
    have hholds : ∀ r ∈ rows, HoldsRow lib p.gauges r := by
      intro r hr
      obtain ⟨label, hlabel, -⟩ := (gaugeWrites_done hdone).1 r hr
      obtain ⟨sym, hsym⟩ := exists_symbolKey hlabel
      obtain ⟨liquidity, hget⟩ := model_of_row hmodel hr hsym
      obtain ⟨r', hr', hsym', -, -, hholds⟩ := h sym liquidity hget
      rwa [hdistinct.eq hr hr' hsym hsym']
    exact agree_of_holdsRow hholds
  · intro h sym liquidity hget
    obtain ⟨r, hr, hsym, hliquidity, hspread⟩ := row_of_model hmodel hget
    rw [hgauges]
    exact ⟨r, hr, hsym, hliquidity, hspread, holdsRow_of_agree hdone h gauges hr⟩

lemma InStep.congr {p' : Process} (h : InStep lib rows p) (hmodel : p'.model = p.model)
    (hgauges : p'.gauges.get? = p.gauges.get?) : InStep lib rows p' := by
  intro sym liquidity hget
  rw [hmodel] at hget ⊢
  obtain ⟨r, hr, hsym, hliquidity, hspread, label, hlabel, hvalues⟩ := h sym liquidity hget
  refine ⟨r, hr, hsym, hliquidity, hspread, label, hlabel, ?_⟩
  rwa [hgauges]

/-- **One refresh.** -/
lemma poll_moves_together_iff {s : Served} {answer : Except PyError (List Row)}
    (hdistinct : ∀ rows, answer = .ok rows → DistinctSymbols lib rows)
    (hs : InStep lib s.rows s.process) :
    (InStep lib (s.poll lib answer).rows (s.poll lib answer).process ∧
      (((pollLiquidity lib answer).run s.process).1.isOk = false →
        (s.poll lib answer).process.model = s.process.model ∧
        (s.poll lib answer).process.gauges.get? = s.process.gauges.get?)) ↔
      Safe lib s.process.gauges answer := by
  obtain ⟨hdone, hgauges⟩ := pollLiquidity_gauges lib answer s.process
  have hatomic := pollLiquidity_atomic lib answer ⟨0, none⟩ s.process
  unfold Served.poll Fallible.settle
  rcases hrun : (pollLiquidity lib answer).run s.process with ⟨outcome, t⟩
  rw [hrun] at hdone hgauges hatomic
  cases outcome with
  | ok _ =>
      obtain ⟨rows, rfl, hmodel, -, -⟩ := hatomic
      have hfull : (gaugeWrites lib rows).2 = true := by
        obtain ⟨_, ⟨⟩, hfull⟩ := hdone.mp rfl
        exact hfull
      rw [Safe, if_pos hfull,
        ← inStep_iff_agree (hdistinct rows rfl) hfull s.process.gauges hmodel (hgauges rows rfl)]
      exact and_iff_left (by rintro ⟨⟩)
  | error e =>
      have hmodel : t.model = s.process.model := hatomic
      cases answer with
      | error e' =>
          have hsame : s.process = t := by
            rw [pollLiquidity_error] at hrun
            exact congrArg Prod.snd hrun
          rw [← hsame]
          exact ⟨fun _ => trivial, fun _ => ⟨hs, fun _ => ⟨rfl, rfl⟩⟩⟩
      | ok rows =>
          have hfull : (gaugeWrites lib rows).2 ≠ true := fun hfull =>
            nomatch hdone.mpr ⟨rows, rfl, hfull⟩
          rw [Safe, if_neg hfull, ← get?_performAll_eq_iff, ← hgauges rows rfl]
          exact ⟨fun h => (h.2 rfl).2, fun h => ⟨hs.congr hmodel h, fun _ => ⟨hmodel, h⟩⟩⟩

end Step

/-- **When gauges and read model move together**: every refresh either can read all rows, and rows
that share their labels have the same values, or fails before it sets a gauge to a new value. -/
theorem gauges_in_step_iff (lib : Libraries) (answers : List (Except PyError (List Row)))
    (hdistinct : ∀ rows, .ok rows ∈ answers → DistinctSymbols lib rows) :
    MovesTogether lib answers ↔
      ∀ before answer, before ++ [answer] <+: answers →
        Safe lib (served lib before).process.gauges answer := by
  have hstep : ∀ before answer, before ++ [answer] <+: answers →
      InStep lib (served lib before).rows (served lib before).process →
      ((InStep lib (served lib (before ++ [answer])).rows
          (served lib (before ++ [answer])).process ∧
        (((pollLiquidity lib answer).run (served lib before).process).1.isOk = false →
          (served lib (before ++ [answer])).process.model = (served lib before).process.model ∧
          (served lib (before ++ [answer])).process.gauges.get? =
            (served lib before).process.gauges.get?)) ↔
        Safe lib (served lib before).process.gauges answer) := by
    intro before answer hprior hin
    have hserved : served lib (before ++ [answer]) = (served lib before).poll lib answer := by
      rw [served, List.foldl_append]
      rfl
    rw [hserved]
    refine poll_moves_together_iff (fun rows hrows => hdistinct rows ?_) hin
    rw [← hrows]
    exact hprior.subset (by simp)
  have hempty : InStep lib (served lib []).rows (served lib []).process := by
    intro sym liquidity hget
    cases hget
  constructor
  · intro h before answer hprior
    refine (hstep before answer hprior ?_).mp (h before answer hprior)
    rcases List.eq_nil_or_concat' before with rfl | ⟨past, last, rfl⟩
    · exact hempty
    · exact (h past last ((List.prefix_append _ _).trans hprior)).1
  · intro h before answer hprior
    refine (hstep before answer hprior ?_).mpr (h before answer hprior)
    have hbefore : before <+: answers := (List.prefix_append _ _).trans hprior
    clear hprior
    induction before using List.reverseRecOn with
    | nil => exact hempty
    | append_singleton past last ih =>
        have hpast := ih ((List.prefix_append _ _).trans hbefore)
        exact ((hstep past last hbefore hpast).mpr (h past last hbefore)).1

/-- Two answers; in the second, a row with a new price comes before one without a price. -/
def sampleAnswers : List (Except PyError (List Row)) :=
  [.ok [sampleQuote (.int 100)],
    .ok [sampleQuote (.int 102), (sampleQuote .null).set "symbol" (.str "ethusdt")]]

lemma distinctSymbols_pair {lib : Libraries} {r r' : Row} (h : r.symbolKey lib ≠ r'.symbolKey lib) :
    DistinctSymbols lib [r, r'] := by
  rw [DistinctSymbols, List.pairwise_pair]
  intro sym hsym hsym'
  exact h (hsym.trans hsym'.symm)

lemma distinctSymbols_sampleAnswers (rows : List Row) (h : .ok rows ∈ sampleAnswers) :
    DistinctSymbols sampleLibraries rows := by
  simp only [sampleAnswers, List.mem_cons, Except.ok.injEq, List.not_mem_nil, or_false] at h
  rcases h with rfl | rfl
  · exact List.pairwise_singleton _ _
  · exact distinctSymbols_pair (by decide)

/-- The row of the first answer again, before one without a price. -/
def repeatedRows : List Row :=
  [sampleQuote (.int 100), (sampleQuote .null).set "symbol" (.str "ethusdt")]

/-- The gauges show the values of the first row already. -/
lemma changesNothing_repeatedRows : ChangesNothing (gaugeWrites sampleLibraries repeatedRows).1
    (served sampleLibraries [.ok [sampleQuote (.int 100)]]).process.gauges := by
  intro series hseries
  have hshown : ∀ series ∈ (gaugeWrites sampleLibraries repeatedRows).1.map Prod.fst,
      ((served sampleLibraries [.ok [sampleQuote (.int 100)]]).process.gauges.get? series).isSome ∧
        (valuesAt (gaugeWrites sampleLibraries repeatedRows).1 series).getLast?
          = (served sampleLibraries [.ok [sampleQuote (.int 100)]]).process.gauges.get? series := by
    decide +kernel
  obtain ⟨hsome, hlast⟩ := hshown series hseries
  obtain ⟨value, hvalue⟩ := Option.isSome_iff_exists.mp hsome
  refine ⟨value, hvalue, fun last hmem => ?_⟩
  rw [hlast, hvalue] at hmem
  exact (Option.some.inj hmem).symm

/-- A second answer that fails, but says nothing new before. -/
theorem gauges_in_step_iff_sample :
    MovesTogether sampleLibraries [.ok [sampleQuote (.int 100)], .ok repeatedRows] := by
  refine (gauges_in_step_iff sampleLibraries _ ?_).mpr ?_
  · intro rows hrows
    simp only [List.mem_cons, Except.ok.injEq, List.not_mem_nil, or_false] at hrows
    rcases hrows with rfl | rfl
    · exact List.pairwise_singleton _ _
    · exact distinctSymbols_pair (by decide)
  · intro before answer hprior
    rcases before with _ | ⟨first, _ | ⟨second, rest⟩⟩
    · obtain ⟨rfl, _⟩ := List.cons_prefix_cons.mp hprior
      rw [Safe, if_pos (by decide +kernel)]
      intro r hr r' hr' _ g _
      rw [List.mem_singleton.mp hr, List.mem_singleton.mp hr']
    · obtain ⟨rfl, hrest⟩ := List.cons_prefix_cons.mp hprior
      obtain ⟨rfl, _⟩ := List.cons_prefix_cons.mp hrest
      rw [Safe, if_neg (by decide +kernel)]
      exact changesNothing_repeatedRows
    · have hlength := hprior.length_le
      simp only [List.length_append, List.length_cons, List.length_nil] at hlength
      omega

/-- **A row that fails leaves the gauges of the rows before it changed**: the gauge shows the price of
an answer that the model does not have. -/
theorem failed_refresh_sets_gauges :
    ¬ ∀ (lib : Libraries) (answers : List (Except PyError (List Row))),
      (∀ rows, .ok rows ∈ answers → DistinctSymbols lib rows) → MovesTogether lib answers := by
  intro h
  have hmoves := h sampleLibraries sampleAnswers distinctSymbols_sampleAnswers
    [.ok [sampleQuote (.int 100)]] _ (List.prefix_refl _)
  have hsame := congrFun (hmoves.2 rfl).2 (Gauge.midPrice, ("btcusdt", "binance"))
  revert hsame
  decide

end Ticksense
