import Mathlib.Data.List.Perm.Basic
import Ticksense.Flink.Normalize
import Ticksense.Lib.LastWriter

/-!
# The change log of the symbol table

`flink/jobs/cdc_symbol_config.py`: every change of `symbol_config` arrives as an envelope, and
becomes a row of the bronze table, which the table's definition calls the canonical replay source.

* `flatMap` — `CdcEnvelopeProcessor.flat_map` on any payload, with every exception.
* `Table`, `Change` — the database side: what a change does to the table and which events it leaves
  in the log (`images_patch`).
* `CdcDelivery` — a record whose payload is a well-formed envelope of an event.
* `bronze_replays` — the bronze rows of any deliveries, sorted by `source_lsn` and folded, are the
  final content of the table.
-/

namespace Ticksense

open VersionedMap

/-! ## The processor -/

/-- A row of the bronze table (`BRONZE_TYPE`). -/
structure BronzeRow where
  op : String
  symbol : String
  beforeJson : Option String
  afterJson : Option String
  sourceLsn : ℤ
  sourceTsMs : ℤ
  sourceTxId : ℤ
  debeziumTsMs : ℤ
  kafkaTopic : String
  kafkaPartition : ℤ
  kafkaOffset : ℤ
  ingestTsMs : ℤ

namespace Config

/-- `TOPIC_CDC` -/
def topicCdc : String := "postgres.public.symbol_config"

end Config

/-- `v` is not `None`. -/
def Json.isSome : Json → Bool
  | .null => false
  | _ => true

/-- `int(v.get(key) or 0)` -/
def intOrZero (v : Json) (key : String) : Except PyError ℤ := do
  ((← v.get key .null).or (.int 0)).toInt

/-- The op codes handled. -/
def opCodes : List String := ["r", "c", "u", "d"]

section Processor

variable (render dumps : Json → String)

/-- `json.dumps(v) if v is not None else None` -/
def dumpsOrNone (v : Json) : Option String :=
  if v.isSome then some (dumps v) else none

/-- `CdcEnvelopeProcessor.flat_map` from the op code on. -/
def flatMapOp (value : KafkaRow) (nowMs : ℤ) (envelope : Json) (op : String) :
    Except PyError (List BronzeRow) := do
  let source := (← envelope.get "source" .null).or (.obj [])
  let lsn ← intOrZero source "lsn"
  let sourceTsMs ← intOrZero source "ts_ms"
  let txId ← intOrZero source "txId"
  let debeziumTsMs ← intOrZero envelope "ts_ms"
  let before ← envelope.get "before" .null
  let after ← envelope.get "after" .null
  let rowData := if after.isSome then after else before
  if rowData.isSome then
    let symbol := format render ((← rowData.get "symbol" .null).or (.str "UNKNOWN"))
    return [⟨op, symbol, dumpsOrNone dumps before, dumpsOrNone dumps after, lsn, sourceTsMs, txId,
      debeziumTsMs, Config.topicCdc, value.partition, value.offset, nowMs⟩]
  -- both before and after are null
  else return []

/-- `CdcEnvelopeProcessor.flat_map` -/
def flatMap (value : KafkaRow) (nowMs : ℤ) : Except PyError (List BronzeRow) :=
  match value.payload.loads with
  -- `JSONDecodeError` and the other kinds of `ValueError` are logged and the record is skipped
  | .error .jsonDecodeError => .ok []
  | .error .unicodeDecodeError => .ok []
  | .error .valueError => .ok []
  | .error e => .error e
  | .ok envelope => do
      match ← envelope.get "op" (.str "") with
      | .str op =>
          if op ∈ opCodes then flatMapOp render dumps value nowMs envelope op else return []
      -- a missing or an unknown op
      | _ => return []

/-- A record as it reaches the processor, with the time at which it does. -/
structure CdcElement where
  record : KafkaRow
  nowMs : ℤ

/-- The bronze table after a log. -/
def bronzeTable (log : List CdcElement) : Except PyError (List BronzeRow) := do
  return (← log.mapM fun e => flatMap render dumps e.record e.nowMs).flatten

end Processor

/-! ## The database -/

/-- A row of `symbol_config`, as it is captured: an object with a symbol that is not empty. -/
structure ConfigRow where
  fields : List (String × Json)
  symbol : String
  hasSymbol : Json.field? fields "symbol" = some (.str symbol)
  nonempty : symbol ≠ ""

def ConfigRow.json (row : ConfigRow) : Json := .obj row.fields

/-- The content of `symbol_config`, by its primary key. -/
abbrev Table := String → Option ConfigRow

/-- The table has exactly these rows. -/
def Table.Lists (t : Table) (rows : List ConfigRow) : Prop :=
  ∀ symbol row, t symbol = some row ↔ row ∈ rows ∧ row.symbol = symbol

/-- A committed statement.  An update names the row by its old symbol. -/
inductive Change
  | insert (row : ConfigRow)
  | update (symbol : String) (row : ConfigRow)
  | delete (symbol : String)

/-- What a change does to the table; none if it cannot be committed. -/
def Table.commit (t : Table) : Change → Option Table
  | .insert row =>
      match t row.symbol with
      | none => some (Function.update t row.symbol (some row))
      | some _ => none
  | .update symbol row =>
      match t symbol with
      | none => none
      | some _ =>
          if row.symbol = symbol then some (Function.update t symbol (some row))
          else
            match t row.symbol with
            | none =>
                some (Function.update (Function.update t symbol none) row.symbol (some row))
            | some _ => none
  | .delete symbol =>
      match t symbol with
      | none => none
      | some _ => some (Function.update t symbol none)

/-- The changes one after the other. -/
def Table.commits (t : Table) (changes : List Change) : Option Table :=
  changes.foldlM Table.commit t

/-- The op codes of the events. -/
inductive Op
  | snapshot
  | create
  | update
  | delete
deriving DecidableEq

def Op.code : Op → String
  | .snapshot => "r"
  | .create => "c"
  | .update => "u"
  | .delete => "d"

/-- What an event says: the op, and the row after it, or before it when it is a deletion. -/
structure Image where
  op : Op
  row : ConfigRow

/-- The events of a change.  A change of the primary key is captured as a deletion and a creation.
-/
def Table.images (t : Table) : Change → List Image
  | .insert row => [⟨.create, row⟩]
  | .update symbol row =>
      if row.symbol = symbol then [⟨.update, row⟩]
      else ((t symbol).map fun old => (⟨.delete, old⟩ : Image)).toList ++ [⟨.create, row⟩]
  | .delete symbol => ((t symbol).map fun old => (⟨.delete, old⟩ : Image)).toList

/-- The events of the changes, in commit order. -/
def Table.history (t : Table) : List Change → List Image
  | [] => []
  | change :: changes =>
      t.images change ++
        match t.commit change with
        | some t' => t'.history changes
        | none => []

/-- The event as an upsert or a deletion, keyed by symbol. -/
def Image.entry (image : Image) : String × Option ConfigRow :=
  (image.row.symbol, if image.op = .delete then none else some image.row)

/-- The rows of the table are stored under their symbols. -/
def Table.Keyed (t : Table) : Prop :=
  ∀ symbol row, t symbol = some row → row.symbol = symbol

lemma keyed_update {t : Table} (h : t.Keyed) {symbol : String} {value : Option ConfigRow}
    (hvalue : ∀ row ∈ value, row.symbol = symbol) :
    Table.Keyed (Function.update t symbol value) := by
  intro symbol' row hrow
  rw [Function.update_apply] at hrow
  split_ifs at hrow with hsame
  · rw [hsame]
    exact hvalue row hrow
  · exact h symbol' row hrow

/-- **The events of a change do what the change does.** -/
lemma images_patch {t t' : Table} {change : Change} (h : t.Keyed)
    (hcommit : t.commit change = some t') :
    patch t ((t.images change).map Image.entry) = t' ∧ t'.Keyed := by
  cases change with
  | insert row =>
      cases hold : t row.symbol with
      | some old => simp [Table.commit, hold] at hcommit
      | none =>
          simp only [Table.commit, hold, Option.some.injEq] at hcommit
          subst hcommit
          exact ⟨rfl, keyed_update h fun _ hrow => Option.some.inj hrow ▸ rfl⟩
  | update symbol row =>
      cases hold : t symbol with
      | none => simp [Table.commit, hold] at hcommit
      | some old =>
          have hkey := h symbol old hold
          by_cases hsame : row.symbol = symbol
          · simp only [Table.commit, hold, hsame, if_true, Option.some.injEq] at hcommit
            subst hcommit
            refine ⟨?_, keyed_update h fun _ hrow => Option.some.inj hrow ▸ hsame⟩
            simp [Table.images, hsame, Image.entry]
          · cases htaken : t row.symbol with
            | some _ => simp [Table.commit, hold, hsame, htaken] at hcommit
            | none =>
                simp only [Table.commit, hold, hsame, if_false, htaken, Option.some.injEq]
                  at hcommit
                subst hcommit
                refine ⟨?_, keyed_update (keyed_update h (by simp))
                  fun _ hrow => Option.some.inj hrow ▸ rfl⟩
                simp [Table.images, hsame, hold, Image.entry, hkey]
  | delete symbol =>
      cases hold : t symbol with
      | none => simp [Table.commit, hold] at hcommit
      | some old =>
          have hkey := h symbol old hold
          simp only [Table.commit, hold, Option.some.injEq] at hcommit
          subst hcommit
          refine ⟨?_, keyed_update h (by simp)⟩
          simp [Table.images, hold, Image.entry, hkey]

/-- The events of a history do what the history does. -/
lemma history_patch {changes : List Change} {t final : Table} (h : t.Keyed)
    (hcommits : t.commits changes = some final) :
    patch t ((t.history changes).map Image.entry) = final := by
  induction changes generalizing t with
  | nil =>
      cases hcommits
      rfl
  | cons change changes ih =>
      obtain ⟨t', hcommit, hrest⟩ := Option.bind_eq_some_iff.mp hcommits
      obtain ⟨hpatch, hkeyed⟩ := images_patch h hcommit
      rw [Table.history, hcommit, List.map_append, patch_append, hpatch]
      exact ih hkeyed hrest

/-- The snapshot reads every row of the table. -/
def snapshotOf (rows : List ConfigRow) : List Image :=
  rows.map fun row => ⟨.snapshot, row⟩

lemma snapshot_patch {t : Table} {rows : List ConfigRow} (h : t.Lists rows) :
    patch (fun _ => none) ((snapshotOf rows).map Image.entry) = t := by
  have hgraph : ∀ e ∈ (snapshotOf rows).map Image.entry, e.2 = t e.1 := by
    intro e he
    obtain ⟨image, himage, rfl⟩ := List.mem_map.mp he
    obtain ⟨row, hrow, rfl⟩ := List.mem_map.mp himage
    simp [Image.entry, (h row.symbol row).mpr ⟨hrow, rfl⟩]
  funext symbol
  rw [patch_of_graph t _ hgraph]
  split_ifs with hlisted
  · rfl
  · cases hsymbol : t symbol with
    | none => rfl
    | some row =>
        obtain ⟨hrow, rfl⟩ := (h symbol row).mp hsymbol
        refine absurd ?_ hlisted
        simp only [snapshotOf, List.map_map, List.mem_map]
        exact ⟨row, hrow, rfl⟩

/-- **All that is captured**: the snapshot and the history after it. -/
lemma captured_patch {initial final : Table} {rows : List ConfigRow} {changes : List Change}
    (hrows : initial.Lists rows) (hcommits : initial.commits changes = some final) :
    patch (fun _ => none) ((snapshotOf rows ++ initial.history changes).map Image.entry) =
      final := by
  have hkeyed : initial.Keyed := fun symbol row hrow => ((hrows symbol row).mp hrow).2
  rw [List.map_append, patch_append, snapshot_patch hrows, history_patch hkeyed hcommits]

/-! ## Envelopes -/

/-- An event with its place in the log of the database. -/
structure ChangeEvent where
  image : Image
  lsn : ℤ

/-- A field holds a whole number. -/
def IsInt (fields : List (String × Json)) (key : String) : Prop :=
  ∃ n, Json.field? fields key = some (.int n)

/-- The images of an envelope: the full row in `after`, or in `before` when it is a deletion. -/
def ImagesOf (fields : List (String × Json)) (image : Image) : Prop :=
  if image.op = .delete then
    Json.field? fields "before" = some image.row.json ∧
      (Json.field? fields "after").getD .null = .null
  else Json.field? fields "after" = some image.row.json

/-- The fields of an object are those of the envelope of an event. -/
structure EnvelopeOf (fields : List (String × Json)) (e : ChangeEvent) : Prop where
  op : Json.field? fields "op" = some (.str e.image.op.code)
  source : ∃ source, Json.field? fields "source" = some (.obj source) ∧
    Json.field? source "lsn" = some (.int e.lsn) ∧ IsInt source "ts_ms" ∧ IsInt source "txId"
  tsMs : IsInt fields "ts_ms"
  images : ImagesOf fields e.image

/-- **A well-formed envelope on its way through the processor**, with the event it carries. -/
structure CdcDelivery where
  record : KafkaRow
  nowMs : ℤ
  event : ChangeEvent
  carries : ∃ fields, record.payload = .json (.obj fields) ∧ EnvelopeOf fields event

def CdcDelivery.element (d : CdcDelivery) : CdcElement := ⟨d.record, d.nowMs⟩

/-- What identifies an event: its symbol and its place. -/
def ChangeEvent.place (e : ChangeEvent) : String × ℤ := (e.image.row.symbol, e.lsn)

/-- The deliveries that are the first of their event. -/
def firstDeliveries (seen : List (String × ℤ)) : List CdcDelivery → List CdcDelivery
  | [] => []
  | d :: log =>
      if d.event.place ∈ seen then firstDeliveries seen log
      else d :: firstDeliveries (d.event.place :: seen) log

/-! ## The bronze rows -/

/-- The bronze row of an event, as far as a replay looks at it. -/
structure BronzeRow.Records (dumps : Json → String) (row : BronzeRow) (e : ChangeEvent) :
    Prop where
  op : row.op = e.image.op.code
  symbol : row.symbol = e.image.row.symbol
  afterJson : row.afterJson =
    if e.image.op = .delete then none else some (dumps e.image.row.json)
  beforeJson : e.image.op = .delete → row.beforeJson = some (dumps e.image.row.json)
  sourceLsn : row.sourceLsn = e.lsn

lemma intOrZero_of_isInt {fields : List (String × Json)} {key : String} {n : ℤ}
    (h : Json.field? fields key = some (.int n)) : intOrZero (.obj fields) key = .ok n := by
  by_cases hzero : n = 0
  · simp [intOrZero, Json.get, h, Json.or, Json.truthy, hzero, Json.toInt]
  · simp [intOrZero, Json.get, h, Json.or, Json.truthy, hzero, Json.toInt]

lemma Op.code_mem (op : Op) : op.code ∈ opCodes := by
  cases op <;> decide

/-- The processor from the op code on, for an envelope with a captured row in one of its images. -/
lemma flatMapOp_ok (render dumps : Json → String) (value : KafkaRow) (nowMs : ℤ) (op : String)
    {fields source : List (String × Json)} {lsn ts tx dts : ℤ} {row : ConfigRow}
    {before after : Json}
    (hsource : Json.field? fields "source" = some (.obj source))
    (hlsn : Json.field? source "lsn" = some (.int lsn))
    (hts : Json.field? source "ts_ms" = some (.int ts))
    (htx : Json.field? source "txId" = some (.int tx))
    (hdts : Json.field? fields "ts_ms" = some (.int dts))
    (hbefore : (Json.field? fields "before").getD .null = before)
    (hafter : (Json.field? fields "after").getD .null = after)
    (hrow : (if after.isSome then after else before) = row.json) :
    flatMapOp render dumps value nowMs (.obj fields) op =
      .ok [⟨op, row.symbol, dumpsOrNone dumps before, dumpsOrNone dumps after, lsn, ts, tx, dts,
        Config.topicCdc, value.partition, value.offset, nowMs⟩] := by
  have hnonempty : source ≠ [] := by
    rintro rfl
    cases hlsn
  have hor : (Json.obj source).or (.obj []) = .obj source := by
    simp [Json.or, Json.truthy, hnonempty]
  have hsymbol : row.json.get "symbol" .null = .ok (.str row.symbol) := by
    simp [ConfigRow.json, Json.get, row.hasSymbol]
  have hname : format render ((Json.str row.symbol).or (.str "UNKNOWN")) = row.symbol := by
    simp [Json.or, Json.truthy, row.nonempty, format]
  have hget : ∀ key, (Json.obj fields).get key .null =
      .ok ((Json.field? fields key).getD .null) := fun _ => rfl
  simp only [flatMapOp, hget, hsource, hbefore, hafter, Option.getD_some, ok_bind, hor,
    intOrZero_of_isInt hlsn, intOrZero_of_isInt hts, intOrZero_of_isInt htx,
    intOrZero_of_isInt hdts, hrow]
  simp only [ConfigRow.json, Json.isSome, if_true]
  rw [← ConfigRow.json, hsymbol, ok_bind, hname, pure_eq_ok]

/-- **The processor on a well-formed envelope** never raises and emits the bronze row of the event.
-/
theorem flatMap_ok (render dumps : Json → String) (d : CdcDelivery) :
    ∃ row, flatMap render dumps d.record d.nowMs = .ok [row] ∧ row.Records dumps d.event := by
  obtain ⟨fields, hpayload, hop, ⟨source, hsource, hlsn, ⟨ts, hts⟩, tx, htx⟩, ⟨dts, hdts⟩,
    himages⟩ := d.carries
  have hrun : flatMap render dumps d.record d.nowMs =
      flatMapOp render dumps d.record d.nowMs (.obj fields) d.event.image.op.code := by
    simp [flatMap, hpayload, Payload.loads, Json.get, hop, d.event.image.op.code_mem]
  have hdumps : dumpsOrNone dumps d.event.image.row.json =
      some (dumps d.event.image.row.json) := rfl
  rw [hrun]
  by_cases hdelete : d.event.image.op = .delete
  · rw [ImagesOf, if_pos hdelete] at himages
    obtain ⟨hbefore, hafter⟩ := himages
    have hbefore' : (Json.field? fields "before").getD .null = d.event.image.row.json := by
      rw [hbefore, Option.getD_some]
    refine ⟨_, flatMapOp_ok render dumps d.record d.nowMs _ hsource hlsn hts htx hdts hbefore'
      hafter rfl, rfl, rfl, ?_, fun _ => hdumps, rfl⟩
    rw [if_pos hdelete]
    rfl
  · rw [ImagesOf, if_neg hdelete] at himages
    have hafter : (Json.field? fields "after").getD .null = d.event.image.row.json := by
      rw [himages, Option.getD_some]
    refine ⟨_, flatMapOp_ok render dumps d.record d.nowMs _ hsource hlsn hts htx hdts rfl hafter
      rfl, rfl, rfl, ?_, fun h => absurd h hdelete, rfl⟩
    rw [if_neg hdelete]
    exact hdumps

/-- The bronze table of well-formed envelopes: a row for each. -/
lemma bronzeTable_ok (render dumps : Json → String) (log : List CdcDelivery) :
    ∃ rows, bronzeTable render dumps (log.map CdcDelivery.element) = .ok rows ∧
      List.Forall₂ (BronzeRow.Records dumps) rows (log.map CdcDelivery.event) := by
  have hmapM : ∃ rows : List BronzeRow,
      (log.map CdcDelivery.element).mapM (fun e => flatMap render dumps e.record e.nowMs) =
        .ok (rows.map fun row => [row]) ∧
      List.Forall₂ (BronzeRow.Records dumps) rows (log.map CdcDelivery.event) := by
    induction log with
    | nil => exact ⟨[], rfl, .nil⟩
    | cons d log ih =>
        obtain ⟨rows, hrest, hrecords⟩ := ih
        obtain ⟨row, hrow, hrecord⟩ := flatMap_ok render dumps d
        refine ⟨row :: rows, ?_, .cons hrecord hrecords⟩
        rw [List.map_cons, List.mapM_cons, hrest]
        show (flatMap render dumps d.record d.nowMs >>= _) = _
        rw [hrow]
        rfl
  obtain ⟨rows, hrun, hrecords⟩ := hmapM
  refine ⟨rows, ?_, hrecords⟩
  rw [bronzeTable, hrun, ok_bind, pure_eq_ok, ← List.flatMap_def, List.flatMap_singleton']

lemma lsn_of_records {dumps : Json → String} {rows : List BronzeRow} {events : List ChangeEvent}
    (h : List.Forall₂ (BronzeRow.Records dumps) rows events) :
    rows.map BronzeRow.sourceLsn = events.map ChangeEvent.lsn := by
  induction h with
  | nil => rfl
  | cons hrecord _ ih => rw [List.map_cons, List.map_cons, hrecord.sourceLsn, ih]

/-! ## Replaying the bronze table -/

/-- One row of the bronze table in a replay: the decoded row is put under its symbol, or the symbol
is removed. -/
def replayRow (loads : String → Except PyError Json) (content : String → Option Json)
    (row : BronzeRow) : Except PyError (String → Option Json) :=
  if row.op = "d" then .ok (Function.update content row.symbol none)
  else
    match row.afterJson with
    | none => .error .typeError
    | some text => do return Function.update content row.symbol (some (← loads text))

/-- **A replay of the bronze table**, in the order given. -/
def replayBronze (loads : String → Except PyError Json) (rows : List BronzeRow) :
    Except PyError (String → Option Json) :=
  rows.foldlM (replayRow loads) fun _ => none

/-- The content of the table, as captured. -/
def Table.content (t : Table) : String → Option Json :=
  fun symbol => (t symbol).map ConfigRow.json

/-- An event as an upsert or a deletion of a captured row. -/
def ChangeEvent.entry (e : ChangeEvent) : String × Option Json :=
  (e.image.row.symbol, if e.image.op = .delete then none else some e.image.row.json)

/-- The changelog that drives the normalized table: each event as an upsert or a deletion, in the
order of arrival. -/
def applyInOrder (log : List CdcDelivery) : String → Option Json :=
  patch (fun _ => none) (log.map fun d => d.event.entry)

lemma patch_content (images : List Image) (t : Table) :
    patch t.content (images.map fun image => (image.entry.1, image.entry.2.map ConfigRow.json)) =
      Table.content (patch t (images.map Image.entry)) := by
  induction images generalizing t with
  | nil => rfl
  | cons image images ih =>
      rw [List.map_cons, patch_cons, List.map_cons, patch_cons, ← ih]
      congr 1
      funext symbol
      simp only [Table.content, Function.update_apply]
      split_ifs <;> rfl

lemma replayRow_ok {dumps : Json → String} {loads : String → Except PyError Json}
    {row : BronzeRow} {e : ChangeEvent} (h : row.Records dumps e)
    (hload : loads (dumps e.image.row.json) = .ok e.image.row.json)
    (content : String → Option Json) :
    replayRow loads content row = .ok (Function.update content e.entry.1 e.entry.2) := by
  have hcode : e.image.op.code = "d" ↔ e.image.op = .delete := by
    cases e.image.op <;> decide
  by_cases hdelete : e.image.op = .delete
  · rw [replayRow, h.op, if_pos (hcode.mpr hdelete), h.symbol]
    simp [ChangeEvent.entry, hdelete]
  · rw [replayRow, h.op, if_neg (mt hcode.mp hdelete), h.afterJson, if_neg hdelete, h.symbol]
    simp [ChangeEvent.entry, hdelete, hload]

/-- A replay writes the events of its rows. -/
lemma replayBronze_ok {dumps : Json → String} {loads : String → Except PyError Json}
    {rows : List BronzeRow} {events : List ChangeEvent}
    (h : List.Forall₂ (BronzeRow.Records dumps) rows events)
    (hloads : ∀ e ∈ events, loads (dumps e.image.row.json) = .ok e.image.row.json)
    (content : String → Option Json) :
    rows.foldlM (replayRow loads) content =
      .ok (patch content (events.map ChangeEvent.entry)) := by
  induction h generalizing content with
  | nil => rfl
  | cons hrecord _ ih =>
      rw [List.foldlM_cons, replayRow_ok hrecord (hloads _ List.mem_cons_self), ok_bind,
        ih fun e he => hloads e (List.mem_cons_of_mem _ he)]
      rfl

/-! ## Deliveries -/

/-- The same event, at any time and at any place of the topic. -/
def SameEvent (d e : CdcDelivery) : Prop :=
  d.event = e.event

/-- Redeliveries bring no event that has not been delivered before. -/
lemma mem_events_withCopies {seen firsts log : List CdcDelivery}
    (h : Transducer.WithCopies SameEvent seen firsts log) (e : ChangeEvent) :
    (e ∈ log.map CdcDelivery.event → e ∈ (seen ++ firsts).map CdcDelivery.event) ∧
      (e ∈ firsts.map CdcDelivery.event → e ∈ log.map CdcDelivery.event) := by
  induction h with
  | nil => simp
  | original _ ih =>
      simp only [List.map_append, List.map_cons, List.mem_append, List.mem_cons] at ih ⊢
      constructor
      · rintro (hsame | hlater)
        · exact Or.inr (Or.inl hsame)
        · have := ih.1 hlater
          tauto
      · rintro (hsame | hlater)
        · exact Or.inl hsame
        · exact Or.inr (ih.2 hlater)
  | @copied seen _ _ d c hd hcopy _ ih =>
      simp only [List.map_append, List.map_cons, List.mem_append, List.mem_cons] at ih ⊢
      constructor
      · rintro (hsame | hlater)
        · refine Or.inl (List.mem_map.mpr ⟨d, hd, ?_⟩)
          rw [hsame]
          exact hcopy
        · exact ih.1 hlater
      · intro hfirst
        exact Or.inr (ih.2 hfirst)

/-- **The first deliveries are recovered from the log** by symbol and place. -/
lemma firstDeliveries_withCopies {seen firsts log : List CdcDelivery}
    (h : Transducer.WithCopies SameEvent seen firsts log)
    (hnew : ∀ d ∈ firsts, d.event.place ∉ seen.map fun d => d.event.place)
    (hdistinct : (firsts.map fun d => d.event.place).Nodup) :
    firstDeliveries (seen.map fun d => d.event.place) log = firsts := by
  induction h with
  | nil => rfl
  | @original seen firsts log d _ ih =>
      rw [List.map_cons, List.nodup_cons] at hdistinct
      have hnew' : ∀ e ∈ firsts, e.event.place ∉ (d :: seen).map fun d => d.event.place := by
        intro e he hmem
        rcases List.mem_cons.mp hmem with hsame | hmem
        · refine hdistinct.1 (List.mem_map.mpr ⟨e, he, hsame⟩)
        · exact hnew e (List.mem_cons_of_mem d he) hmem
      rw [firstDeliveries, if_neg (hnew d List.mem_cons_self)]
      exact congrArg (d :: ·) (ih hnew' hdistinct.2)
  | @copied seen _ _ d c hd hcopy _ ih =>
      have hplace : c.event.place ∈ seen.map fun d => d.event.place := by
        refine List.mem_map.mpr ⟨d, hd, ?_⟩
        rw [show d.event = c.event from hcopy]
      rw [firstDeliveries, if_pos hplace]
      exact ih hnew hdistinct

/-- The entry that an image writes, decoded. -/
lemma entries_of_images {firsts : List CdcDelivery} {images : List Image}
    (h : (firsts.map fun d => d.event.image) = images) :
    (firsts.map CdcDelivery.event).map ChangeEvent.entry =
      images.map fun image => (image.entry.1, image.entry.2.map ConfigRow.json) := by
  subst h
  rw [List.map_map, List.map_map]
  refine List.map_congr_left fun d _ => ?_
  simp only [Function.comp, ChangeEvent.entry, Image.entry]
  split_ifs <;> rfl

/-- **The bronze table is a replay source.**  For every snapshot and every history of
`symbol_config` after it, delivered at least once with the first deliveries in commit order, the
processor never raises, and the bronze rows sorted by `source_lsn`, ties in any order, replay to the
final content of the table, as do the first deliveries in their order of arrival. -/
theorem bronze_replays (render dumps : Json → String) (loads : String → Except PyError Json)
    (initial final : Table) (rows : List ConfigRow) (changes : List Change)
    (hrows : initial.Lists rows) (hfinal : initial.commits changes = some final)
    (firsts log : List CdcDelivery)
    (hfirsts : (firsts.map fun d => d.event.image) = snapshotOf rows ++ initial.history changes)
    (hloads : ∀ d ∈ firsts,
      loads (dumps d.event.image.row.json) = .ok d.event.image.row.json)
    (hlsn : firsts.Pairwise fun d e =>
      d.event.image.row.symbol = e.event.image.row.symbol → d.event.lsn < e.event.lsn)
    (hlog : Transducer.WithCopies SameEvent [] firsts log) :
    ∃ bronze, bronzeTable render dumps (log.map CdcDelivery.element) = .ok bronze ∧
      (∀ sorted : List BronzeRow, sorted.Perm bronze →
        (sorted.Pairwise fun a b => a.sourceLsn ≤ b.sourceLsn) →
        replayBronze loads sorted = .ok final.content) ∧
      applyInOrder (firstDeliveries [] log) = final.content := by
  have hcontent : patch (fun _ => none) ((firsts.map CdcDelivery.event).map ChangeEvent.entry) =
      final.content := by
    rw [entries_of_images hfirsts]
    exact (patch_content _ fun _ => none).trans (congrArg _ (captured_patch hrows hfinal))
  obtain ⟨bronze, hrun, hrecords⟩ := bronzeTable_ok render dumps log
  refine ⟨bronze, hrun, ?_, ?_⟩
  · intro sorted hperm hsorted
    obtain ⟨events, hevents, hsame⟩ := List.perm_comp_forall₂ hperm hrecords
    have hmem : ∀ e, e ∈ firsts.map CdcDelivery.event ↔ e ∈ events := by
      intro e
      have hcopies := mem_events_withCopies hlog e
      rw [hsame.mem_iff]
      exact ⟨hcopies.2, hcopies.1⟩
    have hstamps : events.Pairwise fun a b => a.lsn ≤ b.lsn := by
      rw [← List.pairwise_map (f := ChangeEvent.lsn) (R := (· ≤ ·)), ← lsn_of_records hevents]
      exact List.pairwise_map.mpr hsorted
    have hdecoded : ∀ e ∈ events, loads (dumps e.image.row.json) = .ok e.image.row.json := by
      intro e he
      obtain ⟨d, hd, rfl⟩ := List.mem_map.mp ((hmem e).mpr he)
      exact hloads d hd
    rw [replayBronze, replayBronze_ok hevents hdecoded, ← hcontent]
    refine congrArg _ (patch_eq_of_stamped ChangeEvent.lsn ChangeEvent.entry hmem ?_ hstamps _)
    exact List.pairwise_map.mpr hlsn
  · have hplaces : (firsts.map fun d => d.event.place).Nodup := by
      refine List.pairwise_map.mpr (hlsn.imp ?_)
      intro d e hlt hplace
      obtain ⟨hsymbol, hsame⟩ := Prod.mk.inj hplace
      exact absurd hsame (ne_of_lt (hlt hsymbol))
    have hrecovered : firstDeliveries [] log = firsts :=
      firstDeliveries_withCopies hlog (by simp) hplaces
    rw [hrecovered, applyInOrder, ← hcontent, List.map_map]
    rfl

/-- A captured row. -/
def sampleConfig : ConfigRow where
  fields := [("symbol", .str "BTCUSDT"), ("exchange", .str "binance")]
  symbol := "BTCUSDT"
  hasSymbol := rfl
  nonempty := by decide

/-- An envelope with this row, at a place of the log. -/
def sampleChange (op : Op) (lsn : ℤ) : CdcDelivery where
  record := ⟨.json (.obj [("op", .str op.code),
    ("before", if op = .delete then sampleConfig.json else .null),
    ("after", if op = .delete then .null else sampleConfig.json),
    ("source", .obj [("lsn", .int lsn), ("ts_ms", .int 1), ("txId", .int 1)]),
    ("ts_ms", .int 2)]), 0, 0⟩
  nowMs := 3
  event := ⟨⟨op, sampleConfig⟩, lsn⟩
  carries := by
    refine ⟨_, rfl, rfl, ⟨_, rfl, rfl, ⟨1, rfl⟩, ⟨1, rfl⟩⟩, ⟨2, rfl⟩, ?_⟩
    cases op with
    | delete => exact ⟨rfl, rfl⟩
    | snapshot => rfl
    | create => rfl
    | update => rfl

/-- The table with this row. -/
def sampleTable : Table := fun symbol => if symbol = "BTCUSDT" then some sampleConfig else none

/-- The row as JSON text. -/
def sampleText : String := "\x7b\"symbol\": \"BTCUSDT\", \"exchange\": \"binance\"\x7d"

/-- The text read back. -/
def sampleLoads (text : String) : Except PyError Json :=
  if text = sampleText then .ok sampleConfig.json else .error .jsonDecodeError

/-- A row that is captured, deleted, and captured once more by a redelivery stays deleted. -/
theorem bronze_replays_sample :
    ∃ bronze, bronzeTable (fun _ => "") (fun _ => sampleText) ([sampleChange .snapshot 5,
        sampleChange .delete 7, sampleChange .snapshot 5].map CdcDelivery.element) = .ok bronze ∧
      (∀ sorted : List BronzeRow, sorted.Perm bronze →
        (sorted.Pairwise fun a b => a.sourceLsn ≤ b.sourceLsn) →
        replayBronze sampleLoads sorted =
          .ok (Table.content (Function.update sampleTable "BTCUSDT" none))) ∧
      applyInOrder (firstDeliveries [] [sampleChange .snapshot 5, sampleChange .delete 7,
        sampleChange .snapshot 5]) =
          Table.content (Function.update sampleTable "BTCUSDT" none) := by
  refine bronze_replays (fun _ => "") (fun _ => sampleText) sampleLoads
    sampleTable (Function.update sampleTable "BTCUSDT" none) [sampleConfig] [.delete "BTCUSDT"]
    ?_ rfl [sampleChange .snapshot 5, sampleChange .delete 7] _ rfl ?_ ?_ ?_
  · intro symbol row
    simp only [sampleTable, List.mem_singleton]
    constructor
    · intro hrow
      split_ifs at hrow with hsymbol
      cases hrow
      exact ⟨rfl, hsymbol.symm⟩
    · rintro ⟨rfl, hsymbol⟩
      exact if_pos hsymbol.symm
  · simp [sampleChange, sampleLoads]
  · simp [sampleChange]
  · exact .original (.original (.copied (i := sampleChange .snapshot 5) (by simp) rfl .nil))

end Ticksense
