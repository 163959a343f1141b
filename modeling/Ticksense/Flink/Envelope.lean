import Ticksense.Flink.Cdc

/-!
# Which envelopes the change log job can read

Only `json.loads` stands inside the `try` of `CdcEnvelopeProcessor.flat_map`, and only a `ValueError`
of it is caught; whatever the code reads after it has to be of the right shape, or the job fails and
is restarted at the same record.

* `Payload.WellFormed`, `Payload.Refused` — the payloads that must give one row, and none.
* `Payload.Passable` — what the code gets past.
* `parses_safely_iff` — it does as it should on exactly the payloads that it gets past, except for
  the events that it skips because of a long integer.
-/

namespace Ticksense

/-- The value of a field; null if it is absent. -/
def fieldOrNull (fields : List (String × Json)) (key : String) : Json :=
  (Json.field? fields key).getD .null

def Json.IsObject (v : Json) : Prop := ∃ fields, v = .obj fields

/-! ## What the job has to do -/

/-- The fields of a well-formed envelope: op, images and metadata of their types, or null where they
may be. -/
structure WellFormedEnvelope (fields : List (String × Json)) : Prop where
  op : ∃ op ∈ opCodes, Json.field? fields "op" = some (.str op)
  before : fieldOrNull fields "before" = .null ∨ (fieldOrNull fields "before").IsObject
  after : fieldOrNull fields "after" = .null ∨ (fieldOrNull fields "after").IsObject
  image : (fieldOrNull fields "before").IsObject ∨ (fieldOrNull fields "after").IsObject
  source : fieldOrNull fields "source" = .null ∨
    ∃ source, fieldOrNull fields "source" = .obj source ∧ ∀ key ∈ ["lsn", "ts_ms", "txId"],
      fieldOrNull source key = .null ∨ ∃ n, fieldOrNull source key = .int n
  tsMs : fieldOrNull fields "ts_ms" = .null ∨ ∃ n, fieldOrNull fields "ts_ms" = .int n

/-- The JSON value of a payload that is the text of one, whether `json.loads` returns it or not. -/
def Payload.value? : Payload → Option Json
  | .absent => none
  | .malformed => none
  | .json value => some value
  | .tooDeep value => value
  | .longInteger value => value

/-- A payload that is an event. -/
def Payload.WellFormed (payload : Payload) : Prop :=
  ∃ fields, payload.value? = some (.obj fields) ∧ WellFormedEnvelope fields

/-- A payload that is none: null, no JSON, no object, without a known op or without an image. -/
def Payload.Refused (payload : Payload) : Prop :=
  ∀ fields, payload.value? = some (.obj fields) →
    (∀ op ∈ opCodes, Json.field? fields "op" ≠ some (.str op)) ∨
      ¬ (fieldOrNull fields "before").IsObject ∧ ¬ (fieldOrNull fields "after").IsObject

/-- The processor raises nothing, turns an event into one row, and skips what is none. -/
def ParsesSafely (render dumps : Json → String) (value : KafkaRow) (nowMs : ℤ) : Prop :=
  ∃ rows, flatMap render dumps value nowMs = .ok rows ∧
    (value.payload.WellFormed → rows.length = 1) ∧ (value.payload.Refused → rows = [])

/-! ## What the code can read -/

/-- `int(v or 0)` does not raise. -/
def Json.IntLike (v : Json) : Prop := v.truthy = true → ∃ n, v.toInt = .ok n

/-- `after if after is not None else before` -/
def rowData (fields : List (String × Json)) : Json :=
  if (fieldOrNull fields "after").isSome then fieldOrNull fields "after"
  else fieldOrNull fields "before"

/-- The source is false or an object, the metadata can be taken for numbers, and the image that the
row is made from is an object or null. -/
structure ReadableEnvelope (fields : List (String × Json)) : Prop where
  source : ∃ source, (fieldOrNull fields "source").or (.obj []) = .obj source ∧
    ∀ key ∈ ["lsn", "ts_ms", "txId"], (fieldOrNull source key).IntLike
  tsMs : (fieldOrNull fields "ts_ms").IntLike
  image : rowData fields = .null ∨ (rowData fields).IsObject

/-- What the code gets past: no null and nothing nested too deeply, of what `json.loads` returns only
objects, and of these the ones with a known op only if they are readable. -/
def Payload.Passable : Payload → Prop
  | .malformed => True
  | .longInteger _ => True
  | .json (.obj fields) =>
      (∃ op ∈ opCodes, Json.field? fields "op" = some (.str op)) → ReadableEnvelope fields
  | _ => False

/-- An event with an integer of too many digits, which is taken for no JSON. -/
def Payload.Overlong : Payload → Prop
  | .longInteger (some (.obj fields)) => WellFormedEnvelope fields
  | _ => False

section Reading

variable {render dumps : Json → String} {value : KafkaRow} {nowMs : ℤ} {op : String}
  {fields : List (String × Json)} {rows : List BronzeRow}

@[simp] lemma get_obj_null (fields : List (String × Json)) (key : String) :
    (Json.obj fields).get key .null = .ok (fieldOrNull fields key) := rfl

lemma get_eq_ok {v w : Json} {key : String} (h : v.get key .null = .ok w) : v.IsObject := by
  cases v with
  | obj fields => exact ⟨fields, rfl⟩
  | _ => cases h

lemma isSome_eq_false {v : Json} : v.isSome = false ↔ v = .null := by
  cases v <;> simp [Json.isSome]

/-- A number field is read if and only if it can be taken for a number. -/
lemma exists_intOrZero {key : String} :
    (∃ n, intOrZero (.obj fields) key = .ok n) ↔ (fieldOrNull fields key).IntLike := by
  rw [intOrZero, get_obj_null, ok_bind, Json.or, Json.IntLike]
  cases htruthy : (fieldOrNull fields key).truthy with
  | true => simp
  | false => simp [Json.toInt]

/-- What the processor makes of a readable envelope. -/
lemma flatMapOp_of_readable (h : ReadableEnvelope fields) :
    ∃ rows, flatMapOp render dumps value nowMs (.obj fields) op = .ok rows ∧
      rows.length = if (rowData fields).isSome then 1 else 0 := by
  obtain ⟨⟨source, hsource, hnumbers⟩, htsMs, himage⟩ := h
  obtain ⟨lsn, hlsn⟩ := exists_intOrZero.mpr (hnumbers "lsn" (by simp))
  obtain ⟨ts, hts⟩ := exists_intOrZero.mpr (hnumbers "ts_ms" (by simp))
  obtain ⟨tx, htx⟩ := exists_intOrZero.mpr (hnumbers "txId" (by simp))
  obtain ⟨dts, hdts⟩ := exists_intOrZero.mpr htsMs
  have hrow : (if (fieldOrNull fields "after").isSome then fieldOrNull fields "after"
      else fieldOrNull fields "before") = rowData fields := rfl
  simp only [flatMapOp, get_obj_null, ok_bind, hsource, hlsn, hts, htx, hdts, hrow]
  rcases himage with hnull | ⟨row, hobject⟩
  · rw [hnull]
    exact ⟨[], rfl, rfl⟩
  · rw [hobject]
    exact ⟨_, rfl, rfl⟩

/-- Only a readable envelope gets through, one access after the other. -/
lemma readable_of_flatMapOp
    (h : flatMapOp render dumps value nowMs (.obj fields) op = .ok rows) :
    ReadableEnvelope fields := by
  rw [flatMapOp, get_obj_null, ok_bind] at h
  obtain ⟨lsn, hlsn, h⟩ := bind_eq_ok.mp h
  obtain ⟨ts, hts, h⟩ := bind_eq_ok.mp h
  obtain ⟨tx, htx, h⟩ := bind_eq_ok.mp h
  obtain ⟨dts, hdts, h⟩ := bind_eq_ok.mp h
  simp only [get_obj_null, ok_bind] at h
  obtain ⟨v, hv, _⟩ := bind_eq_ok.mp hlsn
  obtain ⟨source, hsource⟩ := get_eq_ok hv
  rw [hsource] at hlsn hts htx
  refine ⟨⟨source, hsource, ?_⟩, exists_intOrZero.mp ⟨dts, hdts⟩, ?_⟩
  · intro key hkey
    simp only [List.mem_cons, List.not_mem_nil, or_false] at hkey
    rcases hkey with rfl | rfl | rfl
    · exact exists_intOrZero.mp ⟨lsn, hlsn⟩
    · exact exists_intOrZero.mp ⟨ts, hts⟩
    · exact exists_intOrZero.mp ⟨tx, htx⟩
  · have hrow : (if (fieldOrNull fields "after").isSome then fieldOrNull fields "after"
        else fieldOrNull fields "before") = rowData fields := rfl
    rw [hrow] at h
    cases hsome : (rowData fields).isSome with
    | false => exact Or.inl (isSome_eq_false.mp hsome)
    | true =>
        rw [hsome, if_pos rfl] at h
        obtain ⟨symbol, hsymbol, _⟩ := bind_eq_ok.mp h
        exact Or.inr (get_eq_ok hsymbol)

/-- A well-formed envelope is readable, and its row data is an object. -/
lemma WellFormedEnvelope.readable (h : WellFormedEnvelope fields) :
    ReadableEnvelope fields ∧ (rowData fields).isSome = true := by
  have hnumber : ∀ v : Json, (v = .null ∨ ∃ n, v = .int n) → v.IntLike := by
    rintro v (rfl | ⟨n, rfl⟩) htruthy
    · cases htruthy
    · exact ⟨n, rfl⟩
  have hobject : (rowData fields).IsObject := by
    rw [rowData]
    rcases h.after with hnull | ⟨row, hrow⟩
    · have hbefore := h.image.resolve_right (by rintro ⟨row, hrow⟩; simp [hnull] at hrow)
      rw [hnull]
      exact hbefore
    · rw [hrow]
      exact ⟨row, rfl⟩
  refine ⟨⟨?_, hnumber _ h.tsMs, Or.inr hobject⟩, ?_⟩
  · rcases h.source with hnull | ⟨source, hsource, hmetadata⟩
    · refine ⟨[], by rw [hnull]; rfl, ?_⟩
      intro key _ htruthy
      cases htruthy
    · cases source with
      | nil =>
          refine ⟨[], by rw [hsource]; rfl, ?_⟩
          intro key _ htruthy
          cases htruthy
      | cons entry source =>
          refine ⟨entry :: source, by rw [hsource]; rfl, ?_⟩
          intro key hkey
          exact hnumber _ (hmetadata key hkey)
  · obtain ⟨row, hrow⟩ := hobject
    rw [hrow]
    rfl

/-- Without an image that is an object, a readable envelope has none at all. -/
lemma ReadableEnvelope.not_isSome (h : ReadableEnvelope fields)
    (hbefore : ¬ (fieldOrNull fields "before").IsObject)
    (hafter : ¬ (fieldOrNull fields "after").IsObject) : (rowData fields).isSome = false := by
  refine isSome_eq_false.mpr (h.image.resolve_right ?_)
  rw [rowData]
  split_ifs
  · exact hafter
  · exact hbefore

/-- The processor on an object: nothing is read without a known op. -/
lemma flatMap_obj (hpayload : value.payload = .json (.obj fields)) :
    flatMap render dumps value nowMs =
      match Json.field? fields "op" with
      | some (.str op) =>
          if op ∈ opCodes then flatMapOp render dumps value nowMs (.obj fields) op else .ok []
      | _ => .ok [] := by
  rw [flatMap, hpayload]
  cases hop : Json.field? fields "op" with
  | none => simp [Payload.loads, Json.get, hop, opCodes]
  | some op =>
      cases op with
      | str op => simp [Payload.loads, Json.get, hop]
      | _ => simp [Payload.loads, Json.get, hop]

/-- What is to be done with an object: the row of an event, or none. -/
lemma parsesSafely_obj (hpayload : value.payload = .json (.obj fields)) :
    ParsesSafely render dumps value nowMs ↔
      ∃ rows, flatMap render dumps value nowMs = .ok rows ∧
        (WellFormedEnvelope fields → rows.length = 1) ∧
        ((∀ op ∈ opCodes, Json.field? fields "op" ≠ some (.str op)) ∨
          ¬ (fieldOrNull fields "before").IsObject ∧ ¬ (fieldOrNull fields "after").IsObject →
            rows = []) := by
  simp only [ParsesSafely, hpayload, Payload.WellFormed, Payload.Refused, Payload.value?,
    Option.some.injEq, Json.obj.injEq, exists_eq_left', forall_eq']

/-- **A known op**: the envelope has to be readable. -/
lemma parsesSafely_of_op (hpayload : value.payload = .json (.obj fields)) (hcode : op ∈ opCodes)
    (hop : Json.field? fields "op" = some (.str op)) :
    ParsesSafely render dumps value nowMs ↔ ReadableEnvelope fields := by
  have hrun : flatMap render dumps value nowMs =
      flatMapOp render dumps value nowMs (.obj fields) op := by
    rw [flatMap_obj hpayload, hop]
    exact if_pos hcode
  rw [parsesSafely_obj hpayload, hrun]
  constructor
  · rintro ⟨rows, hrows, _⟩
    exact readable_of_flatMapOp hrows
  · intro hreadable
    have hrun : ∃ rows, flatMapOp render dumps value nowMs (.obj fields) op = .ok rows ∧
        rows.length = if (rowData fields).isSome then 1 else 0 := flatMapOp_of_readable hreadable
    obtain ⟨rows, hrows, hlength⟩ := hrun
    refine ⟨rows, hrows, ?_, ?_⟩
    · intro hwell
      rw [hlength, if_pos (WellFormedEnvelope.readable hwell).2]
    · rintro (hunknown | ⟨hbefore, hafter⟩)
      · exact absurd hop (hunknown op hcode)
      · rw [hreadable.not_isSome hbefore hafter] at hlength
        exact List.eq_nil_of_length_eq_zero hlength

/-- **No known op**: the record is skipped. -/
lemma parsesSafely_of_no_op (hpayload : value.payload = .json (.obj fields))
    (hop : ∀ op ∈ opCodes, Json.field? fields "op" ≠ some (.str op)) :
    ParsesSafely render dumps value nowMs := by
  refine (parsesSafely_obj hpayload).mpr ⟨[], ?_, ?_, fun _ => rfl⟩
  · rw [flatMap_obj hpayload]
    split
    · next op hfield => exact if_neg fun hcode => hop op hcode hfield
    · rfl
  · intro hwell
    obtain ⟨op, hcode, hfield⟩ := WellFormedEnvelope.op hwell
    exact absurd hfield (hop op hcode)

/-- **A record that is skipped**: it must not be an event. -/
lemma parsesSafely_of_skip (h : flatMap render dumps value nowMs = .ok []) :
    ParsesSafely render dumps value nowMs ↔ ¬ value.payload.WellFormed := by
  simp [ParsesSafely, h]

lemma not_parsesSafely_of_error {e : PyError} (h : flatMap render dumps value nowMs = .error e) :
    ¬ ParsesSafely render dumps value nowMs := by
  rintro ⟨rows, hrows, _⟩
  rw [h] at hrows
  cases hrows

end Reading

lemma overlong_iff {value : Option Json} :
    (Payload.longInteger value).Overlong ↔ (Payload.longInteger value).WellFormed := by
  cases value with
  | none => simp [Payload.Overlong, Payload.WellFormed, Payload.value?]
  | some v => cases v <;> simp [Payload.Overlong, Payload.WellFormed, Payload.value?]

/-- **When the job survives a record.**  The processor raises nothing, emits one row for every
well-formed envelope and none for what is no envelope, if and only if the code gets past the payload
and it is not an event with an integer that is too long. -/
theorem parses_safely_iff (render dumps : Json → String) (value : KafkaRow) (nowMs : ℤ) :
    ParsesSafely render dumps value nowMs ↔
      value.payload.Passable ∧ ¬ value.payload.Overlong := by
  cases hpayload : value.payload with
  | absent =>
      refine iff_of_false (not_parsesSafely_of_error (e := .typeError) ?_) fun h => h.1
      rw [flatMap, hpayload]
      rfl
  | malformed =>
      rw [parsesSafely_of_skip (by rw [flatMap, hpayload]; rfl), hpayload]
      simp [Payload.Passable, Payload.Overlong, Payload.WellFormed, Payload.value?]
  | tooDeep v =>
      refine iff_of_false (not_parsesSafely_of_error (e := .recursionError) ?_) fun h => h.1
      rw [flatMap, hpayload]
      rfl
  | longInteger v =>
      rw [parsesSafely_of_skip (by rw [flatMap, hpayload]; rfl), hpayload, ← overlong_iff]
      exact (and_iff_right trivial).symm
  | json v =>
      rw [and_iff_left (show ¬ (Payload.json v).Overlong from id)]
      cases v with
      | obj fields =>
          by_cases hop : ∃ op ∈ opCodes, Json.field? fields "op" = some (.str op)
          · obtain ⟨op, hcode, hfield⟩ := hop
            rw [parsesSafely_of_op hpayload hcode hfield]
            exact ⟨fun h _ => h, fun h => h ⟨op, hcode, hfield⟩⟩
          · refine iff_of_true (parsesSafely_of_no_op hpayload ?_) fun h => absurd h hop
            intro op hcode hfield
            exact hop ⟨op, hcode, hfield⟩
      | _ =>
          refine iff_of_false (not_parsesSafely_of_error (e := .attributeError) ?_) id
          simp [flatMap, hpayload, Payload.loads, Json.get]

/-- **A null payload fails the job**, although it is to be skipped: `json.loads` raises a
`TypeError`, which is not caught. -/
theorem null_payload_raises :
    ¬ ∀ (render dumps : Json → String) (value : KafkaRow) (nowMs : ℤ),
      ParsesSafely render dumps value nowMs := by
  intro h
  obtain ⟨rows, hrows, _⟩ := h (fun _ => "") (fun _ => "") ⟨.absent, 0, 0⟩ 0
  cases hrows

end Ticksense
