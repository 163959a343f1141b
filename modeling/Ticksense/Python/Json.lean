import Ticksense.Python.Float

/-!
# JSON values as the jobs read them

What `json.loads` returns, and the few operations the jobs perform on it before they know its shape:
subscripting, `get`, truth, `or`, `int`, `list`.  Each raises where the code would.

* `Payload` — the value of a Kafka record, as far as `json.loads` distinguishes values.  Its scanner
  recurses into arrays and objects, and converts integers with `int`.
* `Json.getItem`, `Json.get` — `v[key]` and `v.get(key, default)`.
* `Json.levels` — a list of price levels, each a list of texts.
-/

namespace Ticksense

/-- A parsed JSON value.  The fields of an object are those of the resulting dictionary. -/
inductive Json
  | null
  | bool (b : Bool)
  | int (n : ℤ)
  | real (x : PyFloat)
  | str (text : String)
  | arr (items : List Json)
  | obj (fields : List (String × Json))

/-- The value of a Kafka record: absent, a text that is not JSON, the text of a JSON value, or a text
that the scanner does not get through, with the value if it is JSON: it is nested too deeply, or has
an integer of more than `maxStrDigits` digits. -/
inductive Payload
  | absent
  | malformed
  | json (value : Json)
  | tooDeep (value : Option Json)
  | longInteger (value : Option Json)

/-- `json.loads(payload)`. -/
def Payload.loads : Payload → Except PyError Json
  | .absent => .error .typeError
  | .malformed => .error .jsonDecodeError
  | .json value => .ok value
  | .tooDeep _ => .error .recursionError
  | .longInteger _ => .error .valueError

/-- `int(x)` of a float: towards zero. -/
def PyFloat.trunc : PyFloat → Except PyError ℤ
  | .fin q => .ok (q.num.tdiv q.den)
  | .posInf => .error .overflowError
  | .negInf => .error .overflowError
  | .nan => .error .valueError

namespace Json

/-- The truth of a value. -/
def truthy : Json → Bool
  | null => false
  | bool b => b
  | int n => n ≠ 0
  | real x => !x.isZero
  | str text => text ≠ ""
  | arr items => !items.isEmpty
  | obj fields => !fields.isEmpty

/-- `v or w`. -/
def or (v w : Json) : Json := if v.truthy then v else w

/-- The value under a key of an object's fields. -/
def field? (fields : List (String × Json)) (key : String) : Option Json := fields.lookup key

/-- `v[key]` for a text `key`. -/
def getItem (v : Json) (key : String) : Except PyError Json :=
  match v with
  | obj fields =>
      match field? fields key with
      | some w => .ok w
      | none => .error .keyError
  | _ => .error .typeError

/-- `v.get(key, default)`. -/
def get (v : Json) (key : String) (default : Json) : Except PyError Json :=
  match v with
  | obj fields => .ok ((field? fields key).getD default)
  | _ => .error .attributeError

/-- `int(v)`. -/
def toInt : Json → Except PyError ℤ
  | bool b => .ok (if b then 1 else 0)
  | int n => .ok n
  | real x => x.trunc
  | str text => Ticksense.int text
  | _ => .error .typeError

/-- A text inside a level. -/
def text : Json → Except PyError String
  | str text => .ok text
  | _ => .error .typeError

/-- A price level: a list of texts. -/
def level : Json → Except PyError (List String)
  | arr items => items.mapM text
  | _ => .error .typeError

/-- `list(v or [])` where the result is used as a list of price levels.  Levels are lists of texts,
as the function that takes them declares; a value of another shape is refused here. -/
def levels : Json → Except PyError (List (List String))
  | arr items => items.mapM level
  | v => if v.truthy then .error .typeError else .ok []

/-- The value a list of price levels has. -/
def ofLevels (levels : List (List String)) : Json := arr (levels.map fun l => arr (l.map str))

lemma mapM_text (texts : List String) : (texts.map str).mapM text = .ok texts := by
  induction texts with
  | nil => rfl
  | cons t texts ih =>
      rw [List.map_cons, List.mapM_cons, ih]
      rfl

/-- Price levels are read back as they are. -/
@[simp] lemma levels_ofLevels (ls : List (List String)) : (ofLevels ls).levels = .ok ls := by
  show (ls.map fun l => arr (l.map str)).mapM level = .ok ls
  induction ls with
  | nil => rfl
  | cons l ls ih =>
      have hl : level (arr (l.map str)) = .ok l := mapM_text l
      rw [List.map_cons, List.mapM_cons, ih, hl]
      rfl

/-- An empty list of levels is false, and is read as no levels either way. -/
@[simp] lemma levels_or_ofLevels (ls : List (List String)) :
    ((ofLevels ls).or (arr [])).levels = .ok ls := by
  cases ls with
  | nil => rfl
  | cons l ls => exact levels_ofLevels (l :: ls)

end Json

end Ticksense
