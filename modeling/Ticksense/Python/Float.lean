import Mathlib.Algebra.Order.Field.Rat
import Mathlib.Data.List.Forall2
import Mathlib.Tactic.Linarith

/-!
# Numbers of the runtime the jobs are written in

The jobs carry prices and quantities as text and convert them with `float` where they compare or
combine them.  This file fixes what that conversion and the operations after it mean.

* `PyError` — the exceptions the modelled code raises or lets through.
* `PyFloat` — a float: a number, one of the two infinities, or not-a-number.  Numbers are *exact*:
  the decimal a text denotes, with exact arithmetic on it.  Rounding to binary64 is not modelled.
* `float`, `int` — the conversions from text, with their grammar: surrounding whitespace, a sign,
  digits of any script with single underscores between them, and for `float` a fraction, an exponent
  and the names of the special values.
* `maxBy`, `minBy` — `max` and `min` with a key: the first extremal element in iteration order.
* `Numeric`, `value` — the texts that denote a number, and the number they denote.
-/

namespace Ticksense

/-- The exceptions of the modelled code. -/
inductive PyError
  | valueError
  | typeError
  | keyError
  | indexError
  | attributeError
  | overflowError
  | zeroDivisionError
  | jsonDecodeError
  | unicodeDecodeError
  | recursionError
  | gapDetectedError (message : String)
  | connectionError
deriving DecidableEq, Repr

section Exceptions

variable {ε α β : Type}

@[simp] lemma ok_bind (a : α) (f : α → Except ε β) : (Except.ok a >>= f) = f a := rfl

@[simp] lemma error_bind (e : ε) (f : α → Except ε β) : (Except.error e >>= f) = .error e := rfl

@[simp] lemma pure_eq_ok (a : α) : (pure a : Except ε α) = .ok a := rfl

/-- A sequence that succeeds is two successes. -/
lemma bind_eq_ok {x : Except ε α} {f : α → Except ε β} {b : β} :
    x >>= f = .ok b ↔ ∃ a, x = .ok a ∧ f a = .ok b := by
  cases x <;> simp

lemma map_eq_ok {f : α → β} {x : Except ε α} {b : β} :
    x.map f = .ok b ↔ ∃ a, x = .ok a ∧ f a = b := by
  cases x <;> simp [Except.map]

lemma map_eq_error {f : α → β} {x : Except ε α} {e : ε} :
    x.map f = .error e ↔ x = .error e := by
  cases x <;> simp [Except.map]

/-- A loop that succeeds is a success for every item. -/
lemma mapM_eq_ok {f : α → Except ε β} {xs : List α} {ys : List β} :
    xs.mapM f = .ok ys ↔ List.Forall₂ (fun x y => f x = .ok y) xs ys := by
  induction xs generalizing ys with
  | nil =>
      rw [List.mapM_nil, pure_eq_ok, Except.ok.injEq, List.forall₂_nil_left_iff]
      exact eq_comm
  | cons x xs ih =>
      rw [List.mapM_cons, bind_eq_ok, List.forall₂_cons_left_iff]
      refine exists_congr fun y => ?_
      rw [exists_and_left, bind_eq_ok]
      refine and_congr_right fun _ => exists_congr fun zs => and_congr ih ?_
      rw [pure_eq_ok, Except.ok.injEq]
      exact eq_comm

/-- What a loop that succeeds returns. -/
lemma mem_of_mapM_ok {f : α → Except ε β} {xs : List α} {ys : List β}
    (h : xs.mapM f = .ok ys) {y : β} : y ∈ ys ↔ ∃ x ∈ xs, f x = .ok y := by
  induction mapM_eq_ok.mp h with
  | nil => simp
  | @cons x y' xs ys hx hxs ih =>
      simp only [List.mem_cons, ih (mapM_eq_ok.mpr hxs), exists_eq_or_imp, hx, Except.ok.injEq]
      exact or_congr_left eq_comm

end Exceptions

/-- A float, with exact numbers. -/
inductive PyFloat
  | fin (q : ℚ)
  | posInf
  | negInf
  | nan
deriving DecidableEq, Repr

namespace PyFloat

/-- `x < y`; every comparison with not-a-number is false. -/
def lt : PyFloat → PyFloat → Bool
  | fin a, fin b => a < b
  | negInf, fin _ => true
  | negInf, posInf => true
  | fin _, posInf => true
  | _, _ => false

/-- `x == 0.0`. -/
def isZero : PyFloat → Bool
  | fin q => q = 0
  | _ => false

def neg : PyFloat → PyFloat
  | fin q => fin (-q)
  | posInf => negInf
  | negInf => posInf
  | nan => nan

def add : PyFloat → PyFloat → PyFloat
  | fin a, fin b => fin (a + b)
  | nan, _ => nan
  | _, nan => nan
  | posInf, negInf => nan
  | negInf, posInf => nan
  | posInf, _ => posInf
  | _, posInf => posInf
  | negInf, _ => negInf
  | _, negInf => negInf

def sub (x y : PyFloat) : PyFloat := add x (neg y)

/-- A number times infinity. -/
def timesInf (q : ℚ) : PyFloat := if q = 0 then nan else if 0 < q then posInf else negInf

def mul : PyFloat → PyFloat → PyFloat
  | fin a, fin b => fin (a * b)
  | nan, _ => nan
  | _, nan => nan
  | fin a, posInf => timesInf a
  | posInf, fin b => timesInf b
  | fin a, negInf => timesInf (-a)
  | negInf, fin b => timesInf (-b)
  | posInf, posInf => posInf
  | negInf, negInf => posInf
  | posInf, negInf => negInf
  | negInf, posInf => negInf

/-- `max(x, y)`: the first, unless the second is greater. -/
def maxOf (x y : PyFloat) : PyFloat := if x.lt y then y else x

/-- `min(x, y)`: the first, unless the second is less. -/
def minOf (x y : PyFloat) : PyFloat := if y.lt x then y else x

/-- Division; a zero divisor raises, whatever the dividend. -/
def div : PyFloat → PyFloat → Except PyError PyFloat
  | x, fin b =>
      if b = 0 then .error .zeroDivisionError
      else match x with
        | fin a => .ok (fin (a / b))
        | nan => .ok nan
        | posInf => .ok (if 0 < b then posInf else negInf)
        | negInf => .ok (if 0 < b then negInf else posInf)
  | fin _, posInf => .ok (fin 0)
  | fin _, negInf => .ok (fin 0)
  | _, _ => .ok nan

/-- `sum` of a list of floats, from the left. -/
def sum (xs : List PyFloat) : PyFloat := xs.foldl add (fin 0)

@[simp] lemma lt_fin (a b : ℚ) : lt (fin a) (fin b) = decide (a < b) := rfl
@[simp] lemma isZero_fin (q : ℚ) : isZero (fin q) = decide (q = 0) := rfl
@[simp] lemma neg_fin (q : ℚ) : neg (fin q) = fin (-q) := rfl
@[simp] lemma add_fin (a b : ℚ) : add (fin a) (fin b) = fin (a + b) := rfl
@[simp] lemma sub_fin (a b : ℚ) : sub (fin a) (fin b) = fin (a - b) := by
  simp [sub, sub_eq_add_neg]

@[simp] lemma mul_fin (a b : ℚ) : mul (fin a) (fin b) = fin (a * b) := rfl

@[simp] lemma maxOf_fin (a b : ℚ) : maxOf (fin a) (fin b) = fin (max a b) := by
  rw [maxOf, lt_fin, max_def_lt, apply_ite fin]
  simp only [decide_eq_true_eq]

@[simp] lemma minOf_fin (a b : ℚ) : minOf (fin a) (fin b) = fin (min a b) := by
  rw [minOf, lt_fin, min_comm, min_def_lt, apply_ite fin]
  simp only [decide_eq_true_eq]

lemma div_fin (a : ℚ) {b : ℚ} (hb : b ≠ 0) : div (fin a) (fin b) = .ok (fin (a / b)) := by
  simp [div, hb]

/-- The sum of numbers is their sum. -/
lemma sum_map_fin (qs : List ℚ) : sum (qs.map fin) = fin qs.sum := by
  suffices H : ∀ (qs : List ℚ) (acc : ℚ), (qs.map fin).foldl add (fin acc) = fin (acc + qs.sum) by
    simpa [sum] using H qs 0
  intro qs
  induction qs with
  | nil => intro acc; simp
  | cons q qs ih =>
      intro acc
      rw [List.map_cons, List.foldl_cons, add_fin, ih, List.sum_cons, add_assoc]

end PyFloat

/-! ## Text to number -/

/-- `c.isspace()` -/
def Text.isSpace (c : Char) : Bool :=
  (9 ≤ c.toNat && c.toNat ≤ 13) || (28 ≤ c.toNat && c.toNat ≤ 32) || c.toNat = 0x85 ||
    c.toNat = 0xA0 || c.toNat = 0x1680 || (0x2000 ≤ c.toNat && c.toNat ≤ 0x200A) ||
    c.toNat = 0x2028 || c.toNat = 0x2029 || c.toNat = 0x202F || c.toNat = 0x205F ||
    c.toNat = 0x3000

/-- The zeros of the scripts, apart from ASCII; the other nine digits follow each of them. -/
def decimalZeros : List ℕ :=
  [0x660, 0x6F0, 0x7C0, 0x966, 0x9E6, 0xA66, 0xAE6, 0xB66, 0xBE6, 0xC66, 0xCE6, 0xD66, 0xDE6, 0xE50,
    0xED0, 0xF20, 0x1040, 0x1090, 0x17E0, 0x1810, 0x1946, 0x19D0, 0x1A80, 0x1A90, 0x1B50, 0x1BB0,
    0x1C40, 0x1C50, 0xA620, 0xA8D0, 0xA900, 0xA9D0, 0xA9F0, 0xAA50, 0xABF0, 0xFF10, 0x104A0, 0x10D30,
    0x11066, 0x110F0, 0x11136, 0x111D0, 0x112F0, 0x11450, 0x114D0, 0x11650, 0x116C0, 0x11730,
    0x118E0, 0x11950, 0x11C50, 0x11D50, 0x11DA0, 0x16A60, 0x16B50, 0x1D7CE, 0x1D7D8, 0x1D7E2,
    0x1D7EC, 0x1D7F6, 0x1E140, 0x1E2F0, 0x1E950, 0x1FBF0]

/-- What the conversions make of a character first: whitespace and digits become those of ASCII, and
what is neither stands in no number. -/
def toAscii (c : Char) : Char :=
  if c.toNat < 127 then c
  else if Text.isSpace c then ' '
  else match decimalZeros.find? fun first => first ≤ c.toNat ∧ c.toNat < first + 10 with
    | some first => Char.ofNat (48 + (c.toNat - first))
    | none => '?'

/-- The ASCII whitespace around a number. -/
def isBlank (c : Char) : Bool := c = ' ' || (9 ≤ c.toNat && c.toNat ≤ 13)

/-- Text without the whitespace around it. -/
def strip (cs : List Char) : List Char :=
  ((cs.dropWhile isBlank).reverse.dropWhile isBlank).reverse

/-- Drop the underscores of a number; each must stand between two digits. -/
def dropUnderscores : List Char → Option (List Char)
  | a :: '_' :: b :: cs =>
      if a.isDigit && b.isDigit then (dropUnderscores (b :: cs)).map (a :: ·) else none
  | '_' :: _ => none
  | c :: cs => (dropUnderscores cs).map (c :: ·)
  | [] => some []

/-- Split off a sign; `true` is negative. -/
def takeSign : List Char → Bool × List Char
  | '-' :: cs => (true, cs)
  | '+' :: cs => (false, cs)
  | cs => (false, cs)

/-- The number a string of digits denotes. -/
def natOfDigits (ds : List Char) : ℕ := ds.foldl (fun n c => 10 * n + (c.toNat - 48)) 0

/-- Digits with an optional fraction and an optional exponent. -/
def parseDecimal (cs : List Char) : Option ℚ :=
  let whole := cs.takeWhile Char.isDigit
  let rest := cs.dropWhile Char.isDigit
  let (fraction, rest) := match rest with
    | '.' :: r => (r.takeWhile Char.isDigit, r.dropWhile Char.isDigit)
    | r => ([], r)
  if whole = [] ∧ fraction = [] then none
  else
    let mantissa : ℚ := (natOfDigits (whole ++ fraction) : ℚ) / 10 ^ fraction.length
    match rest with
    | [] => some mantissa
    | e :: r =>
        let (negative, ds) := takeSign r
        if (e = 'e' ∨ e = 'E') ∧ ds ≠ [] ∧ ds.all Char.isDigit then
          if negative then some (mantissa / 10 ^ natOfDigits ds)
          else some (mantissa * 10 ^ natOfDigits ds)
        else none

/-- `float(text)`. -/
def float (text : String) : Except PyError PyFloat :=
  match dropUnderscores (strip (text.toList.map toAscii)) with
  | none => .error .valueError
  | some cs =>
      let (negative, body) := takeSign cs
      let lower := body.map Char.toLower
      if lower = "nan".toList then .ok .nan
      else if lower = "inf".toList ∨ lower = "infinity".toList then
        .ok (if negative then .negInf else .posInf)
      else match parseDecimal body with
        | some q => .ok (.fin (if negative then -q else q))
        | none => .error .valueError

/-- `float` raises nothing but `ValueError`. -/
lemma eq_valueError_of_float {text : String} {e : PyError} (h : float text = .error e) :
    e = .valueError := by
  rw [float] at h
  split at h
  · cases h
    rfl
  · simp only at h
    split_ifs at h
    -- what is left is a decimal with either sign
    all_goals
      split at h
      · cases h
      · cases h
        rfl

/-- `sys.int_info.default_max_str_digits` -/
def maxStrDigits : ℕ := 4300

/-- `int(text)`. -/
def int (text : String) : Except PyError ℤ :=
  match dropUnderscores (strip (text.toList.map toAscii)) with
  | none => .error .valueError
  | some cs =>
      let (negative, ds) := takeSign cs
      if ds ≠ [] ∧ ds.all Char.isDigit ∧ ds.length ≤ maxStrDigits then
        .ok (if negative then -(natOfDigits ds : ℤ) else natOfDigits ds)
      else .error .valueError

example : float " -1_0.50e1 " = .ok (.fin (-105)) := by decide +kernel

example : int "\u0661\u0662" = .ok 12 := by decide +kernel

/-- The text denotes a number. -/
def Numeric (text : String) : Prop := ∃ q, float text = .ok (.fin q)

/-- The number a text denotes; `0` where it denotes none. -/
def value (text : String) : ℚ :=
  match float text with
  | .ok (.fin q) => q
  | _ => 0

lemma Numeric.float_eq {text : String} (h : Numeric text) : float text = .ok (.fin (value text)) := by
  obtain ⟨q, hq⟩ := h
  simp [value, hq]

instance (text : String) : Decidable (Numeric text) :=
  match h : float text with
  | .ok (.fin q) => isTrue ⟨q, h⟩
  | .ok .posInf => isFalse fun ⟨_, hq⟩ => by rw [h] at hq; cases hq
  | .ok .negInf => isFalse fun ⟨_, hq⟩ => by rw [h] at hq; cases hq
  | .ok .nan => isFalse fun ⟨_, hq⟩ => by rw [h] at hq; cases hq
  | .error _ => isFalse fun ⟨_, hq⟩ => by rw [h] at hq; cases hq

/-! ## `max` and `min` with a key -/

/-- The loop of `max` and `min`: a later element takes over when its key `replaces` the best so
far. -/
def pickBy {α : Type*} (replaces : PyFloat → PyFloat → Bool) (key : α → PyFloat) :
    List α → Option α
  | [] => none
  | x :: xs => some (xs.foldl (fun best y => if replaces (key best) (key y) then y else best) x)

/-- `max(xs, key=key)`. -/
def maxBy {α : Type*} (key : α → PyFloat) : List α → Option α := pickBy (fun a b => a.lt b) key

/-- `min(xs, key=key)`. -/
def minBy {α : Type*} (key : α → PyFloat) : List α → Option α := pickBy (fun a b => b.lt a) key

section Picking

variable {α β : Type*} (replaces : PyFloat → PyFloat → Bool)

lemma pickBy_eq_none_iff {replaces : PyFloat → PyFloat → Bool} {key : α → PyFloat} {xs : List α} :
    pickBy replaces key xs = none ↔ xs = [] := by
  cases xs <;> simp [pickBy]

/-- The choice commutes with a renaming of the elements that keeps their keys. -/
lemma pickBy_map (g : α → β) (key : β → PyFloat) (xs : List α) :
    pickBy replaces key (xs.map g) = (pickBy replaces (fun x => key (g x)) xs).map g := by
  have hfold : ∀ (xs : List α) (x : α),
      (xs.map g).foldl (fun best y => if replaces (key best) (key y) then y else best) (g x)
        = g (xs.foldl
            (fun best y => if replaces (key (g best)) (key (g y)) then y else best) x) := by
    intro xs
    induction xs with
    | nil => intro x; rfl
    | cons y ys ih =>
        intro x
        simp only [List.map_cons, List.foldl_cons, ← apply_ite g, ih]
  cases xs with
  | nil => rfl
  | cons x xs => simp only [List.map_cons, pickBy, hfold, Option.map_some]

end Picking

section Extrema

variable {α : Type*} (f : α → ℚ)

lemma foldl_max_spec (xs : List α) (x : α) :
    let m := xs.foldl (fun best y => if (PyFloat.fin (f best)).lt (.fin (f y)) then y else best) x
    m ∈ x :: xs ∧ ∀ y ∈ x :: xs, f y ≤ f m := by
  induction xs generalizing x with
  | nil => simp
  | cons z xs ih =>
      simp only [List.foldl_cons, PyFloat.lt_fin, decide_eq_true_eq] at ih ⊢
      rcases ih (if f x < f z then z else x) with ⟨hmem, hle⟩
      refine ⟨?_, fun y hy => ?_⟩
      · rcases List.mem_cons.mp hmem with h | h
        · rw [h]; split_ifs <;> simp
        · exact List.mem_cons_of_mem _ (List.mem_cons_of_mem _ h)
      · have hhead := hle _ List.mem_cons_self
        rcases List.mem_cons.mp hy with rfl | hy
        · refine le_trans ?_ hhead
          split_ifs with hlt
          · exact le_of_lt hlt
          · exact le_refl _
        · rcases List.mem_cons.mp hy with rfl | hy
          · refine le_trans ?_ hhead
            split_ifs with hlt
            · exact le_refl _
            · exact not_lt.mp hlt
          · exact hle y (List.mem_cons_of_mem _ hy)

/-- With numbers for keys, `max` finds an element with the greatest key. -/
theorem maxBy_spec {xs : List α} {m : α} (h : maxBy (fun x => .fin (f x)) xs = some m) :
    m ∈ xs ∧ ∀ y ∈ xs, f y ≤ f m := by
  cases xs with
  | nil => simp [maxBy, pickBy] at h
  | cons x xs =>
      cases Option.some.inj h
      exact foldl_max_spec f xs x

lemma minBy_eq_maxBy_neg (xs : List α) :
    minBy (fun x => .fin (f x)) xs = maxBy (fun x => .fin (-f x)) xs := by
  cases xs with
  | nil => rfl
  | cons x xs => simp [minBy, maxBy, pickBy]

/-- With numbers for keys, `min` finds an element with the least key. -/
theorem minBy_spec {xs : List α} {m : α} (h : minBy (fun x => .fin (f x)) xs = some m) :
    m ∈ xs ∧ ∀ y ∈ xs, f m ≤ f y := by
  rw [minBy_eq_maxBy_neg] at h
  rcases maxBy_spec (fun x => -f x) h with ⟨hmem, hle⟩
  refine ⟨hmem, fun y hy => ?_⟩
  have := hle y hy
  linarith

end Extrema

end Ticksense
