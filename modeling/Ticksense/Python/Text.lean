import Mathlib.Data.List.DropRight
import Ticksense.Lib.Dict
import Ticksense.Python.Float

/-!
# Texts as sequences of characters

The methods of `str` that the jobs call on SQL texts, on the characters of the text.

* `Text.strip` — `str.strip`.
* `Text.isLineBreak`, `Text.splitlines` — `str.splitlines`, which knows more line ends than `\n`.
* `Text.find`, `Text.startswith` — `str.find` and `str.startswith`.
* `Text.format` — `str.format` with keyword arguments.
-/

namespace Ticksense

/-- The characters of a `str`. -/
abbrev Text := List Char

namespace Text

/-- A character that ends a line for `splitlines`. -/
def isLineBreak (c : Char) : Bool :=
  (10 ≤ c.toNat && c.toNat ≤ 13) || (28 ≤ c.toNat && c.toNat ≤ 30) || c.toNat = 0x85 ||
    c.toNat = 0x2028 || c.toNat = 0x2029

/-- `text.strip()` -/
def strip (text : Text) : Text := (text.dropWhile isSpace).rdropWhile isSpace

/-- `text.splitlines()`, with the beginning of the current line. -/
def splitlinesFrom (line : Text) : Text → List Text
  | [] => if line = [] then [] else [line]
  | '\r' :: '\n' :: cs => line :: splitlinesFrom [] cs
  | c :: cs => if isLineBreak c then line :: splitlinesFrom [] cs else splitlinesFrom (line ++ [c]) cs

/-- `text.splitlines()` -/
def splitlines (text : Text) : List Text := splitlinesFrom [] text

/-- `text.startswith(start)` -/
def startswith (text start : Text) : Bool := start.isPrefixOf text

/-- `text.find(sub)`; none stands for -1. -/
def find (sub : Text) : Text → Option ℕ
  | [] => if sub = [] then some 0 else none
  | c :: cs => if startswith (c :: cs) sub then some 0 else (find sub cs).map (· + 1)

/-- The value of a replacement field.  Fields with an attribute, an index, a conversion or a format
are refused here. -/
def fieldValue (params : Dict Text Text) (field : Text) : Except PyError Text :=
  if field.any (· ∈ ['.', '[', '!', ':']) then .error .valueError
  -- no positional arguments are given
  else if field.all Char.isDigit then .error .indexError
  else
    match params.get? field with
    | some value => .ok value
    | none => .error .keyError

/-- `text.format(**params)`, from inside a replacement field or from outside. -/
def formatFrom (params : Dict Text Text) : Option Text → Text → Except PyError Text
  | none, [] => .ok []
  | some _, [] => .error .valueError
  | none, '\x7b' :: '\x7b' :: cs => do return '\x7b' :: (← formatFrom params none cs)
  | none, '\x7d' :: '\x7d' :: cs => do return '\x7d' :: (← formatFrom params none cs)
  | none, '\x7b' :: cs => formatFrom params (some []) cs
  | none, '\x7d' :: _ => .error .valueError
  | none, c :: cs => do return c :: (← formatFrom params none cs)
  | some _, '\x7b' :: _ => .error .valueError
  | some field, '\x7d' :: cs => do
      return (← fieldValue params field) ++ (← formatFrom params none cs)
  | some field, c :: cs => formatFrom params (some (field ++ [c])) cs

/-- `text.format(**params)` -/
def format (params : Dict Text Text) (text : Text) : Except PyError Text :=
  formatFrom params none text

example : splitlines "a\r\nb\x0cc\n".toList = ["a".toList, "b".toList, "c".toList] := by decide

/-! ## Whitespace -/

lemma isSpace_of_isLineBreak {c : Char} (h : isLineBreak c = true) : isSpace c = true := by
  simp only [isLineBreak, isSpace, Bool.or_eq_true, Bool.and_eq_true, decide_eq_true_eq] at h ⊢
  omega

/-- A text is the space before it, what is left of it, and the space behind it. -/
lemma exists_strip (text : Text) :
    ∃ before behind, text = before ++ strip text ++ behind ∧ (∀ c ∈ before, isSpace c = true) ∧
      ∀ c ∈ behind, isSpace c = true := by
  refine ⟨text.takeWhile isSpace, (text.dropWhile isSpace).rtakeWhile isSpace, ?_, ?_, ?_⟩
  · rw [strip, List.append_assoc, List.rdropWhile_append_rtakeWhile,
      List.takeWhile_append_dropWhile]
  · intro c hc
    exact List.mem_takeWhile_imp hc
  · intro c hc
    exact List.mem_rtakeWhile_imp hc

/-- What ends without space at the front is not touched at the back. -/
lemma rdropWhile_append_of_not {p : Char → Bool} {x : Char} (hx : p x = false) (xs ys : Text) :
    (xs ++ x :: ys).rdropWhile p = xs ++ x :: ys.rdropWhile p := by
  induction ys using List.reverseRecOn with
  | nil =>
      rw [List.rdropWhile_concat_neg p xs x (by simp [hx]), List.rdropWhile_nil]
  | append_singleton ys y ih =>
      have hcons : xs ++ x :: (ys ++ [y]) = (xs ++ x :: ys) ++ [y] := by simp
      rw [hcons, List.rdropWhile_concat, List.rdropWhile_concat, ih]
      split_ifs
      · rfl
      · exact hcons.symm

/-- What a text without space in front begins with, it still begins with when stripped. -/
lemma strip_cons {c : Char} (hc : isSpace c = false) (cs : Text) :
    strip (c :: cs) = c :: cs.rdropWhile isSpace := by
  rw [strip, List.dropWhile_cons_of_neg (by simp [hc])]
  exact rdropWhile_append_of_not hc [] cs

lemma strip_cons_of_isSpace {c : Char} (hc : isSpace c = true) (cs : Text) :
    strip (c :: cs) = strip cs := by
  rw [strip, List.dropWhile_cons_of_pos hc, strip]

end Text

end Ticksense
