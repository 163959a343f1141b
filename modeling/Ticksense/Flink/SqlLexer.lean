import Ticksense.Lib.Marking
import Ticksense.Python.Text

/-!
# The lexer of reference

What the SQL of the jobs is made of: code, `--` comments to the end of the line, `/* */` comments
that do not nest, and literals in single quotes in which a doubled quote stands for a quote.  A
comment or a literal may be left open.

* `LexMode.read` — the lexer, one character with one character of lookahead.
* `segments` — the text, cut at the semicolons in code.
* `lex_segment` — a segment is lexed as it stands in the text.
* `HasSql` — it has more than comments and whitespace, and `hasSql_strip`: stripping does not matter.
-/

namespace Ticksense

/-- What a character belongs to. -/
inductive CharKind
  | code
  | line
  | block
  | literal
deriving DecidableEq, Repr

/-- Where the lexer is.  In `opening`, `closing` and `escape` it has seen the first of two
characters. -/
inductive LexMode
  | code
  | line
  | opening
  | block
  | closing
  | literal
  | escape
deriving DecidableEq, Repr

/-- The kind of the character, and the mode behind it. -/
def LexMode.read (mode : LexMode) (c : Char) (look : Option Char) : CharKind × LexMode :=
  match mode with
  | .code =>
      if c = '-' ∧ look = some '-' then (.line, .line)
      else if c = '/' ∧ look = some '*' then (.block, .opening)
      else if c = '\'' then (.literal, .literal)
      else (.code, .code)
  | .line => (.line, if c = '\n' then .code else .line)
  | .opening => (.block, .block)
  | .block => (.block, if c = '*' ∧ look = some '/' then .closing else .block)
  | .closing => (.block, .code)
  | .literal =>
      (.literal, if c = '\'' then if look = some '\'' then .escape else .code else .literal)
  | .escape => (.literal, .literal)

def sqlLexer : Marker LexMode Char CharKind := ⟨LexMode.read⟩

/-- The characters of a text with their kinds. -/
def lex (sql : Text) : List (Char × CharKind) := sqlLexer.mark .code sql none

/-- The characters without their kinds. -/
def textOf (marks : List (Char × CharKind)) : Text := marks.map Prod.fst

/-- A semicolon that ends a statement. -/
def isDelimiter (mark : Char × CharKind) : Bool := mark = (';', .code)

/-- The text between the delimiters. -/
def segments (sql : Text) : List (List (Char × CharKind)) := (lex sql).splitOnP isDelimiter

/-- There is something outside the comments. -/
def HasSql (marks : List (Char × CharKind)) : Prop :=
  ∃ mark ∈ marks, (mark.2 = .code ∨ mark.2 = .literal) ∧ Text.isSpace mark.1 = false

instance (marks : List (Char × CharKind)) : Decidable (HasSql marks) :=
  inferInstanceAs (Decidable (∃ mark ∈ marks, _))

example : segments "a';'--;".toList = [lex "a';'--;".toList] := by decide

/-! ## Reading -/

section Reading

variable {mode : LexMode} {c : Char} {look : Option Char} {cs : Text}

@[simp] lemma sqlLexer_read : sqlLexer.read = LexMode.read := rfl

lemma read_code : LexMode.code.read c look =
    if c = '-' ∧ look = some '-' then (.line, .line)
    else if c = '/' ∧ look = some '*' then (.block, .opening)
    else if c = '\'' then (.literal, .literal)
    else (.code, .code) := rfl

/-- A lookahead that is no second character of two. -/
def Plain (look : Option Char) : Prop := ∀ d ∈ look, d ∉ ['-', '*', '/', '\'']

lemma plain_none : Plain none := by
  intro d hd
  cases hd

lemma plain_some_iff : Plain (some c) ↔ c ∉ ['-', '*', '/', '\''] := by
  simp [Plain]

lemma read_of_plain (h : Plain look) : mode.read c look = mode.read c none := by
  have hne : ∀ d ∈ ['-', '*', '/', '\''], look ≠ some d := by
    rintro d hd rfl
    exact plain_some_iff.mp h hd
  cases mode <;> simp [LexMode.read, hne]

lemma mark_of_plain (h : Plain look) (cs : Text) :
    sqlLexer.mark mode cs look = sqlLexer.mark mode cs none :=
  Marker.mark_congr_look (fun _ _ => read_of_plain h) mode cs

/-- Code is read in code only. -/
lemma eq_code_of_read (h : (mode.read c look).1 = .code) :
    mode = .code ∧ (mode.read c look).2 = .code := by
  cases mode with
  | code =>
      refine ⟨rfl, ?_⟩
      rw [read_code] at h ⊢
      split_ifs at h ⊢
      rfl
  | _ => cases h

lemma ne_of_isSpace (h : Text.isSpace c = true) : c ∉ ['-', '*', '/', '\'', ';'] := by
  intro hmem
  simp only [List.mem_cons, List.not_mem_nil, or_false] at hmem
  rcases hmem with rfl | rfl | rfl | rfl | rfl <;> cases h

lemma plain_of_isSpace (h : Text.isSpace c = true) : Plain (some c) := by
  have hne := ne_of_isSpace h
  simp only [List.mem_cons, not_or] at hne
  simp only [plain_some_iff, List.mem_cons, not_or]
  exact ⟨hne.1, hne.2.1, hne.2.2.1, hne.2.2.2.1, hne.2.2.2.2.2⟩

lemma read_code_of_isSpace (h : Text.isSpace c = true) (look : Option Char) :
    LexMode.code.read c look = (.code, .code) := by
  have hne := ne_of_isSpace h
  simp only [List.mem_cons, not_or] at hne
  simp [LexMode.read, hne]

lemma plain_head? (h : ∀ c ∈ cs, Text.isSpace c = true) : Plain cs.head? := by
  cases cs with
  | nil => exact plain_none
  | cons c cs => exact plain_of_isSpace (h c List.mem_cons_self)

lemma mark_code_of_isSpace (h : ∀ c ∈ cs, Text.isSpace c = true) (look : Option Char) :
    sqlLexer.mark .code cs look = cs.map (·, .code) ∧ sqlLexer.after .code cs look = .code :=
  Marker.mark_of_stays (fun c hc => read_code_of_isSpace (h c hc)) look

end Reading

/-! ## Segments -/

section Segments

variable {sql text : Text} {seg : List (Char × CharKind)}

@[simp] lemma textOf_lex (sql : Text) : textOf (lex sql) = sql := Marker.map_fst_mark _ _ _

lemma textOf_append (marks marks' : List (Char × CharKind)) :
    textOf (marks ++ marks') = textOf marks ++ textOf marks' := List.map_append

lemma isDelimiter_iff {mark : Char × CharKind} : isDelimiter mark = true ↔ mark = (';', .code) :=
  decide_eq_true_iff

/-- **A segment is lexed as it stands in the text.** -/
theorem lex_segment (h : seg ∈ segments sql) : lex (textOf seg) = seg := by
  obtain ⟨before, behind, hlex, -, hbefore, hbehind⟩ := mem_splitOnP h
  rw [List.append_assoc] at hlex
  obtain ⟨left, rest, -, hleft, hrest⟩ := Marker.mark_eq_append hlex
  -- the lexer is in code where the segment begins
  have hcode : sqlLexer.after .code left (rest.head?.or none) = .code := by
    rcases hbefore with rfl | ⟨marks, cut, rfl, hcut⟩
    · obtain rfl : left = [] := by
        rw [← Marker.map_fst_mark (M := sqlLexer) .code left, ← hleft, List.map_nil]
      rfl
    · obtain rfl := isDelimiter_iff.mp hcut
      exact Marker.after_of_last hleft.symm fun _ _ hread => (eq_code_of_read hread).2
  rw [hcode] at hrest
  obtain ⟨middle, right, -, hseg, hright⟩ := Marker.mark_eq_append hrest.symm
  -- and what follows it does not count
  have hplain : Plain (right.head?.or none) := by
    rcases hbehind with rfl | ⟨cut, marks, rfl, hcut⟩
    · obtain rfl : right = [] := by
        rw [← Marker.map_fst_mark (M := sqlLexer) _ right none, ← hright, List.map_nil]
      exact plain_none
    · obtain rfl := isDelimiter_iff.mp hcut
      have htext := congrArg textOf hright
      rw [textOf, textOf, Marker.map_fst_mark] at htext
      rw [← htext]
      exact plain_some_iff.mpr (by decide)
  rw [mark_of_plain hplain] at hseg
  have htext : textOf seg = middle := by rw [hseg, textOf, Marker.map_fst_mark]
  rw [htext, hseg]
  rfl

/-- Stripping removes neither SQL nor the comments around it. -/
theorem hasSql_strip : HasSql (lex (Text.strip text)) ↔ HasSql (lex text) := by
  obtain ⟨before, behind, htext, hbefore, hbehind⟩ := Text.exists_strip text
  have hspace : ∀ mode look, ¬ HasSql (sqlLexer.mark mode behind look) := by
    rintro mode look ⟨mark, hmem, -, hmark⟩
    rw [hbehind mark.1 (by
      rw [← Marker.map_fst_mark (M := sqlLexer) mode behind look]
      exact List.mem_map_of_mem hmem)] at hmark
    cases hmark
  have hmarks : lex text = before.map (·, .code) ++ lex (Text.strip text) ++
      sqlLexer.mark (sqlLexer.after .code (Text.strip text) (behind.head?.or none)) behind none := by
    conv_lhs => rw [htext]
    rw [lex, List.append_assoc, Marker.mark_append, (mark_code_of_isSpace hbefore _).1,
      (mark_code_of_isSpace hbefore _).2, Marker.mark_append, lex, List.append_assoc,
      mark_of_plain (by rw [Option.or_none]; exact plain_head? hbehind) (Text.strip text)]
  rw [hmarks]
  constructor
  · rintro ⟨mark, hmem, hmark⟩
    exact ⟨mark, by simp [hmem], hmark⟩
  · rintro ⟨mark, hmem, hmark⟩
    rw [List.mem_append, List.mem_append] at hmem
    rcases hmem with (hmem | hmem) | hmem
    · obtain ⟨c, hc, rfl⟩ := List.mem_map.mp hmem
      rw [hbefore c hc] at hmark
      cases hmark.2
    · exact ⟨mark, hmem, hmark⟩
    · exact absurd ⟨mark, hmem, hmark⟩ (hspace _ _)

end Segments

end Ticksense
