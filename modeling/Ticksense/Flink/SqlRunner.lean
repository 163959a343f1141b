import Ticksense.Flink.SqlLexer

/-!
# Splitting SQL files

The runner cuts a file into statements with a scanner of its own, and leaves out blocks of which no
line is more than space or a `--` comment.

* `splitStatements` — the scanner; it works on what is left of the text.
* `splitLoop_eq` — it cuts where the lexer of reference sees a semicolon in code.
* `nonComment_iff` — what the filter keeps: SQL, but also block comments, and line comments with
  another line separator in them.
* `split_statements_complete` — no SQL is lost; `comment_only_filtered_iff` — when only SQL is left.
-/

namespace Ticksense

/-! ## The code -/

/-- `ln.strip() and not ln.strip().startswith("--")` -/
def isUncommented (ln : Text) : Bool :=
  Text.strip ln ≠ [] && !Text.startswith (Text.strip ln) ['-', '-']

/-- The lines of a block that are no comment. -/
def nonComment (stmt : Text) : List Text := (Text.splitlines stmt).filter isUncommented

/-- The buffer becomes a statement unless it has only comments. -/
def flush (stmts : List Text) (buf : Text) : List Text :=
  if nonComment (Text.strip buf) ≠ [] then stmts ++ [Text.strip buf] else stmts

/-- How far the closing quote is; the inner loop over a literal. -/
def quoteEnd : Text → ℕ
  | [] => 0
  | '\'' :: '\'' :: cs => quoteEnd cs + 2
  | '\'' :: _ => 0
  | _ :: cs => quoteEnd cs + 1

/-- The loop, at a place in the text. -/
def splitLoop (stmts : List Text) (buf : Text) : Text → List Text
  | [] => flush stmts buf
  | c :: cs =>
      if c = '-' ∧ cs.head? = some '-' then
        match Text.find ['\n'] (c :: cs) with
        | none => flush stmts (buf ++ c :: cs)
        | some e => splitLoop stmts (buf ++ (c :: cs).take (e + 1)) ((c :: cs).drop (e + 1))
      else if c = '/' ∧ cs.head? = some '*' then
        match Text.find ['*', '/'] ((c :: cs).drop 2) with
        | none => flush stmts (buf ++ c :: cs)
        | some e => splitLoop stmts (buf ++ (c :: cs).take (e + 4)) ((c :: cs).drop (e + 4))
      else if c = '\'' then
        splitLoop stmts (buf ++ (c :: cs).take (quoteEnd cs + 2)) ((c :: cs).drop (quoteEnd cs + 2))
      else if c = ';' then splitLoop (flush stmts buf) [] cs
      else splitLoop stmts (buf ++ [c]) cs
termination_by text => text.length
decreasing_by all_goals grind

def splitStatements (sql : Text) : List Text := splitLoop [] [] sql

/-- The text of the file, with the parameters in it if there are any. -/
def loadSql (text : Text) (params : Dict Text Text) : Except PyError Text :=
  if params.items ≠ [] then Text.format params text else .ok text

/-! ## The scanner -/

section Scanner

variable {c : Char} {cs : Text}

/-- The rest of a line comment. -/
def lineEnd (cs : Text) : ℕ :=
  match Text.find ['\n'] cs with
  | none => cs.length
  | some e => e + 1

/-- The rest of a block comment. -/
def blockEnd (cs : Text) : ℕ :=
  match Text.find ['*', '/'] cs with
  | none => cs.length
  | some e => e + 2

lemma lineEnd_cons (c : Char) (cs : Text) :
    lineEnd (c :: cs) = if c = '\n' then 1 else lineEnd cs + 1 := by
  by_cases hc : c = '\n'
  · simp [lineEnd, Text.find, Text.startswith, hc]
  · have hfind : Text.find ['\n'] (c :: cs) = (Text.find ['\n'] cs).map (· + 1) := by
      simp [Text.find, Text.startswith, Ne.symm hc]
    rw [lineEnd, hfind, if_neg hc, lineEnd]
    cases Text.find ['\n'] cs <;> rfl

lemma blockEnd_cons (c : Char) (cs : Text) :
    blockEnd (c :: cs) = if c = '*' ∧ cs.head? = some '/' then 2 else blockEnd cs + 1 := by
  by_cases hc : c = '*' ∧ cs.head? = some '/'
  · obtain ⟨rfl, hlook⟩ := hc
    obtain ⟨cs, rfl⟩ : ∃ rest, cs = '/' :: rest := by
      cases cs with
      | nil => cases hlook
      | cons d cs => exact ⟨cs, by simpa using hlook⟩
    simp [blockEnd, Text.find, Text.startswith]
  · have hfind : Text.find ['*', '/'] (c :: cs) = (Text.find ['*', '/'] cs).map (· + 1) := by
      have hstart : Text.startswith (c :: cs) ['*', '/'] = false := by
        cases cs with
        | nil => simp [Text.startswith, List.isPrefixOf]
        | cons d cs =>
            simp only [Text.startswith, List.isPrefixOf, Bool.and_true, Bool.and_eq_false_iff,
              beq_eq_false_iff_ne]
            by_contra hboth
            rw [not_or, not_not, not_not] at hboth
            exact hc ⟨hboth.1.symm, congrArg some hboth.2.symm⟩
      simp [Text.find, hstart]
    rw [blockEnd, hfind, if_neg hc, blockEnd]
    cases Text.find ['*', '/'] cs <;> rfl

lemma mark_line (cs : Text) : sqlLexer.mark .line cs none =
    (cs.take (lineEnd cs)).map (·, .line) ++ sqlLexer.mark .code (cs.drop (lineEnd cs)) none := by
  induction cs with
  | nil => rfl
  | cons c cs ih =>
      rw [lineEnd_cons, Marker.mark]
      by_cases hc : c = '\n'
      · simp [LexMode.read, hc]
      · simp [LexMode.read, hc, ih]

lemma mark_block (cs : Text) : sqlLexer.mark .block cs none =
    (cs.take (blockEnd cs)).map (·, .block) ++ sqlLexer.mark .code (cs.drop (blockEnd cs)) none := by
  induction cs with
  | nil => rfl
  | cons c cs ih =>
      rw [blockEnd_cons, Marker.mark, Option.or_none]
      by_cases hc : c = '*' ∧ cs.head? = some '/'
      · cases cs with
        | nil => cases hc.2
        | cons d cs => simp [LexMode.read, hc, Marker.mark]
      · simp [LexMode.read, hc, ih]

lemma mark_literal (cs : Text) : sqlLexer.mark .literal cs none =
    (cs.take (quoteEnd cs + 1)).map (·, .literal) ++
      sqlLexer.mark .code (cs.drop (quoteEnd cs + 1)) none := by
  fun_induction quoteEnd cs with
  | case1 => rfl
  | case2 cs ih => simp [Marker.mark, LexMode.read, ih]
  | case3 cs hne =>
      have hlook : cs.head? ≠ some '\'' := by
        cases cs with
        | nil => simp
        | cons d cs => simpa using fun h : d = '\'' => hne cs (h ▸ rfl)
      simp [Marker.mark, LexMode.read, hlook]
  | case4 c cs hne hne' ih =>
      have hc : c ≠ '\'' := by
        rintro rfl
        exact hne' rfl
      simp [Marker.mark, LexMode.read, hc, ih]

/-- Where the scanner meets a comment or a literal, it takes it as a whole. -/
lemma mark_chunk_line (h : c = '-' ∧ cs.head? = some '-') : sqlLexer.mark .code (c :: cs) none =
    ((c :: cs).take (lineEnd (c :: cs))).map (·, .line) ++
      sqlLexer.mark .code ((c :: cs).drop (lineEnd (c :: cs))) none := by
  obtain ⟨rfl, hlook⟩ := h
  have hend : lineEnd ('-' :: cs) = lineEnd cs + 1 := lineEnd_cons _ _
  have hread : LexMode.code.read '-' cs.head? = (.line, .line) := by simp [read_code, hlook]
  rw [hend, Marker.mark, Option.or_none, sqlLexer_read, hread, mark_line]
  rfl

lemma mark_chunk_block (h : c = '/' ∧ cs.head? = some '*') : sqlLexer.mark .code (c :: cs) none =
    ((c :: cs).take (blockEnd (cs.drop 1) + 2)).map (·, .block) ++
      sqlLexer.mark .code ((c :: cs).drop (blockEnd (cs.drop 1) + 2)) none := by
  obtain ⟨rfl, hlook⟩ := h
  obtain ⟨cs, rfl⟩ : ∃ rest, cs = '*' :: rest := by
    cases cs with
    | nil => cases hlook
    | cons d cs => exact ⟨cs, by simpa using hlook⟩
  have hread : LexMode.code.read '/' (some '*') = (.block, .opening) := by decide
  have hopen : ∀ look, LexMode.opening.read '*' look = (.block, .block) := fun _ => rfl
  rw [Marker.mark, Marker.mark, List.head?_cons, Option.some_or, sqlLexer_read, hread, hopen,
    mark_block]
  rfl

lemma mark_chunk_literal (cs : Text) : sqlLexer.mark .code ('\'' :: cs) none =
    (('\'' :: cs).take (quoteEnd cs + 2)).map (·, .literal) ++
      sqlLexer.mark .code (('\'' :: cs).drop (quoteEnd cs + 2)) none := by
  have hread : ∀ look, LexMode.code.read '\'' look = (.literal, .literal) := by
    intro look
    simp [read_code]
  rw [Marker.mark, sqlLexer_read, hread, mark_literal]
  rfl

lemma textOf_map (k : CharKind) (cs : Text) : textOf (cs.map (·, k)) = cs := by
  rw [textOf, List.map_map]
  exact List.map_id' cs

/-- The texts between the delimiters of what is left. -/
def pieces (cs : Text) : List Text :=
  ((sqlLexer.mark .code cs none).splitOnP isDelimiter).map textOf

lemma pieces_of_chunk {k : CharKind} {n : ℕ} (hk : k ≠ .code)
    (h : sqlLexer.mark .code cs none =
      (cs.take n).map (·, k) ++ sqlLexer.mark .code (cs.drop n) none) :
    pieces cs = (pieces (cs.drop n)).modifyHead (cs.take n ++ ·) := by
  have hcut : ∀ mark ∈ (cs.take n).map (·, k), isDelimiter mark = false := by
    intro mark hmem
    obtain ⟨c, -, rfl⟩ := List.mem_map.mp hmem
    simp [isDelimiter, hk]
  rw [pieces, h, splitOnP_append_of_forall hcut, pieces]
  cases (sqlLexer.mark .code (cs.drop n) none).splitOnP isDelimiter with
  | nil => rfl
  | cons piece rest =>
      simp only [List.map_cons, List.modifyHead_cons, textOf_append, textOf_map]

lemma pieces_cons (h : LexMode.code.read c cs.head? = (.code, .code)) :
    pieces (c :: cs) = if c = ';' then [] :: pieces cs else (pieces cs).modifyHead (c :: ·) := by
  rw [pieces, Marker.mark, Option.or_none, sqlLexer_read, h, List.splitOnP_cons_eq_if_modifyHead]
  by_cases hc : c = ';'
  · rw [if_pos hc, if_pos (by rw [hc]; rfl)]
    rfl
  · rw [if_neg hc, if_neg (by simp [isDelimiter, hc]), pieces]
    cases (sqlLexer.mark .code cs none).splitOnP isDelimiter <;> rfl

/-- What becomes of the texts between the delimiters. -/
def kept (texts : List Text) : List Text := (texts.map Text.strip).filter (nonComment · ≠ [])

lemma flush_eq (stmts : List Text) (buf : Text) : flush stmts buf = stmts ++ kept [buf] := by
  rw [flush, kept, List.map_singleton]
  split_ifs with h <;> simp [h]

lemma kept_cons (buf : Text) (texts : List Text) : kept (buf :: texts) = kept [buf] ++ kept texts := by
  rw [kept, kept, kept, ← List.filter_append, ← List.map_append, List.singleton_append]

/-- A chunk goes to the buffer. -/
lemma modifyHead_append (buf chunk : Text) (texts : List Text) :
    (texts.modifyHead (chunk ++ ·)).modifyHead (buf ++ ·) =
      texts.modifyHead (buf ++ chunk ++ ·) := by
  cases texts <;> simp

lemma modifyHead_nil_append (texts : List Text) : texts.modifyHead ([] ++ ·) = texts := by
  cases texts <;> rfl

/-- **The scanner cuts where the lexer does.** -/
theorem splitLoop_eq (stmts : List Text) (buf cs : Text) :
    splitLoop stmts buf cs = stmts ++ kept ((pieces cs).modifyHead (buf ++ ·)) := by
  fun_induction splitLoop stmts buf cs with
  | case1 stmts buf =>
      rw [flush_eq]
      simp [pieces, textOf]
  | case2 stmts buf c cs h hfind =>
      have hend : lineEnd (c :: cs) = (c :: cs).length := by rw [lineEnd, hfind]
      have hchunk := mark_chunk_line h
      rw [hend] at hchunk
      rw [flush_eq, pieces_of_chunk (by decide) hchunk, List.drop_length, List.take_length]
      simp [pieces, textOf]
  | case3 stmts buf c cs h e hfind ih =>
      have hend : lineEnd (c :: cs) = e + 1 := by rw [lineEnd, hfind]
      have hchunk := mark_chunk_line h
      rw [hend] at hchunk
      rw [ih, pieces_of_chunk (by decide) hchunk, modifyHead_append]
  | case4 stmts buf c cs h h' hfind =>
      have hfind' : Text.find ['*', '/'] (cs.drop 1) = none := hfind
      have hend : blockEnd (cs.drop 1) + 2 = (c :: cs).length := by
        obtain ⟨-, hlook⟩ := h'
        rw [blockEnd, hfind']
        cases cs with
        | nil => cases hlook
        | cons d cs => rfl
      have hchunk := mark_chunk_block h'
      rw [hend] at hchunk
      rw [flush_eq, pieces_of_chunk (by decide) hchunk, List.drop_length, List.take_length]
      simp [pieces, textOf]
  | case5 stmts buf c cs h h' e hfind ih =>
      have hfind' : Text.find ['*', '/'] (cs.drop 1) = some e := hfind
      have hend : blockEnd (cs.drop 1) + 2 = e + 4 := by rw [blockEnd, hfind']
      have hchunk := mark_chunk_block h'
      rw [hend] at hchunk
      rw [ih, pieces_of_chunk (by decide) hchunk, modifyHead_append]
  | case6 stmts buf cs h h' ih =>
      rw [ih, pieces_of_chunk (by decide) (mark_chunk_literal cs), modifyHead_append]
  | case7 stmts buf cs h h' h'' ih =>
      have hread : LexMode.code.read ';' cs.head? = (.code, .code) := by simp [read_code]
      rw [ih, flush_eq, pieces_cons hread, if_pos rfl, List.modifyHead_cons, List.append_nil,
        kept_cons buf (pieces cs), List.append_assoc, modifyHead_nil_append]
  | case8 stmts buf c cs h h' hquote hdelim ih =>
      have hread : LexMode.code.read c cs.head? = (.code, .code) := by
        rw [read_code, if_neg h, if_neg h', if_neg hquote]
      rw [ih, pieces_cons hread, if_neg hdelim]
      exact congrArg (stmts ++ kept ·) (modifyHead_append buf [c] _).symm

end Scanner

/-- **What the runner makes of a file**: the stripped texts between the delimiters, without those
that have only comments. -/
theorem splitStatements_eq (sql : Text) :
    splitStatements sql = kept ((segments sql).map textOf) := by
  rw [splitStatements, splitLoop_eq, List.nil_append, modifyHead_nil_append]
  rfl

/-! ## The filter -/

section Filter

variable {c : Char} {cs : Text}

lemma isUncommented_nil : isUncommented [] = false := by decide

lemma isUncommented_of_isSpace (hc : Text.isSpace c = true) (cs : Text) :
    isUncommented (c :: cs) = isUncommented cs := by
  rw [isUncommented, isUncommented, Text.strip_cons_of_isSpace hc]

lemma startswith_dashes (c : Char) (cs : Text) :
    Text.startswith (c :: cs) ['-', '-'] = decide (c = '-' ∧ cs.head? = some '-') := by
  cases cs with
  | nil => simp [Text.startswith, List.isPrefixOf]
  | cons d rest => simp [Text.startswith, List.isPrefixOf, eq_comm, beq_eq_decide]

/-- Behind the space of a line its first two characters decide. -/
lemma isUncommented_of_not (hc : Text.isSpace c = false) (cs : Text) :
    isUncommented (c :: cs) = true ↔ ¬ (c = '-' ∧ cs.head? = some '-') := by
  have hhead : (cs.rdropWhile Text.isSpace).head? = some '-' ↔ cs.head? = some '-' := by
    cases cs with
    | nil => simp
    | cons d cs =>
        cases hd : Text.isSpace d with
        | false =>
            rw [← List.nil_append (d :: cs), Text.rdropWhile_append_of_not hd [] cs]
            rfl
        | true =>
            have hne : d ≠ '-' := by
              rintro rfl
              cases hd
            have hstart := List.rdropWhile_prefix Text.isSpace (l := d :: cs)
            cases hrest : (d :: cs).rdropWhile Text.isSpace with
            | nil => simp [hne]
            | cons e rest =>
                rw [hrest, List.cons_prefix_cons] at hstart
                simp [hstart.1]
  rw [isUncommented, Text.strip_cons hc, startswith_dashes, Bool.and_eq_true, Bool.not_eq_true',
    decide_eq_false_iff_not, hhead]
  simp

/-- Only the text between line breaks matters: the empty lines that `splitlines` does not have are
blank. -/
lemma exists_mem_splitlinesFrom (cur cs : Text) :
    (∃ line ∈ Text.splitlinesFrom cur cs, isUncommented line = true) ↔
      ∃ line ∈ (cs.splitOnP Text.isLineBreak).modifyHead (cur ++ ·), isUncommented line = true := by
  fun_induction Text.splitlinesFrom cur cs with
  | case1 => simp [isUncommented_nil]
  | case2 cur hcur => simp
  | case3 cur cs ih =>
      have hr : Text.isLineBreak '\r' = true := by decide
      have hn : Text.isLineBreak '\n' = true := by decide
      rw [List.splitOnP_cons_eq_if_modifyHead, if_pos hr, List.splitOnP_cons_eq_if_modifyHead,
        if_pos hn, List.exists_mem_cons_iff, ih, modifyHead_nil_append]
      simp [isUncommented_nil]
  | case4 cur c cs hne hbreak ih =>
      rw [List.splitOnP_cons_eq_if_modifyHead, if_pos hbreak, List.exists_mem_cons_iff, ih,
        modifyHead_nil_append]
      simp
  | case5 cur c cs hne hbreak ih =>
      rw [List.splitOnP_cons_eq_if_modifyHead, if_neg hbreak, ih,
        ← modifyHead_append cur [c]]
      rfl

/-- The filter as one pass over the text, at the beginning of a line or behind its dashes. -/
def uncommented : Bool → Text → Bool
  | _, [] => false
  | true, c :: cs =>
      if Text.isSpace c then uncommented true cs
      else if c = '-' ∧ cs.head? = some '-' then uncommented false cs
      else true
  | false, c :: cs => uncommented (Text.isLineBreak c) cs

lemma uncommented_of_isSpace (hc : Text.isSpace c = true) (cs : Text) :
    uncommented true (c :: cs) = uncommented true cs := if_pos hc

lemma uncommented_of_dashes (hc : c = '-' ∧ cs.head? = some '-') :
    uncommented true (c :: cs) = uncommented false cs := by
  rw [uncommented, if_neg (by rw [hc.1]; decide), if_pos hc]

lemma uncommented_of_not (hspace : Text.isSpace c = false) (hc : ¬ (c = '-' ∧ cs.head? = some '-')) :
    uncommented true (c :: cs) = true := by
  rw [uncommented, if_neg (by rw [hspace]; decide), if_neg hc]

lemma uncommented_false_cons (c : Char) (cs : Text) :
    uncommented false (c :: cs) = uncommented (Text.isLineBreak c) cs := rfl

lemma head?_of_splitOnP {line : Text} {rest : List Text}
    (h : cs.splitOnP Text.isLineBreak = line :: rest) :
    line.head? = some '-' ↔ cs.head? = some '-' := by
  cases cs with
  | nil =>
      cases h
      rfl
  | cons d cs =>
      rw [List.splitOnP_cons_eq_if_modifyHead] at h
      cases hbreak : Text.isLineBreak d with
      | true =>
          rw [hbreak, if_pos rfl] at h
          obtain rfl := (List.cons.inj h).1
          have hne : d ≠ '-' := by
            rintro rfl
            cases hbreak
          simp [hne]
      | false =>
          obtain ⟨line', rest', hlines⟩ := List.exists_cons_of_ne_nil
            (List.splitOnP_ne_nil Text.isLineBreak cs)
          rw [hbreak, if_neg Bool.false_ne_true, hlines] at h
          obtain rfl := (List.cons.inj h).1
          rfl

/-- At the beginning of a line all lines count, behind dashes the next ones. -/
lemma exists_mem_splitOnP (cs : Text) :
    ((∃ line ∈ cs.splitOnP Text.isLineBreak, isUncommented line = true) ↔
      uncommented true cs = true) ∧
    ((∃ line ∈ (cs.splitOnP Text.isLineBreak).tail, isUncommented line = true) ↔
      uncommented false cs = true) := by
  induction cs with
  | nil => simp [uncommented, isUncommented_nil]
  | cons c cs ih =>
      obtain ⟨ih, ihtail⟩ := ih
      rw [List.splitOnP_cons_eq_if_modifyHead]
      cases hbreak : Text.isLineBreak c with
      | true =>
          have hspace := Text.isSpace_of_isLineBreak hbreak
          rw [if_pos rfl, uncommented_of_isSpace hspace, uncommented_false_cons, hbreak]
          simp [isUncommented_nil, ih]
      | false =>
          obtain ⟨line, rest, hlines⟩ := List.exists_cons_of_ne_nil
            (List.splitOnP_ne_nil Text.isLineBreak cs)
          have hhead := head?_of_splitOnP hlines
          rw [hlines, List.exists_mem_cons_iff] at ih
          rw [hlines, List.tail_cons] at ihtail
          rw [if_neg Bool.false_ne_true, hlines, List.modifyHead_cons, List.exists_mem_cons_iff,
            List.tail_cons, uncommented_false_cons, hbreak]
          refine ⟨?_, ihtail⟩
          cases hspace : Text.isSpace c with
          | true => rw [isUncommented_of_isSpace hspace, uncommented_of_isSpace hspace, ih]
          | false =>
              rw [isUncommented_of_not hspace, hhead]
              by_cases hc : c = '-' ∧ cs.head? = some '-'
              · rw [uncommented_of_dashes hc, or_iff_right (not_not.mpr hc)]
                exact ihtail
              · rw [uncommented_of_not hspace hc]
                exact iff_of_true (Or.inl hc) rfl

lemma uncommented_of_forall (h : ∀ c ∈ cs, Text.isSpace c = true) (start : Bool) :
    uncommented start cs = false := by
  induction cs generalizing start with
  | nil => cases start <;> rfl
  | cons c cs ih =>
      have hrest := ih fun d hd => h d (List.mem_cons_of_mem c hd)
      cases start with
      | true => rw [uncommented_of_isSpace (h c List.mem_cons_self), hrest]
      | false => rw [uncommented_false_cons, hrest]

lemma uncommented_append_left {space : Text} (h : ∀ c ∈ space, Text.isSpace c = true) (cs : Text) :
    uncommented true (space ++ cs) = uncommented true cs := by
  induction space with
  | nil => rfl
  | cons c space ih =>
      rw [List.cons_append, uncommented_of_isSpace (h c List.mem_cons_self),
        ih fun d hd => h d (List.mem_cons_of_mem c hd)]

lemma uncommented_append_right {space : Text} (h : ∀ c ∈ space, Text.isSpace c = true) (start : Bool)
    (cs : Text) : uncommented start (cs ++ space) = uncommented start cs := by
  induction cs generalizing start with
  | nil =>
      rw [List.nil_append, uncommented_of_forall h]
      cases start <;> rfl
  | cons c cs ih =>
      have hhead : (cs ++ space).head? = some '-' ↔ cs.head? = some '-' := by
        cases cs with
        | nil =>
            refine iff_of_false ?_ (by simp)
            intro hdash
            cases h '-' (List.mem_of_head? hdash)
        | cons d cs => rfl
      cases start with
      | true => simp only [List.cons_append, uncommented, hhead, ih]
      | false => rw [List.cons_append, uncommented_false_cons, ih, uncommented_false_cons]

/-- Stripping does not change what the filter sees. -/
lemma uncommented_strip (text : Text) :
    uncommented true (Text.strip text) = uncommented true text := by
  obtain ⟨before, behind, htext, hbefore, hbehind⟩ := Text.exists_strip text
  conv_rhs => rw [htext, uncommented_append_right hbehind, uncommented_append_left hbefore]

lemma nonComment_iff_uncommented (text : Text) :
    nonComment (Text.strip text) ≠ [] ↔ uncommented true text = true := by
  rw [← uncommented_strip, ← (exists_mem_splitOnP _).1, nonComment, Ne, List.filter_eq_nil_iff]
  have hlines := exists_mem_splitlinesFrom [] (Text.strip text)
  rw [modifyHead_nil_append] at hlines
  rw [← hlines, Text.splitlines]
  push Not
  rfl

/-- A line comment goes on behind a line separator that the lexer does not know, with text that is no
comment to the filter. -/
def Stray (marks : List (Char × CharKind)) : Prop :=
  ∃ before b behind, marks = before ++ (b, .line) :: behind ∧ Text.isLineBreak b = true ∧ b ≠ '\n' ∧
    isUncommented ((textOf behind).takeWhile fun c => !Text.isLineBreak c) = true

/-- There is a block comment. -/
def HasBlock (marks : List (Char × CharKind)) : Prop := ∃ mark ∈ marks, mark.2 = .block

/-- What the filter keeps. -/
def Visible (marks : List (Char × CharKind)) : Prop := HasSql marks ∨ HasBlock marks ∨ Stray marks

lemma not_visible_nil : ¬ Visible [] := by simp [Visible, HasSql, HasBlock, Stray]

lemma stray_cons {k : CharKind} {marks : List (Char × CharKind)} :
    Stray ((c, k) :: marks) ↔
      (k = .line ∧ Text.isLineBreak c = true ∧ c ≠ '\n' ∧
        isUncommented ((textOf marks).takeWhile fun d => !Text.isLineBreak d) = true) ∨
      Stray marks := by
  constructor
  · rintro ⟨before, b, behind, hmarks, hstray⟩
    cases before with
    | nil =>
        cases hmarks
        exact Or.inl ⟨rfl, hstray⟩
    | cons first before => exact Or.inr ⟨before, b, behind, (List.cons.inj hmarks).2, hstray⟩
  · rintro (⟨rfl, hstray⟩ | ⟨before, b, behind, rfl, hstray⟩)
    · exact ⟨[], c, marks, rfl, hstray⟩
    · exact ⟨(c, k) :: before, b, behind, rfl, hstray⟩

/-- Space in code is not seen. -/
lemma visible_space {marks : List (Char × CharKind)} (hc : Text.isSpace c = true) :
    Visible ((c, .code) :: marks) ↔ Visible marks := by
  simp [Visible, HasSql, HasBlock, stray_cons, hc]

/-- A character that is neither space nor in a line comment is seen. -/
lemma visible_of_not {k : CharKind} {marks : List (Char × CharKind)}
    (hc : Text.isSpace c = false) (hk : k ≠ .line) : Visible ((c, k) :: marks) := by
  cases k with
  | code => exact Or.inl ⟨_, List.mem_cons_self, Or.inl rfl, hc⟩
  | line => exact absurd rfl hk
  | block => exact Or.inr (Or.inl ⟨_, List.mem_cons_self, rfl⟩)
  | literal => exact Or.inl ⟨_, List.mem_cons_self, Or.inr rfl, hc⟩

/-- In a line comment only what stands behind a line separator is seen. -/
lemma visible_line {marks : List (Char × CharKind)} : Visible ((c, .line) :: marks) ↔
    (Text.isLineBreak c = true ∧ c ≠ '\n' ∧
      isUncommented ((textOf marks).takeWhile fun d => !Text.isLineBreak d) = true) ∨
    Visible marks := by
  simp only [Visible, HasSql, HasBlock, stray_cons, List.exists_mem_cons_iff, reduceCtorEq, or_self,
    false_and, false_or, true_and]
  rw [or_left_comm (b := Text.isLineBreak c = true ∧ _), or_left_comm]

/-- **What the filter sees**, in code, in a line comment behind its dashes, and in a line comment
behind a line separator. -/
structure FilterSees (cs : Text) : Prop where
  code : uncommented true cs = true ↔ Visible (lex cs)
  line : uncommented false cs = true ↔ Visible (sqlLexer.mark .line cs none)
  separator : uncommented true cs = true ↔
    isUncommented (cs.takeWhile fun d => !Text.isLineBreak d) = true ∨
    Visible (sqlLexer.mark .line cs none)

/-- The filter and the lexer in code. -/
lemma FilterSees.step_code (h : FilterSees cs) :
    uncommented true (c :: cs) = true ↔ Visible (lex (c :: cs)) := by
  rw [lex, Marker.mark, Option.or_none, sqlLexer_read]
  cases hspace : Text.isSpace c with
  | true =>
      rw [uncommented_of_isSpace hspace, read_code_of_isSpace hspace, visible_space hspace]
      exact h.code
  | false =>
      by_cases hc : c = '-' ∧ cs.head? = some '-'
      · have hbreak : Text.isLineBreak c = false := by
          rw [hc.1]
          rfl
        rw [uncommented_of_dashes hc, read_code, if_pos hc, visible_line, hbreak, h.line]
        simp
      · refine iff_of_true (uncommented_of_not hspace hc) (visible_of_not hspace ?_)
        rw [read_code, if_neg hc]
        split_ifs <;> decide

/-- In a line comment, behind its dashes. -/
lemma FilterSees.step_line (h : FilterSees cs) :
    uncommented false (c :: cs) = true ↔ Visible (sqlLexer.mark .line (c :: cs) none) := by
  have htext : ∀ mode, textOf (sqlLexer.mark mode cs none) = cs :=
    fun _ => Marker.map_fst_mark _ _ _
  rw [uncommented_false_cons, Marker.mark, sqlLexer_read]
  by_cases hc : c = '\n'
  · have hread : ∀ look, LexMode.line.read c look = (.line, .code) := by simp [LexMode.read, hc]
    have hcut : Text.isLineBreak c = true := by
      rw [hc]
      rfl
    rw [hread, visible_line, hcut, h.code, lex]
    simp [hc]
  · have hread : ∀ look, LexMode.line.read c look = (.line, .line) := by simp [LexMode.read, hc]
    rw [hread, visible_line, htext]
    cases hcut : Text.isLineBreak c with
    | true => simp [hc, h.separator]
    | false => simp [h.line]

/-- A dash at the beginning of a line is one at the beginning of the text. -/
lemma head?_line_eq_dash (cs : Text) :
    (cs.takeWhile fun d => !Text.isLineBreak d).head? = some '-' ↔ cs.head? = some '-' := by
  cases cs with
  | nil => rfl
  | cons d cs =>
      cases hd : Text.isLineBreak d with
      | false => simp [hd]
      | true =>
          have hne : d ≠ '-' := by
            rintro rfl
            cases hd
          simp [hd, hne]

/-- In a line comment, behind a line separator. -/
lemma FilterSees.step_separator (h : FilterSees cs) :
    uncommented true (c :: cs) = true ↔
      isUncommented ((c :: cs).takeWhile fun d => !Text.isLineBreak d) = true ∨
      Visible (sqlLexer.mark .line (c :: cs) none) := by
  have hfalse := h.step_line (c := c)
  rw [uncommented_false_cons] at hfalse
  cases hcut : Text.isLineBreak c with
  | true =>
      have hspace := Text.isSpace_of_isLineBreak hcut
      rw [hcut] at hfalse
      rw [uncommented_of_isSpace hspace, hfalse]
      simp [hcut, isUncommented_nil]
  | false =>
      have htake : (c :: cs).takeWhile (fun d => !Text.isLineBreak d) =
          c :: cs.takeWhile fun d => !Text.isLineBreak d := by simp [hcut]
      rw [hcut, h.line] at hfalse
      rw [htake, ← hfalse]
      cases hspace : Text.isSpace c with
      | true => rw [uncommented_of_isSpace hspace, isUncommented_of_isSpace hspace, h.separator]
      | false =>
          rw [isUncommented_of_not hspace, head?_line_eq_dash]
          by_cases hc : c = '-' ∧ cs.head? = some '-'
          · rw [uncommented_of_dashes hc, or_iff_right (not_not.mpr hc), h.line]
          · rw [uncommented_of_not hspace hc]
            exact iff_of_true rfl (Or.inl hc)

/-- Whatever is left of the text. -/
theorem filterSees (cs : Text) : FilterSees cs := by
  induction cs with
  | nil =>
      constructor <;> simp [lex, uncommented, not_visible_nil, isUncommented_nil]
  | cons c cs ih => exact ⟨ih.step_code, ih.step_line, ih.step_separator⟩

/-- **What becomes a statement.** -/
theorem nonComment_iff (text : Text) :
    nonComment (Text.strip text) ≠ [] ↔ Visible (lex text) := by
  rw [nonComment_iff_uncommented, (filterSees text).code]

/-- A segment is kept as it stands in the text. -/
lemma kept_segment_iff {sql : Text} {seg : List (Char × CharKind)} (h : seg ∈ segments sql) :
    nonComment (Text.strip (textOf seg)) ≠ [] ↔ Visible seg := by
  rw [nonComment_iff, lex_segment h]

lemma mem_splitStatements {sql stmt : Text} : stmt ∈ splitStatements sql ↔
    ∃ seg ∈ segments sql, Visible seg ∧ stmt = Text.strip (textOf seg) := by
  rw [splitStatements_eq, kept, List.map_map, List.mem_filter, List.mem_map]
  constructor
  · rintro ⟨⟨seg, hseg, rfl⟩, hkept⟩
    exact ⟨seg, hseg, (kept_segment_iff hseg).mp (of_decide_eq_true hkept), rfl⟩
  · rintro ⟨seg, hseg, hvisible, rfl⟩
    exact ⟨⟨seg, hseg, rfl⟩, decide_eq_true ((kept_segment_iff hseg).mpr hvisible)⟩

end Filter

/-- **No SQL is lost.**  A text is cut exactly at the semicolons in code; the result is, in order, the
stripped text of the segments that are kept, and all segments with SQL in them are. -/
theorem split_statements_complete (sql : Text) :
    [(';', CharKind.code)].intercalate (segments sql) = lex sql ∧
    (∀ seg ∈ segments sql, (';', CharKind.code) ∉ seg) ∧
    splitStatements sql = ((segments sql).filter fun seg =>
      nonComment (Text.strip (textOf seg)) ≠ []).map (fun seg => Text.strip (textOf seg)) ∧
    ∀ seg ∈ segments sql, HasSql seg → nonComment (Text.strip (textOf seg)) ≠ [] := by
  refine ⟨intercalate_splitOnP (fun _ => isDelimiter_iff.mp) (lex sql), ?_, ?_, ?_⟩
  · intro seg hseg hmem
    obtain ⟨-, -, -, hcut, -⟩ := mem_splitOnP hseg
    cases hcut _ hmem
  · rw [splitStatements_eq, kept, List.map_map, List.filter_map]
    rfl
  · intro seg hseg hsql
    exact (kept_segment_iff hseg).mpr (Or.inl hsql)

/-- **When only SQL is left**: every block without SQL is free of block comments, and its line
comments of line separators with text behind them that does not look like a comment. -/
theorem comment_only_filtered_iff (sql : Text) :
    (∀ stmt ∈ splitStatements sql, HasSql (lex stmt)) ↔
      ∀ seg ∈ segments sql, ¬ HasSql seg → ¬ HasBlock seg ∧ ¬ Stray seg := by
  have hsql : ∀ seg ∈ segments sql, HasSql (lex (Text.strip (textOf seg))) ↔ HasSql seg := by
    intro seg hseg
    rw [hasSql_strip, lex_segment hseg]
  constructor
  · intro h seg hseg hnone
    have hhidden : ¬ Visible seg := by
      intro hvisible
      exact hnone ((hsql seg hseg).mp (h _ (mem_splitStatements.mpr ⟨seg, hseg, hvisible, rfl⟩)))
    exact ⟨fun hblock => hhidden (Or.inr (Or.inl hblock)),
      fun hstray => hhidden (Or.inr (Or.inr hstray))⟩
  · intro h stmt hstmt
    obtain ⟨seg, hseg, hvisible, rfl⟩ := mem_splitStatements.mp hstmt
    rw [hsql seg hseg]
    by_contra hnone
    obtain ⟨hblock, hstray⟩ := h seg hseg hnone
    rcases hvisible with hvisible | hvisible | hvisible
    · exact hnone hvisible
    · exact hblock hvisible
    · exact hstray hvisible

/-- **A block comment is executed**, although there is no SQL in it. -/
theorem block_comment_executed :
    ¬ ∀ (sql : Text), ∀ stmt ∈ splitStatements sql, HasSql (lex stmt) := by
  intro h
  have hmem : "/* note */".toList ∈ splitStatements "SELECT 1;\n/* note */".toList := by
    rw [splitStatements_eq]
    decide
  exact absurd (h _ _ hmem) (by decide)

end Ticksense
