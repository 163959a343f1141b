import Ticksense.Flink.SqlRunner

/-!
# Parameters in SQL files

The parameters are put into the text of a file before it is cut into statements.  As long as the
placeholders stand in quotes, and no value has a quote in it, a value cannot end a statement or
begin a comment.

* `Piece`, `render`, `fill` — a template, its text, and its text with values.
* `Quoted` — the placeholders stand in literals that are closed; `mark_flatMap`: whatever text without
  quotes is put there, the lexer reads it as part of the literal.
* `strip_flatMap`, `format_render` — stripping and substitution, piece by piece.
* `splitting_commutes` — splitting the loaded file is loading the split file.
-/

namespace Ticksense

/-- A piece of a template: a character of its own, or a placeholder. -/
inductive Piece
  | char (c : Char)
  | param (name : Text)
deriving DecidableEq, Repr

/-- How a piece stands in the file. -/
def Piece.render : Piece → Text
  | .char c => [c]
  | .param name => '\x7b' :: name ++ ['\x7d']

/-- A piece with its value. -/
def Piece.fill (params : Dict Text Text) : Piece → Text
  | .char c => [c]
  | .param name => (params.get? name).getD []

def render (template : List Piece) : Text := template.flatMap Piece.render

def fill (params : Dict Text Text) (template : List Piece) : Text :=
  template.flatMap (Piece.fill params)

/-- The name of a parameter: no attribute, index, conversion or format, and no position. -/
structure IsName (name : Text) : Prop where
  plain : ∀ c ∈ name, c ∉ ['.', '[', '!', ':', '\x7b', '\x7d', '\'']
  notNumber : name.all Char.isDigit = false

/-- The place between two texts is in a literal, and the literal is closed. -/
def InClosedLiteral (before behind : Text) : Prop :=
  sqlLexer.after .code before (some '\x7b') = .literal ∧
    ∃ rest left, behind = rest ++ left ∧ sqlLexer.after .literal rest left.head? = .code

/-- A file whose only braces are those of placeholders in closed literals. -/
structure IsTemplate (template : List Piece) : Prop where
  plain : ∀ c, .char c ∈ template → c ≠ '\x7b' ∧ c ≠ '\x7d'
  names : ∀ name, .param name ∈ template → IsName name
  quoted : ∀ before name behind, template = before ++ .param name :: behind →
    InClosedLiteral (render before) (render behind)

/-- The first character of a piece in the file. -/
def Piece.first : Piece → Char
  | .char c => c
  | .param _ => '\x7b'

/-- The lexer on pieces. -/
def pieceLexer : Marker LexMode Piece CharKind := sqlLexer.comap Piece.first

/-- The placeholders are read in literals, and a quote comes behind each of them. -/
def Quoted : LexMode → List Piece → Prop
  | _, [] => True
  | mode, .char c :: ps => Quoted (mode.read c (ps.head?.map Piece.first)).2 ps
  | mode, .param _ :: ps => mode = .literal ∧ .char '\'' ∈ ps ∧ Quoted .literal ps

/-- What is read as the beginning of a literal, or in one, is read so whatever follows. -/
lemma read_of_literal {mode : LexMode} {c : Char} (h : (mode.read c (some '\x7b')).2 = .literal)
    (look : Option Char) : mode.read c look = mode.read c (some '\x7b') := by
  cases mode with
  | code =>
      have hc : c = '\'' := by
        by_contra hc
        simp [read_code, hc] at h
      simp [read_code, hc]
  | literal =>
      have hc : c ≠ '\'' := by
        rintro rfl
        simp [LexMode.read] at h
      simp [LexMode.read, hc]
  | line =>
      simp only [LexMode.read] at h
      split_ifs at h
  | block => simp [LexMode.read] at h
  | _ => rfl

section Marks

variable {mode : LexMode} {ps : List Piece} {f : Piece → Text}

/-- The marks of the text that stands for a piece. -/
def expandMark (f : Piece → Text) (mark : Piece × CharKind) : List (Char × CharKind) :=
  (f mark.1).map (·, mark.2)

lemma read_literal_of_ne {c : Char} (hc : c ≠ '\'') (look : Option Char) :
    LexMode.literal.read c look = (.literal, .literal) := by
  simp [LexMode.read, hc]

/-- **Text without quotes in literals** is read as part of the literal. -/
lemma mark_flatMap (hchar : ∀ c, f (.char c) = [c])
    (hparam : ∀ name, .param name ∈ ps → '\'' ∉ f (.param name)) (h : Quoted mode ps) :
    sqlLexer.mark mode (ps.flatMap f) none =
      (pieceLexer.mark mode ps none).flatMap (expandMark f) := by
  induction ps generalizing mode with
  | nil => rfl
  | cons p ps ih =>
      have hparam' : ∀ name, .param name ∈ ps → '\'' ∉ f (.param name) :=
        fun name hname => hparam name (List.mem_cons_of_mem p hname)
      cases p with
      | char c =>
          have hlook : mode.read c (ps.flatMap f).head? =
              mode.read c (ps.head?.map Piece.first) := by
            cases ps with
            | nil => rfl
            | cons p ps =>
                cases p with
                | char d => simp [hchar, Piece.first]
                | param name => exact read_of_literal h.1 _
          have hcons : pieceLexer.mark mode (.char c :: ps) none =
              (.char c, (mode.read c (ps.head?.map Piece.first)).1) ::
                pieceLexer.mark (mode.read c (ps.head?.map Piece.first)).2 ps none := by
            rw [Marker.mark, Option.or_none]
            rfl
          rw [List.flatMap_cons, hchar, List.singleton_append, Marker.mark, Option.or_none,
            sqlLexer_read, hlook, ih hparam' h, hcons, List.flatMap_cons, expandMark, hchar]
          rfl
      | param name =>
          obtain ⟨rfl, -, hrest⟩ := h
          have hquote := hparam name List.mem_cons_self
          have hstays : ∀ c ∈ f (.param name), ∀ look,
              sqlLexer.read .literal c look = (.literal, .literal) := by
            intro c hc look
            refine read_literal_of_ne ?_ look
            rintro rfl
            exact hquote hc
          rw [List.flatMap_cons, Marker.mark_append, (Marker.mark_of_stays hstays _).1,
            (Marker.mark_of_stays hstays _).2, ih hparam' hrest]
          rfl

/-- A placeholder is read in a literal. -/
lemma kind_of_param (h : Quoted mode ps) {name : Text} {k : CharKind}
    (hmem : (.param name, k) ∈ pieceLexer.mark mode ps none) : k = .literal := by
  induction ps generalizing mode with
  | nil => cases hmem
  | cons p ps ih =>
      rw [Marker.mark, Option.or_none] at hmem
      rcases List.mem_cons.mp hmem with hhead | htail
      · obtain ⟨rfl, rfl⟩ := Prod.mk.inj hhead
        obtain ⟨rfl, -⟩ := h
        rfl
      · cases p with
        | char c => exact ih h htail
        | param name' =>
            obtain ⟨rfl, -, hrest⟩ := h
            exact ih hrest htail

/-- Behind what stands before a placeholder. -/
lemma Quoted.at_param {before behind : List Piece} {name : Text}
    (h : Quoted mode (before ++ .param name :: behind)) :
    pieceLexer.after mode before (some (.param name)) = .literal ∧ .char '\'' ∈ behind := by
  induction before generalizing mode with
  | nil => exact ⟨h.1, h.2.1⟩
  | cons p before ih =>
      cases p with
      | char c =>
          rw [List.cons_append, Quoted] at h
          rw [Marker.after]
          have hlook : (before ++ .param name :: behind).head?.map Piece.first =
              (before.head?.or (some (.param name))).map Piece.first := by
            cases before <;> rfl
          rw [hlook] at h
          exact ih h
      | param name' =>
          obtain ⟨rfl, -, hrest⟩ := h
          exact ih hrest

/-- Out of a literal only through a quote. -/
lemma after_literal_of_no_quote {cs : Text} (h : '\'' ∉ cs) (look : Option Char) :
    sqlLexer.after .literal cs look = .literal := by
  refine (Marker.mark_of_stays (k := .literal) ?_ look).2
  intro c hc look'
  refine read_literal_of_ne ?_ look'
  rintro rfl
  exact h hc

lemma IsName.quote_not_mem {name : Text} (h : IsName name) :
    '\'' ∉ Piece.render (.param name) := by
  intro hquote
  rw [Piece.render, List.cons_append, List.mem_cons, List.mem_append, List.mem_singleton] at hquote
  rcases hquote with hquote | hquote | hquote
  · cases hquote
  · exact h.plain _ hquote (by simp)
  · cases hquote

lemma quote_mem_of_render (hnames : ∀ name, .param name ∈ ps → IsName name)
    (h : '\'' ∈ render ps) : .char '\'' ∈ ps := by
  obtain ⟨p, hp, hquote⟩ := List.mem_flatMap.mp h
  cases p with
  | char c =>
      obtain rfl := List.mem_singleton.mp hquote
      exact hp
  | param name => exact absurd hquote (hnames name hp).quote_not_mem

/-- The lexer on the text and on the pieces. -/
lemma quoted_of_text (hnames : ∀ name, .param name ∈ ps → IsName name)
    (h : ∀ before name behind, ps = before ++ .param name :: behind →
      sqlLexer.after mode (render before) (some '\x7b') = .literal ∧
        ∃ rest left, render behind = rest ++ left ∧
          sqlLexer.after .literal rest left.head? = .code) : Quoted mode ps := by
  induction ps generalizing mode with
  | nil => trivial
  | cons p ps ih =>
      have hnames' : ∀ name, .param name ∈ ps → IsName name :=
        fun name hname => hnames name (List.mem_cons_of_mem p hname)
      cases p with
      | char c =>
          refine ih hnames' ?_
          rintro before name behind rfl
          have hstep := h (.char c :: before) name behind rfl
          rw [render, List.flatMap_cons, ← render, Piece.render, List.singleton_append,
            Marker.after] at hstep
          have hlook : (render before).head?.or (some '\x7b') =
              (before ++ .param name :: behind).head?.map Piece.first := by
            cases before with
            | nil => rfl
            | cons p before => cases p <;> rfl
          rw [hlook] at hstep
          exact hstep
      | param name =>
          obtain ⟨hmode, rest, left, hbehind, hclosed⟩ := h [] name ps rfl
          have hquote : .char '\'' ∈ ps := by
            refine quote_mem_of_render hnames' ?_
            rw [hbehind, List.mem_append]
            refine Or.inl ?_
            by_contra hnone
            rw [after_literal_of_no_quote hnone] at hclosed
            cases hclosed
          obtain rfl : mode = .literal := hmode
          refine ⟨rfl, hquote, ih hnames' ?_⟩
          rintro before name' behind rfl
          have hstep := h (.param name :: before) name' behind rfl
          have hnone := (hnames name List.mem_cons_self).quote_not_mem
          rw [render, List.flatMap_cons, ← render, Marker.after_append,
            after_literal_of_no_quote hnone] at hstep
          exact hstep

/-- The template, cut at the semicolons in code. -/
def templateSegments (ps : List Piece) : List (List (Piece × CharKind)) :=
  (pieceLexer.mark .code ps none).splitOnP fun mark => mark = (.char ';', .code)

/-- **The text is cut where the template is.** -/
lemma segments_flatMap (hchar : ∀ c, f (.char c) = [c])
    (hparam : ∀ name, .param name ∈ ps → '\'' ∉ f (.param name)) (h : Quoted .code ps) :
    segments (ps.flatMap f) = (templateSegments ps).map (List.flatMap (expandMark f)) := by
  rw [segments, lex, mark_flatMap hchar hparam h, templateSegments]
  refine splitOnP_flatMap ?_ ?_
  · intro mark hmark
    obtain rfl := of_decide_eq_true hmark
    exact ⟨(';', .code), by rw [expandMark, hchar]; rfl, rfl⟩
  · rintro ⟨p, k⟩ hmem hmark a ha
    obtain ⟨c, hc, rfl⟩ := List.mem_map.mp ha
    cases p with
    | char d =>
        rw [hchar, List.mem_singleton] at hc
        subst hc
        simpa [isDelimiter] using hmark
    | param name =>
        obtain rfl := kind_of_param h hmem
        simp [isDelimiter]

/-- Into a literal only through a quote. -/
lemma read_of_not_literal (hmode : mode ≠ .literal ∧ mode ≠ .escape) (c : Char)
    (look : Option Char) :
    ((mode.read c look).2 ≠ .literal ∧ (mode.read c look).2 ≠ .escape) ∨
      c = '\'' ∧ (mode.read c look).1 = .literal := by
  cases mode with
  | code =>
      rw [read_code]
      split_ifs with hline hblock hquote
      · exact Or.inl ⟨by decide, by decide⟩
      · exact Or.inl ⟨by decide, by decide⟩
      · exact Or.inr ⟨hquote, rfl⟩
      · exact Or.inl ⟨by decide, by decide⟩
  | line =>
      rw [LexMode.read]
      split_ifs <;> exact Or.inl ⟨by decide, by decide⟩
  | block =>
      rw [LexMode.read]
      split_ifs <;> exact Or.inl ⟨by decide, by decide⟩
  | literal => exact absurd rfl hmode.1
  | escape => exact absurd rfl hmode.2
  | _ => exact Or.inl (by simp [LexMode.read])

lemma eq_char_of_first {p : Piece} (h : p.first = '\'') : p = .char '\'' := by
  cases p with
  | char c => exact congrArg Piece.char h
  | param name => cases h

lemma quote_mem_of_after {look : Option Piece} (hmode : mode ≠ .literal ∧ mode ≠ .escape)
    (h : pieceLexer.after mode ps look = .literal) :
    (.char '\'', .literal) ∈ pieceLexer.mark mode ps look := by
  induction ps generalizing mode with
  | nil => exact absurd h hmode.1
  | cons p ps ih =>
      rw [Marker.mark, List.mem_cons]
      rcases read_of_not_literal hmode p.first ((ps.head?.or look).map Piece.first)
        with hnext | ⟨hquote, hkind⟩
      · exact Or.inr (ih hnext h)
      · exact Or.inl (Prod.ext (eq_char_of_first hquote).symm hkind.symm)

/-- Where a segment is in a literal, it has the quote that opened it. -/
lemma quote_before {left before : List (Piece × CharKind)} {first : List Piece} {p : Piece}
    (hmarks : left ++ before = pieceLexer.mark .code first (some p))
    (hleft : left = [] ∨ ∃ rest cut, left = rest ++ [cut] ∧
      decide (cut = (Piece.char ';', CharKind.code)) = true)
    (hmode : pieceLexer.after .code first (some p) = .literal) :
    (.char '\'', .literal) ∈ before := by
  obtain ⟨outside, inside, rfl, houtside, hinside⟩ := Marker.mark_eq_append hmarks.symm
  -- the segment begins in code
  have hcode : pieceLexer.after .code outside (inside.head?.or (some p)) = .code := by
    rcases hleft with rfl | ⟨rest, cut, rfl, hcut⟩
    · obtain rfl : outside = [] := by
        rw [← Marker.map_fst_mark (M := pieceLexer) .code outside, ← houtside, List.map_nil]
      rfl
    · obtain rfl := of_decide_eq_true hcut
      exact Marker.after_of_last houtside.symm fun _ _ hread => (eq_code_of_read hread).2
  rw [Marker.after_append, hcode] at hmode
  rw [hinside, hcode]
  exact quote_mem_of_after (by decide) hmode

/-- It also has the quote that closes it. -/
lemma quote_behind {behind right : List (Piece × CharKind)} {last : List Piece}
    (hmarks : behind ++ right = pieceLexer.mark .literal last none)
    (hright : right = [] ∨ ∃ cut rest, right = cut :: rest ∧
      decide (cut = (Piece.char ';', CharKind.code)) = true)
    (hquote : .char '\'' ∈ last) : .char '\'' ∈ behind.map Prod.fst := by
  obtain ⟨inside, outside, rfl, hinside, houtside⟩ := Marker.mark_eq_append hmarks.symm
  rw [hinside, Marker.map_fst_mark]
  by_contra hnone
  -- otherwise the segment ends in the literal
  have hliteral : pieceLexer.after .literal inside (outside.head?.or none) = .literal := by
    refine (Marker.mark_of_stays (k := .literal) ?_ _).2
    intro p hp look
    exact read_literal_of_ne (fun hfirst => hnone (eq_char_of_first hfirst ▸ hp)) _
  rw [hliteral] at houtside
  cases outside with
  | nil => exact hnone (by simpa using hquote)
  | cons p outside =>
      rcases hright with rfl | ⟨cut, rest, rfl, hcut⟩
      · cases houtside
      · obtain rfl := of_decide_eq_true hcut
        rw [Marker.mark] at houtside
        cases congrArg Prod.snd (List.cons.inj houtside).1

/-- Around a placeholder its segment has the quotes. -/
lemma quotes_in_segment (h : Quoted .code ps) {seg : List (Piece × CharKind)}
    (hseg : seg ∈ templateSegments ps) {before behind : List (Piece × CharKind)} {name : Text}
    {k : CharKind} (hsplit : seg = before ++ (.param name, k) :: behind) :
    (.char '\'', .literal) ∈ before ∧ .char '\'' ∈ behind.map Prod.fst := by
  obtain ⟨left, right, hmarks, -, hleft, hright⟩ := mem_splitOnP hseg
  have hparam : pieceLexer.mark .code ps none =
      (left ++ before) ++ (.param name, k) :: (behind ++ right) := by
    rw [hmarks, hsplit]
    simp
  obtain ⟨first, last, rfl, hfirst, -, hlast⟩ := Marker.mark_eq_append_cons hparam
  obtain ⟨hmode, hquote⟩ := h.at_param
  have hne : (Piece.param name).first ≠ '\'' := by
    intro hfirst
    cases eq_char_of_first hfirst
  have hstays : (pieceLexer.read .literal (.param name) (last.head?.or none)).2 = .literal :=
    congrArg Prod.snd (read_literal_of_ne hne _)
  rw [hmode, hstays] at hlast
  exact ⟨quote_before hfirst hleft hmode, quote_behind hlast hright hquote⟩

end Marks

/-! ## Stripping and substitution, piece by piece -/

section Pieces

variable {ps : List Piece} {f : Piece → Text}

/-- A character of the template that is space. -/
def Piece.isSpace : Piece → Bool
  | .char c => Text.isSpace c
  | .param _ => false

lemma dropWhile_flatMap (hchar : ∀ c, f (.char c) = [c])
    (h : ∀ before name behind, ps = before ++ .param name :: behind → .char '\'' ∈ before) :
    (ps.flatMap f).dropWhile Text.isSpace = (ps.dropWhile Piece.isSpace).flatMap f := by
  induction ps with
  | nil => rfl
  | cons p ps ih =>
      cases p with
      | char c =>
          rw [List.flatMap_cons, hchar, List.singleton_append]
          cases hc : Text.isSpace c with
          | false =>
              rw [List.dropWhile_cons_of_neg (by simp [hc]),
                List.dropWhile_cons_of_neg (by simp [Piece.isSpace, hc]), List.flatMap_cons, hchar]
              rfl
          | true =>
              rw [List.dropWhile_cons_of_pos hc,
                List.dropWhile_cons_of_pos (show Piece.isSpace (.char c) = true from hc)]
              refine ih ?_
              rintro before name behind rfl
              rcases List.mem_cons.mp (h (.char c :: before) name behind rfl) with hquote | hquote
              · cases hquote
                cases hc
              · exact hquote
      | param name => cases h [] name ps rfl

/-- The pieces without the space around them. -/
def stripPieces (ps : List Piece) : List Piece :=
  (ps.dropWhile Piece.isSpace).rdropWhile Piece.isSpace

/-- **Stripping** does not touch what stands for a placeholder between two quotes. -/
lemma strip_flatMap (hchar : ∀ c, f (.char c) = [c])
    (h : ∀ before name behind, ps = before ++ .param name :: behind →
      .char '\'' ∈ before ∧ .char '\'' ∈ behind) :
    Text.strip (ps.flatMap f) = (stripPieces ps).flatMap f := by
  rw [Text.strip, dropWhile_flatMap hchar fun before name behind hps => (h before name behind hps).1]
  have hback : ∀ before name behind,
      (ps.dropWhile Piece.isSpace).reverse = before ++ .param name :: behind →
        .char '\'' ∈ before := by
    intro before name behind hps
    obtain ⟨space, hspace⟩ := List.dropWhile_suffix (l := ps) Piece.isSpace
    have hsplit : ps = (space ++ behind.reverse) ++ .param name :: before.reverse := by
      rw [← hspace, List.reverse_eq_iff.mp hps]
      simp
    simpa using (h _ _ _ hsplit).2
  have hreverse : ((ps.dropWhile Piece.isSpace).flatMap f).reverse =
      (ps.dropWhile Piece.isSpace).reverse.flatMap (List.reverse ∘ f) := List.reverse_flatMap
  rw [List.rdropWhile, hreverse, dropWhile_flatMap (by simp [hchar]) hback, stripPieces,
    List.rdropWhile, List.flatMap_reverse]

lemma mem_of_mem_stripPieces {p : Piece} (h : p ∈ stripPieces ps) : p ∈ ps :=
  (List.dropWhile_suffix _).subset ((List.rdropWhile_prefix _ _).subset h)

end Pieces

section Format

variable {params : Dict Text Text} {template : List Piece}

lemma formatFrom_char {c : Char} {cs out : Text} (hc : c ≠ '\x7b' ∧ c ≠ '\x7d')
    (h : Text.formatFrom params none cs = .ok out) :
    Text.formatFrom params none (c :: cs) = .ok (c :: out) := by
  have hstep : Text.formatFrom params none (c :: cs) = (do
      return c :: (← Text.formatFrom params none cs)) := by
    rw [Text.formatFrom] <;> simp [hc]
  rw [hstep, h]
  rfl

lemma formatFrom_field {name field cs value out : Text}
    (hname : ∀ c ∈ name, c ≠ '\x7b' ∧ c ≠ '\x7d')
    (hvalue : Text.fieldValue params (field ++ name) = .ok value)
    (h : Text.formatFrom params none cs = .ok out) :
    Text.formatFrom params (some field) (name ++ '\x7d' :: cs) = .ok (value ++ out) := by
  induction name generalizing field with
  | nil =>
      rw [List.append_nil] at hvalue
      rw [List.nil_append, Text.formatFrom, hvalue, h]
      rfl
  | cons c name ih =>
      have hstep : Text.formatFrom params (some field) (c :: (name ++ '\x7d' :: cs)) =
          Text.formatFrom params (some (field ++ [c])) (name ++ '\x7d' :: cs) := by
        rw [Text.formatFrom] <;> simp [hname c List.mem_cons_self]
      rw [List.cons_append, hstep]
      refine ih (fun d hd => hname d (List.mem_cons_of_mem c hd)) ?_
      rwa [List.append_assoc, List.singleton_append]

/-- The names of parameters have no braces. -/
lemma IsName.braces {name : Text} (h : IsName name) : ∀ c ∈ name, c ≠ '\x7b' ∧ c ≠ '\x7d' := by
  intro c hc
  have hplain := h.plain c hc
  simp only [List.mem_cons, not_or] at hplain
  exact ⟨hplain.2.2.2.2.1, hplain.2.2.2.2.2.1⟩

/-- They are looked up as they stand. -/
lemma fieldValue_of_name {name value : Text} (h : IsName name)
    (hvalue : params.get? name = some value) : Text.fieldValue params name = .ok value := by
  have hspecial : name.any (· ∈ ['.', '[', '!', ':']) = false := by
    rw [List.any_eq_false]
    intro c hc hspecial
    have hplain := h.plain c hc
    simp only [List.mem_cons, not_or] at hplain
    simp [hplain] at hspecial
  rw [Text.fieldValue, hspecial, h.notNumber, hvalue]
  rfl

/-- The brace before a name opens a field. -/
lemma formatFrom_open {name cs : Text} (h : IsName name) :
    Text.formatFrom params none ('\x7b' :: (name ++ '\x7d' :: cs)) =
      Text.formatFrom params (some []) (name ++ '\x7d' :: cs) := by
  cases name with
  | nil => cases h.notNumber
  | cons c name =>
      have hc := h.braces c List.mem_cons_self
      rw [List.cons_append, Text.formatFrom]
      simp [hc]

/-- **Substitution** fills the placeholders. -/
lemma format_render (hplain : ∀ c, .char c ∈ template → c ≠ '\x7b' ∧ c ≠ '\x7d')
    (hnames : ∀ name, .param name ∈ template → IsName name)
    (hcovered : ∀ name, .param name ∈ template → ∃ value, params.get? name = some value) :
    Text.format params (render template) = .ok (fill params template) := by
  rw [Text.format]
  induction template with
  | nil => rfl
  | cons p ps ih =>
      have ih := ih (fun c hc => hplain c (List.mem_cons_of_mem p hc))
        (fun name hname => hnames name (List.mem_cons_of_mem p hname))
        (fun name hname => hcovered name (List.mem_cons_of_mem p hname))
      cases p with
      | char c => exact formatFrom_char (hplain c List.mem_cons_self) ih
      | param name =>
          have hname := hnames name List.mem_cons_self
          obtain ⟨value, hvalue⟩ := hcovered name List.mem_cons_self
          have hrender : render (.param name :: ps) = '\x7b' :: (name ++ '\x7d' :: render ps) := by
            simp [render, Piece.render]
          have hfield : Text.fieldValue params ([] ++ name) = .ok value :=
            fieldValue_of_name hname hvalue
          rw [hrender, formatFrom_open hname, formatFrom_field hname.braces hfield ih, fill, fill,
            List.flatMap_cons, Piece.fill, hvalue]
          rfl

end Format

/-! ## Splitting and loading -/

section Splitting

variable {ps : List Piece} {params : Dict Text Text} {f : Piece → Text}
  {seg : List (Piece × CharKind)}

lemma mem_of_mem_segment (hseg : seg ∈ templateSegments ps) {p : Piece}
    (hp : p ∈ seg.map Prod.fst) : p ∈ ps := by
  obtain ⟨left, right, hmarks, -⟩ := mem_splitOnP hseg
  rw [← Marker.map_fst_mark (M := pieceLexer) .code ps none, hmarks, List.map_append,
    List.map_append]
  exact List.mem_append_left _ (List.mem_append_right _ hp)

lemma textOf_expand (seg : List (Piece × CharKind)) :
    textOf (seg.flatMap (expandMark f)) = (seg.map Prod.fst).flatMap f := by
  induction seg with
  | nil => rfl
  | cons mark seg ih =>
      rw [List.flatMap_cons, textOf_append, ih, expandMark, textOf_map, List.map_cons,
        List.flatMap_cons]

lemma splitStatements_flatMap (hchar : ∀ c, f (.char c) = [c])
    (hparam : ∀ name, .param name ∈ ps → '\'' ∉ f (.param name)) (h : Quoted .code ps) :
    splitStatements (ps.flatMap f) =
      ((templateSegments ps).filter fun seg =>
        nonComment (Text.strip ((seg.map Prod.fst).flatMap f)) ≠ []).map
          fun seg => Text.strip ((seg.map Prod.fst).flatMap f) := by
  rw [splitStatements_eq, segments_flatMap hchar hparam h, kept, List.map_map, List.map_map,
    List.filter_map]
  simp only [Function.comp_def, textOf_expand]

/-- A segment with a placeholder has SQL: the quote in front of it. -/
lemma kept_of_param (hchar : ∀ c, f (.char c) = [c])
    (hparam : ∀ name, .param name ∈ ps → '\'' ∉ f (.param name)) (h : Quoted .code ps)
    (hseg : seg ∈ templateSegments ps) {name : Text} (hname : .param name ∈ seg.map Prod.fst) :
    nonComment (Text.strip ((seg.map Prod.fst).flatMap f)) ≠ [] := by
  obtain ⟨⟨p, k⟩, hmem, rfl⟩ := List.mem_map.mp hname
  obtain ⟨before, behind, hsplit⟩ := List.append_of_mem hmem
  have hquote := (quotes_in_segment h hseg hsplit).1
  have hexpanded : seg.flatMap (expandMark f) ∈ segments (ps.flatMap f) := by
    rw [segments_flatMap hchar hparam h]
    exact List.mem_map_of_mem hseg
  rw [← textOf_expand, kept_segment_iff hexpanded]
  refine Or.inl ⟨('\'', .literal), ?_, Or.inr rfl, rfl⟩
  rw [List.mem_flatMap]
  refine ⟨(.char '\'', .literal), ?_, ?_⟩
  · rw [hsplit]
    exact List.mem_append_left _ hquote
  · rw [expandMark, hchar]
    exact List.mem_singleton_self _

lemma strip_segment (hchar : ∀ c, f (.char c) = [c]) (h : Quoted .code ps)
    (hseg : seg ∈ templateSegments ps) :
    Text.strip ((seg.map Prod.fst).flatMap f) = (stripPieces (seg.map Prod.fst)).flatMap f := by
  refine strip_flatMap hchar ?_
  intro before name behind hsplit
  obtain ⟨marks, marks', hmarks, rfl, hrest⟩ := List.map_eq_append_iff.mp hsplit
  obtain ⟨mark, marks'', rfl, hmark, rfl⟩ := List.map_eq_cons_iff.mp hrest
  obtain ⟨p, k⟩ := mark
  obtain rfl : p = .param name := hmark
  obtain ⟨hbefore, hbehind⟩ := quotes_in_segment h hseg hmarks
  exact ⟨List.mem_map_of_mem hbefore, hbehind⟩

/-- The same segments are kept, whatever the placeholders stand for. -/
lemma kept_congr {g : Piece → Text} (hf : ∀ c, f (.char c) = [c]) (hg : ∀ c, g (.char c) = [c])
    (hparam : ∀ name, .param name ∈ ps → '\'' ∉ f (.param name))
    (hparam' : ∀ name, .param name ∈ ps → '\'' ∉ g (.param name)) (h : Quoted .code ps)
    (hseg : seg ∈ templateSegments ps) :
    decide (nonComment (Text.strip ((seg.map Prod.fst).flatMap f)) ≠ []) =
      decide (nonComment (Text.strip ((seg.map Prod.fst).flatMap g)) ≠ []) := by
  by_cases hname : ∃ name, .param name ∈ seg.map Prod.fst
  · obtain ⟨name, hname⟩ := hname
    rw [decide_eq_true (kept_of_param hf hparam h hseg hname),
      decide_eq_true (kept_of_param hg hparam' h hseg hname)]
  · have hsame : (seg.map Prod.fst).flatMap f = (seg.map Prod.fst).flatMap g := by
      refine List.flatMap_congr fun p hp => ?_
      cases p with
      | char c => rw [hf, hg]
      | param name => exact absurd ⟨name, hp⟩ hname
    rw [hsame]

end Splitting

/-- **Parameters do not change the statements.**  Splitting the loaded file gives the statements of
the template, with the parameters put into each of them. -/
theorem splitting_commutes (template : List Piece) (params : Dict Text Text)
    (htemplate : IsTemplate template) (hparams : params.items ≠ [])
    (hcovered : ∀ name, .param name ∈ template → ∃ value, params.get? name = some value)
    (hvalues : ∀ name value, params.get? name = some value → '\'' ∉ value) :
    ∃ text, loadSql (render template) params = .ok text ∧
      (splitStatements (render template)).mapM (Text.format params) =
        .ok (splitStatements text) := by
  have hquoted : Quoted .code template := quoted_of_text htemplate.names htemplate.quoted
  have hrender : ∀ name, .param name ∈ template → '\'' ∉ Piece.render (.param name) :=
    fun name hname => (htemplate.names name hname).quote_not_mem
  have hfill : ∀ name, .param name ∈ template → '\'' ∉ Piece.fill params (.param name) := by
    intro name hname
    obtain ⟨value, hvalue⟩ := hcovered name hname
    rw [Piece.fill, hvalue]
    exact hvalues name value hvalue
  refine ⟨fill params template, ?_, ?_⟩
  · rw [loadSql, if_pos hparams]
    exact format_render htemplate.plain htemplate.names hcovered
  · rw [render, fill, splitStatements_flatMap (fun _ => rfl) hrender hquoted,
      splitStatements_flatMap (fun _ => rfl) hfill hquoted, mapM_eq_ok]
    have hkept := fun seg (hseg : seg ∈ templateSegments template) =>
      kept_congr (fun _ => rfl) (fun _ => rfl) hrender hfill hquoted hseg
    rw [List.filter_congr hkept, List.forall₂_map_left_iff, List.forall₂_map_right_iff,
      List.forall₂_same]
    intro seg hmem
    have hseg := List.mem_of_mem_filter hmem
    have hpieces : ∀ p ∈ stripPieces (seg.map Prod.fst), p ∈ template :=
      fun p hp => mem_of_mem_segment hseg (mem_of_mem_stripPieces hp)
    rw [strip_segment (fun _ => rfl) hquoted hseg, strip_segment (fun _ => rfl) hquoted hseg]
    exact format_render (fun c hc => htemplate.plain c (hpieces _ hc))
      (fun name hname => htemplate.names name (hpieces _ hname))
      (fun name hname => hcovered name (hpieces _ hname))

/-- `x='{uri}';y` -/
def endpointTemplate : List Piece :=
  [.char 'x', .char '=', .char '\'', .param ['u', 'r', 'i'], .char '\'', .char ';', .char 'y']

lemma isTemplate_endpointTemplate : IsTemplate endpointTemplate := by
  refine ⟨?_, ?_, ?_⟩
  · intro c hc
    simp only [endpointTemplate, List.mem_cons, Piece.char.injEq, reduceCtorEq, List.not_mem_nil,
      or_false, false_or] at hc
    rcases hc with rfl | rfl | rfl | rfl | rfl | rfl <;> decide
  · intro name hname
    simp only [endpointTemplate, List.mem_cons, Piece.param.injEq, reduceCtorEq, List.not_mem_nil,
      or_false, false_or] at hname
    obtain rfl := hname
    exact ⟨by simp, by simp⟩
  · intro before name behind hsplit
    have hplace : before = [.char 'x', .char '=', .char '\''] ∧
        behind = [.char '\'', .char ';', .char 'y'] := by
      simp [endpointTemplate, List.cons_eq_append_iff] at hsplit
      grind
    obtain ⟨rfl, rfl⟩ := hplace
    exact ⟨by decide, ['\''], [';', 'y'], rfl, by decide⟩

/-- A value with all that could end a statement. -/
theorem splitting_commutes_endpoint :
    ∃ text, loadSql (render endpointTemplate)
        (Dict.ofList [(['u', 'r', 'i'], [';', '-', '-', '/', '*', '\n'])]) = .ok text ∧
      (splitStatements (render endpointTemplate)).mapM
        (Text.format (Dict.ofList [(['u', 'r', 'i'], [';', '-', '-', '/', '*', '\n'])])) =
          .ok (splitStatements text) := by
  refine splitting_commutes _ _ isTemplate_endpointTemplate (by decide) ?_ ?_
  · intro name hname
    obtain rfl : name = ['u', 'r', 'i'] := by simpa [endpointTemplate] using hname
    exact ⟨_, rfl⟩
  · intro name value hvalue
    have hmem := Dict.mem_items_iff.mpr hvalue
    obtain ⟨-, rfl⟩ := Prod.mk.inj (List.mem_singleton.mp hmem)
    decide

end Ticksense
