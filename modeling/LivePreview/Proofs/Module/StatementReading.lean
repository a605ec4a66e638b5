/-
What the readers of module statements find in a statement.

Each reader starts with `import` or `export`, so it finds nothing in lines that start with
neither.  Of the statements that start with the right word, it finds the one form that it is
made for and takes it with the end of its line; what follows a line end is never looked at,
but for a `from` behind a list of exports.
-/
import LivePreview.Proofs.Module.StatementText

namespace LivePreview.Module

open Script
open Text (LineEnds linesAvoid Stops)

variable {s t e w : Text}

/-! ### Characters -/

theorem isNameChar_of_isIdentChar {c : Char} (h : isIdentChar c = true) : isNameChar c = true := by
  simp only [isIdentChar, isIdentStart, Bool.or_eq_true, beq_iff_eq] at h
  unfold isNameChar isWordChar
  rcases h with ((hletter | rfl) | rfl) | hdigit
  · rw [hletter]
    rfl
  · rfl
  · rfl
  · rw [hdigit, Bool.or_true]
    rfl

theorem isQuote_eq_false_of_isIdentChar {c : Char} (h : isIdentChar c = true) :
    isQuote c = false := by
  by_contra hq
  simp only [isQuote, Bool.not_eq_false, Bool.or_eq_true, beq_iff_eq] at hq
  rcases hq with rfl | rfl <;> exact absurd h (by decide)

/-! ### Where no statement starts -/

/-- Behind the letters of a word that is not there, an identifier goes on. -/
theorem exists_cons_of_not_startsWord {r : Text} (h : startsWord w s = false)
    (hr : Text.after? w s = some r) : ∃ c t, r = c :: t ∧ isIdentChar c = true := by
  rw [startsWord, hr] at h
  cases r with
  | nil => exact absurd h (by decide)
  | cons c t => exact ⟨c, t, rfl, by simpa using h⟩

theorem spaces?_bind_eq_none (h : startsWord w s = false) :
    (Text.after? w s).bind Text.spaces? = none := by
  cases hr : Text.after? w s with
  | none => rfl
  | some r =>
    obtain ⟨c, t, rfl, hc⟩ := exists_cons_of_not_startsWord h hr
    simp [Text.spaces?, isSpace_eq_false_of_isIdentChar hc]

theorem skipSpaces_of_stops (h : Stops isSpace s) : Text.skipSpaces s = s :=
  Text.dropWhile_of_stops h

theorem skipSpaces_cons {c : Char} (h : isSpace c = false) : Text.skipSpaces (c :: s) = c :: s :=
  skipSpaces_of_stops (Text.stops_cons.mpr h)

/-- The name of a module starts with a quote. -/
theorem source?_eq_none {c : Char} (h : isQuote c = false) : source? (c :: s) = none := by
  simp only [source?, h, Bool.false_and, Bool.false_eq_true, if_false]
  split <;> rfl

section

variable (h : opensStatement s = false)

include h

theorem startsWord_import : startsWord "import".toList (Text.skipInline s) = false :=
  (Bool.or_eq_false_iff.mp h).1

theorem startsWord_export : startsWord "export".toList (Text.skipInline s) = false :=
  (Bool.or_eq_false_iff.mp h).2

theorem afterImport_spaces?_eq_none : (afterImport? s).bind Text.spaces? = none :=
  spaces?_bind_eq_none (startsWord_import h)

theorem importRequire?_eq_none : importRequire? s = none := by
  rw [importRequire?, afterImport_spaces?_eq_none h]
  rfl

theorem importFrom?_eq_none : importFrom? s = none := by
  rw [importFrom?, afterImport_spaces?_eq_none h]
  rfl

theorem importSource?_eq_none : importSource? s = none := by
  unfold importSource? afterImport?
  cases hr : Text.after? "import".toList (Text.skipInline s) with
  | none => rfl
  | some r =>
    obtain ⟨c, t, rfl, hc⟩ := exists_cons_of_not_startsWord (startsWord_import h) hr
    simp [skipSpaces_cons (isSpace_eq_false_of_isIdentChar hc),
      source?_eq_none (isQuote_eq_false_of_isIdentChar hc)]

theorem afterExport_spaces?_eq_none : (afterExport? s).bind Text.spaces? = none :=
  spaces?_bind_eq_none (startsWord_export h)

theorem exportList?_eq_none : exportList? s = none := by
  rw [exportList?, afterExport_spaces?_eq_none h]
  rfl

theorem exportStar?_eq_none : exportStar? s = none := by
  rw [exportStar?, afterExport_spaces?_eq_none h]
  rfl

theorem exportAssign?_eq_none : exportAssign? s = none := by
  unfold exportAssign? afterExport?
  cases hr : Text.after? "export".toList (Text.skipInline s) with
  | none => rfl
  | some r =>
    obtain ⟨c, t, rfl, hc⟩ := exists_cons_of_not_startsWord (startsWord_export h) hr
    have hne : '=' ≠ c := by
      rintro rfl
      exact absurd hc (by decide)
    simp [skipSpaces_cons (isSpace_eq_false_of_isIdentChar hc), Text.after?, hne]

theorem afterExportDefault?_eq_none : afterExportDefault? s = none := by
  rw [afterExportDefault?, afterExport_spaces?_eq_none h]
  rfl

theorem defaultDeclaration?_eq_none : defaultDeclaration? s = none := by
  rw [defaultDeclaration?, afterExportDefault?_eq_none h]
  rfl

theorem defaultExpression?_eq_none : defaultExpression? s = none := by
  rw [defaultExpression?, afterExportDefault?_eq_none h]
  rfl

theorem exportedDeclaration?_eq_none : exportedDeclaration? s = none := by
  rw [exportedDeclaration?, afterExport_spaces?_eq_none h]
  rfl

end

/-! ### Statements do not look behind the end of their line -/

/-- A character that is in no word ends one. -/
theorem startsWord_append_cons {d : Char} (hd : d ∉ w) (hident : isIdentChar d = false) :
    startsWord w (s ++ d :: t) = startsWord w s := by
  unfold startsWord
  rw [Text.after?_append_cons hd]
  cases Text.after? w s with
  | none => rfl
  | some r =>
    cases r with
    | nil => simp [hident]
    | cons c r => rfl

theorem startsWord_append (he : LineEnds e) (hw : '\n' ∉ w) :
    startsWord w (s ++ e) = startsWord w s := by
  cases he with
  | nil => rw [List.append_nil]
  | newline t => exact startsWord_append_cons hw rfl

theorem skipInline_append (he : LineEnds e) :
    Text.skipInline (s ++ e) = Text.skipInline s ++ e :=
  Text.dropWhile_append_of_stops (he.stops (by decide))

theorem opensStatement_append (he : LineEnds e) : opensStatement (s ++ e) = opensStatement s := by
  unfold opensStatement
  rw [skipInline_append he, startsWord_append he (by decide), startsWord_append he (by decide)]

theorem heeds_of_eq_none {α : Type} {find : Text → Option (α × Text)}
    (h : ∀ {t}, opensStatement t = false → find t = none) : Text.Heeds opensStatement find :=
  ⟨h, opensStatement_append, rfl⟩

/-! ### Ends of statements -/

/-- What stands behind a statement: the end of a line, and no `from` that could belong to a list
of exports. -/
structure Follows (e : Text) : Prop where
  lineEnds : LineEnds e
  noSource : fromSource? e = none

theorem skipEnd_semicolon (semi : Bool) (he : LineEnds e) : skipEnd (semicolon semi ++ e) = e.tail := by
  cases semi <;> cases he <;> rfl

/-! ### Names of modules -/

theorem SourceName.quote_cases (source : SourceName) :
    source.quote = '"' ∨ source.quote = '\'' := by
  have hquote := source.isQuote
  simp only [Script.isQuote, Bool.or_eq_true, beq_iff_eq] at hquote
  exact hquote

theorem SourceName.ne_of_quote (source : SourceName) {c : Char} (h : Script.isQuote c = false) :
    source.quote ≠ c := by
  rintro rfl
  rw [source.isQuote] at h
  exact Bool.noConfusion h

theorem SourceName.text_append (source : SourceName) (s : Text) :
    source.text ++ s = source.quote :: (source.name ++ source.quote :: s) := by
  simp [SourceName.text]

theorem isNameChar_quote (source : SourceName) : isNameChar source.quote = false := by
  rcases source.quote_cases with h | h <;> rw [h] <;> rfl

theorem source?_text (source : SourceName) (rest : Text) :
    source? (source.text ++ rest) = some (source.name, rest) := by
  have hquote : isSourceChar source.quote = false := by simp [isSourceChar, source.isQuote]
  have hstop : Stops isSourceChar (source.quote :: rest) := Text.stops_cons.mpr hquote
  have hname : ∀ c ∈ source.name, isSourceChar c = true := List.all_eq_true.mp source.isSource
  have hne : source.name.isEmpty = false := by simpa using source.ne_nil
  rw [source.text_append, source?, Text.takeWhile_append hname hstop, Text.dropWhile_append hname hstop]
  simp [source.isQuote, hne]

theorem isSpace_eq_false_of_isQuote {c : Char} (h : isQuote c = true) : isSpace c = false := by
  simp only [isQuote, Bool.or_eq_true, beq_iff_eq] at h
  rcases h with rfl | rfl <;> rfl

theorem skipSpaces_source (source : SourceName) (rest : Text) :
    Text.skipSpaces (source.text ++ rest) = source.text ++ rest :=
  skipSpaces_cons (isSpace_eq_false_of_isQuote source.isQuote)

theorem fromSource?_from (source : SourceName) (rest : Text) :
    fromSource? ("from ".toList ++ (source.text ++ rest)) = some (source.name, rest) := by
  show source? (Text.skipSpaces (source.text ++ rest)) = _
  rw [skipSpaces_source, source?_text]

/-- A name is read up to a character that no name has. -/
theorem name?_identifier (x : Identifier) (hs : Stops isNameChar s) :
    name? (x.text ++ s) = some (x.text, s) := by
  have hword := isWord_of_isIdentifier x.isIdentifier
  have hname : ∀ c ∈ x.text, isNameChar c = true :=
    fun c hc => isNameChar_of_isIdentChar (hword.identChars c hc)
  have hne : x.text.isEmpty = false := by simpa using hword.ne_nil
  rw [name?, Text.takeWhile_append hname hs, Text.dropWhile_append hname hs, hne]
  rfl

theorem skipSpaces_identifier (x : Identifier) (s : Text) :
    Text.skipSpaces (x.text ++ s) = x.text ++ s := by
  refine skipSpaces_of_stops ?_
  have hword := isWord_of_isIdentifier x.isIdentifier
  cases hx : x.text with
  | nil => exact absurd hx hword.ne_nil
  | cons c w =>
    have hc : c ∈ x.text := by simp [hx]
    exact Text.stops_cons.mpr (isSpace_eq_false_of_isIdentChar (hword.identChars c hc))

theorem stops_semicolon {p : Char → Bool} (semi : Bool) (he : LineEnds e) (hsemi : p ';' = false)
    (hnewline : p '\n' = false) : Stops p (semicolon semi ++ e) := by
  cases semi with
  | true => exact Text.stops_cons.mpr hsemi
  | false => exact he.stops hnewline

/-! ### Readers and statements -/

/-- The reader finds nothing in the statement. -/
def Leaves {α : Type} (find : Text → Option (α × Text)) (s : Statement) : Prop :=
  ∀ e, Follows e → find (s.text ++ e) = none

/-- The reader finds the statement, as `a`, and takes it with the end of its line. -/
def TakesAs {α : Type} (find : Text → Option (α × Text)) (s : Statement) (a : α) : Prop :=
  ∀ e, Follows e → find (s.text ++ e) = some (a, e.tail)

/-- The reader finds the statement as something. -/
def Takes {α : Type} (find : Text → Option (α × Text)) (s : Statement) : Prop :=
  ∀ e, Follows e → ∃ a, find (s.text ++ e) = some (a, e.tail)

theorem opensStatement_of_linesAvoid (h : linesAvoid opensStatement true s = true) :
    opensStatement s = false := Text.test_of_linesAvoid rfl h

theorem leaves_plain {α : Type} {find : Text → Option (α × Text)}
    (h : ∀ {t}, opensStatement t = false → find t = none) (lines : PlainLines) :
    Leaves find (.plain lines) := by
  intro e he
  refine h ?_
  show opensStatement (lines.text ++ e) = false
  rw [opensStatement_append he.lineEnds]
  exact opensStatement_of_linesAvoid lines.avoids

end LivePreview.Module
