/-
Module statements in any layout.

The language leaves the layout of a statement free: between two words and signs of it there can be
blanks of any kind, comments, or nothing at all, and more of the program can stand on its line.  The
readers of statements are not that free.  A program of this file is a list of lines in this wider
sense: a line starts with statements that can be taken out, each with what ends it, and goes on with
a statement that only loses its first words, with text that is no module statement, or not at all.
All further lines of text that belong to it start with neither import nor export.  `isRead` says of
a statement if its reader takes it as it is laid out, and `left` what is left of a program.
-/
import LivePreview.Proofs.Module.StatementReading

namespace LivePreview.Module

open Script
open Text (LineEnds linesAvoid)

/-! ### Lines of modules -/

/-- True if `import` is called or asked for its properties, as an ordinary expression does, perhaps
behind a comment. -/
def callsImport (line : Text) : Bool :=
  match afterImport? line with
  | some rest => (Text.skipInline rest).head?.any fun c => c == '(' || c == '.' || c == '/'
  | none => false

/-- True if a line starts as a module statement does and no other. -/
def opensModule (line : Text) : Bool := opensStatement line && !callsImport line

/-- The lines behind the first one that look like module statements. -/
def remainingLater (s : Text) : List Text := remainingStatements ((Text.skipLine s).drop 1)

namespace Layout

/-! ### Parts of statements -/

/-- A character that opens a comment, or a blank of the language that no reader takes for one. -/
def isOdd (c : Char) : Bool := c == '/' || c == '\uFEFF'

/-- What stands between two words or signs: blanks, and perhaps comments. -/
structure Gap where
  text : Text
  odd : ∀ c ∈ (Text.skipSpaces text).head?, isOdd c = true

/-- True if there are blanks only. -/
def Gap.isBlank (g : Gap) : Bool := Text.isBlankText g.text

/-- True if there is a blank, and blanks only. -/
def Gap.isWide (g : Gap) : Bool := !g.text.isEmpty && g.isBlank

/-- The name of a module between quotes, up to the first quote or line end. -/
structure Source where
  quote : Char
  name : Text
  closing : Char
  isQuote : isQuote quote = true
  isSource : name.all isSourceChar = true
  closes : isSourceChar closing = false

/-- The name of a module with its quotes. -/
def Source.text (s : Source) : Text := s.quote :: (s.name ++ [s.closing])

/-- True if there is a name and both quotes stand on one line. -/
def Source.isRead (s : Source) : Bool := !s.name.isEmpty && Script.isQuote s.closing

/-- All that stands between `import` and `from`.  A first character that readers do not know in
this place is no equals sign, and a quote there opens a name in a list. -/
structure Binding where
  text : Text
  odd : ∀ u d t, text = u ++ d :: t → (∀ c ∈ u, isClauseChar c = true) → isClauseChar d = false →
    d ≠ '=' ∧ (Script.isQuote d = true →
      (Text.trimEnd u).getLast? = some '{' ∨ (Text.trimEnd u).getLast? = some ',')

/-- True if there is a blank in front, and no comment and no name in quotes. -/
def Binding.isRead (b : Binding) : Bool := b.text.head?.any isSpace && b.text.all isClauseChar

/-- `from` and a source behind a list, where a reader sees them. -/
structure FromSource where
  before : Text
  behind : Text
  source : Source
  blankBefore : Text.isBlankText before = true
  blankBehind : Text.isBlankText behind = true
  isRead : source.isRead = true

/-- The text of `from` and a source. -/
def FromSource.text (f : FromSource) : Text :=
  f.before ++ ("from".toList ++ (f.behind ++ f.source.text))

/-- A name behind `as`: a word, or a text between quotes. -/
structure AliasName where
  text : Text
  ne_nil : text ≠ []
  starts : (∀ c ∈ text, isSpace c = false) ∨ ∃ c ∈ text.head?, Script.isQuote c = true

/-- What stands between `*` and `from`. -/
inductive Alias where
  | absent (gap : Gap)
  | given (before : Gap) (behind : Gap) (name : AliasName) (gap : Gap)

/-- The text between `*` and `from`. -/
def Alias.text : Alias → Text
  | absent gap => gap.text
  | given before behind name gap =>
    before.text ++ ("as".toList ++ (behind.text ++ (name.text ++ gap.text)))

/-- True if there is a blank around each word, no comment and no quote. -/
def Alias.isRead : Alias → Bool
  | absent gap => gap.isWide
  | given before behind name gap =>
    before.isWide && behind.isWide && name.text.all isNameChar && gap.isWide

/-! ### Statements that are taken out -/

/-- The forms of statements that are taken out, in the order of their passes. -/
inductive Form where
  | importFrom
  | importSource
  | exportList
  | exportAll
deriving DecidableEq

/-- How many passes for other forms come before. -/
def Form.rank : Form → Nat
  | importFrom => 0
  | importSource => 1
  | exportList => 2
  | exportAll => 3

/-- Statements that are taken out. -/
inductive Whole where
  | importFrom (binding : Binding) (gap : Gap) (source : Source)
  | importSource (gap : Gap) (source : Source)
  | exportList (gap : Gap) (list : Text) (source : Option FromSource) (inBraces : '}' ∉ list)
  | exportAll (gap : Gap) (renamed : Alias) (behind : Gap) (source : Source)

namespace Whole

/-- The text of a statement. -/
def text : Whole → Text
  | importFrom binding gap source =>
    "import".toList ++ (binding.text ++ ("from".toList ++ (gap.text ++ source.text)))
  | importSource gap source => "import".toList ++ (gap.text ++ source.text)
  | exportList gap list source _ =>
    "export".toList ++ (gap.text ++ '{' :: (list ++ '}' :: (source.map FromSource.text).getD []))
  | exportAll gap renamed behind source =>
    "export".toList ++ (gap.text ++ '*' :: (renamed.text ++
      ("from".toList ++ (behind.text ++ source.text))))

/-- The form of a statement. -/
def form : Whole → Form
  | importFrom .. => .importFrom
  | importSource .. => .importSource
  | exportList .. => .exportList
  | exportAll .. => .exportAll

/-- True if the reader of its form takes the statement. -/
def isRead : Whole → Bool
  | importFrom binding gap source => binding.isRead && gap.isBlank && source.isRead
  | importSource gap source => gap.isBlank && source.isRead
  | exportList gap _ _ _ => gap.isWide
  | exportAll gap renamed behind source =>
    gap.isWide && renamed.isRead && behind.isBlank && source.isRead

end Whole

/-- A statement that is taken out, and what ends it. -/
structure Head where
  statement : Whole
  before : Text
  semicolon : Bool
  behind : Text
  inlineBefore : before.all isInline = true
  inlineBehind : behind.all isInline = true

/-- What ends a statement. -/
def Head.ending (h : Head) : Text := h.before ++ (Module.semicolon h.semicolon ++ h.behind)

/-- The text of a statement with what ends it. -/
def Head.text (h : Head) : Text := h.statement.text ++ h.ending

/-! ### Statements that lose their first words -/

/-- What is exported as the default.  It does not end in the middle of the head of a function. -/
structure Value where
  text : Text
  starts : text.head?.any (!isSpace ·) = true
  complete : ∀ e, LineEnds e → afterDefaultHead? (text ++ e) = (afterDefaultHead? text).map (· ++ e)

/-- The words that open a declaration that can be exported. -/
inductive Opening where
  | function
  | const
  | let
  | var
  | classDecl
  | async (gap : Gap)

/-- The text of the words that open a declaration. -/
def Opening.text : Opening → Text
  | function => "function".toList
  | const => "const".toList
  | .let => "let".toList
  | var => "var".toList
  | classDecl => "class".toList
  | async gap => "async".toList ++ (gap.text ++ "function".toList)

/-- True if there is no comment in it, and a blank between two words. -/
def Opening.isRead : Opening → Bool
  | async gap => gap.isWide
  | _ => true

/-- Statements that lose their first words. -/
inductive Front where
  | default (gap : Gap) (blanks : Text) (value : Value) (blank : Text.isBlankText blanks = true)
  | declaration (gap : Gap) (opening : Opening) (tail : Text) (ends : Text.wordEnds tail = true)

namespace Front

/-- The text of a statement. -/
def text : Front → Text
  | default gap blanks value _ =>
    "export".toList ++ (gap.text ++ ("default".toList ++ (blanks ++ value.text)))
  | declaration gap opening tail _ => "export".toList ++ (gap.text ++ (opening.text ++ tail))

/-- True if the readers of its form see the statement. -/
def isRead : Front → Bool
  | default gap blanks _ _ => gap.isWide && !blanks.isEmpty
  | declaration gap opening _ _ => gap.isWide && opening.isRead

/-- What is left of a statement that is seen: lines behind its first words that look like module
statements and are none. -/
def left : Front → List Text
  | default _ _ value _ => remainingLater value.text
  | declaration _ opening tail _ => remainingLater (opening.text ++ tail)

end Front

/-! ### Lines -/

/-- What a line ends with. -/
inductive Rest where
  | ended (carriageReturn : Bool)
  | plain (text : Text) (avoids : linesAvoid opensModule true text = true)
    (notFrom : Text.isBlankText text = true ∨ ∀ e, LineEnds e → fromSource? (text ++ e) = none)
  | front (statement : Front)

namespace Rest

/-- The text that a line ends with. -/
def text : Rest → Text
  | ended carriageReturn => if carriageReturn then ['\r'] else []
  | plain text _ _ => text
  | front statement => statement.text

/-- True if nothing but the end of the line is left. -/
def isEnd : Rest → Bool
  | ended _ => true
  | _ => false

/-- True of text that does not end the line, or the statement, that stands in front. -/
def goesOn (semicolon : Bool) : Text → Bool
  | [] => false
  | '\r' :: '\n' :: _ => false
  | ['\r'] => false
  | c :: _ => !isInline c && c != '\n' && (semicolon || c != ';')

/-- True if a statement can stand in front on the line, where `semicolon` tells if one ends it. -/
def joins (semicolon : Bool) : Rest → Bool
  | plain text _ _ => goesOn semicolon text
  | _ => true

/-- True if nothing is left of it that looks like a module statement. -/
def isClear : Rest → Bool
  | ended _ => true
  | plain text _ _ => (remainingStatements text).isEmpty
  | front statement => statement.isRead && statement.left.isEmpty

end Rest

/-- The text of the statements that a line starts with. -/
def headsText (heads : List Head) : Text := heads.flatMap Head.text

/-- A line. -/
structure Line where
  indent : Text
  heads : List Head
  last : Rest
  inline : indent.all isInline = true
  avoids : linesAvoid opensModule false (indent ++ (headsText heads ++ last.text)) = true
  joins : ∀ h ∈ heads.getLast?, last.joins h.semicolon = true

namespace Line

/-- The text of a line. -/
def text (l : Line) : Text := l.indent ++ (headsText l.heads ++ l.last.text)

theorem avoids_tail (l : Line) :
    linesAvoid opensModule false ([] ++ (headsText l.heads.tail ++ l.last.text)) = true := by
  have htext : ∃ front, l.indent ++ (headsText l.heads ++ l.last.text)
      = front ++ (headsText l.heads.tail ++ l.last.text) := by
    cases l.heads with
    | nil => exact ⟨l.indent, rfl⟩
    | cons h hs => exact ⟨l.indent ++ h.text, by simp only [headsText, List.flatMap_cons,
        List.append_assoc, List.tail_cons]⟩
  obtain ⟨front, htext⟩ := htext
  have havoids := l.avoids
  rw [htext] at havoids
  exact Text.linesAvoid_false (Text.linesAvoid_behind havoids)

theorem joins_tail (l : Line) : ∀ h ∈ l.heads.tail.getLast?, l.last.joins h.semicolon = true := by
  intro h hmem
  refine l.joins h ?_
  cases hheads : l.heads with
  | nil =>
    rw [hheads] at hmem
    cases hmem
  | cons first hs =>
    rw [hheads, List.tail_cons] at hmem
    rw [List.getLast?_cons, Option.mem_def.mp hmem]
    rfl

/-- The line behind its first statement. -/
def tail (l : Line) : Line := ⟨[], l.heads.tail, l.last, rfl, l.avoids_tail, l.joins_tail⟩

/-- True if a line ends behind its first statement. -/
def endsThere (l : Line) : Bool := l.heads.tail.isEmpty && l.last.isEnd

/-- What is left of a line if its first statement is taken out where `takes` says so; `none` if the
line ends there. -/
def passBy (takes : Whole → Bool) (l : Line) : Option Line :=
  match l.heads with
  | [] => some l
  | h :: _ =>
    if takes h.statement then
      if l.endsThere then none else some l.tail
    else some l

/-- What is left of a line behind the passes that take statements out. -/
def left (l : Line) : List Text :=
  match l.heads, l.last with
  | [], .front statement => if statement.isRead then statement.left else remainingStatements l.text
  | _, _ => remainingStatements l.text

/-- True if each statement is seen by its reader, and those at the start of the line come in the
order of their passes, one of each form. -/
def isRead (l : Line) : Prop :=
  (∀ h ∈ l.heads, h.statement.isRead = true) ∧
    (l.heads.map fun h => h.statement.form.rank).Pairwise (· < ·) ∧ l.last.isClear = true

end Line

/-- A program: lines, and a last one that no newline ends. -/
structure Program where
  closed : List Line
  last : Line

namespace Program

/-- The text of lines, the last of which no newline ends. -/
def linesText (closed : List Line) (last : Line) : Text :=
  closed.flatMap (fun l => l.text ++ ['\n']) ++ last.text

/-- The text of a program. -/
def text (p : Program) : Text := linesText p.closed p.last

/-- The lines of a program. -/
def lines (p : Program) : List Line := p.closed ++ [p.last]

/-- What is left of a program if every line loses its first statement where `takes` says so. -/
def passBy (takes : Whole → Bool) (p : Program) : Program :=
  ⟨p.closed.filterMap (Line.passBy takes), (p.last.passBy takes).getD p.last.tail⟩

/-- What the pass for one form leaves of a program. -/
def pass (f : Form) (p : Program) : Program := p.passBy fun w => w.form = f && w.isRead

/-- What is left of a program.  A line loses its first statement in the pass for its form, if the
reader takes it.  What stands behind it comes to the start of the line, for the passes that
follow. -/
def left (p : Program) : List Text :=
  ((((p.pass .importFrom).pass .importSource).pass .exportList).pass .exportAll).lines.flatMap
    Line.left

end Program

end Layout

end LivePreview.Module
