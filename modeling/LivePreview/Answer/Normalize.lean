/-
From an answer to plain source text.

If the answer holds fenced code, the code is taken out and the prose is dropped.  Then
every marker is put into its plain form, a comment with the path alone.  Markers that
all name one file separate nothing and are dropped.
-/
import LivePreview.Answer.Fence

namespace LivePreview.Answer

/-- A marker line. -/
structure Marker where
  path : Text
  /-- number of its line, counted from 1 -/
  line : Nat
deriving DecidableEq, Repr

/-- Plain source text, and what was found on the way there. -/
structure Normalized where
  code : Text
  markers : List Marker
  isMultiFile : Bool
  /-- number of fenced blocks that were kept -/
  fenceBlocks : Nat
deriving DecidableEq, Repr

/-- The text without blank lines at both ends.  If anything is left, a newline ends it. -/
def trimBlankLines (text : Text) : Text :=
  let rows := ((Text.lines text).dropWhile Text.isBlankText).reverse.dropWhile Text.isBlankText
  if rows.isEmpty then [] else Text.join ['\n'] rows.reverse ++ ['\n']

/-- The text without a fence in its first and last line. -/
def trimFences (text : Text) : Text :=
  let isFence (line : Option Text) : Bool := (line.bind fence?).isSome
  let rows := Text.lines (trimBlankLines text)
  let rows := if isFence rows.head? then rows.tail else rows
  let rows := if isFence rows.getLast? then rows.dropLast else rows
  Text.join ['\n'] rows

/-- The markers among lines, the first of which has the number `n`. -/
def markersFrom : Nat → List Text → List Marker
  | _, [] => []
  | n, line :: rows =>
    match markerPath? line with
    | some path => ⟨path, n⟩ :: markersFrom (n + 1) rows
    | none => markersFrom (n + 1) rows

/-- True if two of the markers name different files. -/
def namesTwoFiles : List Marker → Bool
  | [] => false
  | m :: ms => ms.any fun other => other.path != m.path

/-- The plain form of a marker. -/
def markerLine (path : Text) : Text := "// ".toList ++ path

/-- A line with its marker in plain form, or without it. -/
def plainLine? (isMultiFile : Bool) (line : Text) : Option Text :=
  match markerPath? line with
  | some path => if isMultiFile then some (markerLine path) else none
  | none => some line

/-- Plain source text for an answer. -/
def normalize (raw : Text) : Normalized :=
  let text := Text.unifyNewlines raw
  let (code, fenceBlocks) := match blocks? text with
    | some blocks => (Text.unlines (blocks.flatMap Block.lines), blocks.length)
    | none => (trimFences text, 0)
  let rows := Text.lines code
  let markers := markersFrom 1 rows
  let isMultiFile := namesTwoFiles markers
  { code := trimBlankLines (Text.join ['\n'] (rows.filterMap (plainLine? isMultiFile)))
    markers := markers
    isMultiFile := isMultiFile
    fenceBlocks := fenceBlocks }

end LivePreview.Answer
