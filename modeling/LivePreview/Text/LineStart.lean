/-
Findings at line starts.

`findings` goes over a text once.  At the start of each line it asks whether something
is found there; if so it goes on behind what was found, otherwise it passes over one
character.  So findings never overlap, and one that ends in the middle of a line leaves
the rest of that line alone.

The number of characters that a finding still covers is an argument, which makes the
recursion one on the text itself.
-/
import LivePreview.Text.Basic

namespace LivePreview.Text

/-- What going over a text yields: a character that was passed over, or a finding. -/
inductive Piece (α : Type) where
  | passed (c : Char)
  | found (a : α)

namespace Piece

variable {α : Type}

/-- The finding, if the piece is one. -/
def finding? : Piece α → Option α
  | passed _ => none
  | found a => some a

/-- The text of a piece, where `write` is the text for a finding. -/
def text (write : α → Text) : Piece α → Text
  | passed c => [c]
  | found a => write a

end Piece

variable {α : Type}

/-- The pieces of a text.  `atStart` tells that a line starts here, and `covered` is the
number of characters here that belong to the last finding. -/
def piecesFrom (find : Text → Option (α × Text)) : Bool → Nat → Text → List (Piece α)
  | _, _, [] => []
  | _, covered + 1, c :: s => piecesFrom find (c == '\n') covered s
  | atStart, 0, c :: s =>
    match if atStart then find (c :: s) else none with
    | some (a, rest) => .found a :: piecesFrom find (c == '\n') (s.length - rest.length) s
    | none => .passed c :: piecesFrom find (c == '\n') 0 s

/-- The pieces of a text. -/
def pieces (find : Text → Option (α × Text)) (s : Text) : List (Piece α) :=
  piecesFrom find true 0 s

/-- The findings of a text, first one first. -/
def findings (find : Text → Option (α × Text)) (s : Text) : List α :=
  (pieces find s).filterMap Piece.finding?

/-- The text with every finding replaced by what `write` says. -/
def replaceFindings (find : Text → Option (α × Text)) (write : α → Text) (s : Text) : Text :=
  (pieces find s).flatMap (Piece.text write)

/-- True if some line of the text starts with what `test` looks for. -/
def anyLineStart (test : Text → Bool) (s : Text) : Bool :=
  !(findings (fun t => if test t then some ((), t.drop 1) else none) s).isEmpty

end LivePreview.Text
