/-
Programs as syntax trees.

Here the readers are tied together: level `n + 1` reads what stands further in with
level `n`.  Going one level in twice takes at least one character, so twice as many
levels as characters are more than a text can need.
-/
import LivePreview.Program.Statement

namespace LivePreview.Program

open Reader

/-- The readers one level further out. -/
def Inner.around (inner : Inner) : Inner :=
  { assignment := readAssignment inner
    leftHand := readLeftHand inner
    pattern := readPattern inner
    statement := readStatement inner
    element := readElement inner }

/-- The readers that go `n` levels in. -/
def Inner.level (n : Nat) : Inner := n.repeat Inner.around Inner.nothing

/-- The text without a first line that names an interpreter. -/
def skipInterpreter : Text → Text
  | '#' :: '!' :: s => s.dropWhile fun c => !endsLine c
  | s => s

/-- Statements up to the end of the text. -/
def statementsToEnd (inner : Inner) : Reader (List Statement) :=
  many do
    match ← ahead with
    | (_, .eof, _) => return none
    | _ => return some (← inner.statement {} true)

/-- True if no name is exported twice. -/
def exportsOnce (statements : List Statement) : Bool :=
  let names := statements.flatMap Statement.exportedNames
  names.eraseDups.length == names.length

/-- The statements of a program, if the text is one. -/
def parse? (code : Text) : Option (List Statement) :=
  (((statementsToEnd (Inner.level (2 * code.length + 8))).run (skipInterpreter code)).map
    Prod.fst).filter exportsOnce

end LivePreview.Program
