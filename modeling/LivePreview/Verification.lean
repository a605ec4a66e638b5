/-
What processed code turns out to be.

Code that went through all passes should be a plain script: it parses and holds no
module statement.  Its declarations are read off its syntax tree, or, where it has none,
found by going over the text.
-/
import LivePreview.Declaration.Collect
import LivePreview.Declaration.Scan
import LivePreview.Module.Strip
import LivePreview.Platform

namespace LivePreview

/-- What was found out about processed code. -/
structure Verification where
  parsed : Bool
  /-- what the parser says of code that it does not accept -/
  parseErrors : List Text
  /-- the lines that still look like module statements -/
  moduleStatements : List Text
  /-- the names declared at the top level, in order -/
  declarations : List Declaration
deriving DecidableEq, Repr

namespace Verification

/-- True if the code is a plain script. -/
def isClean (v : Verification) : Bool := v.parsed && v.moduleStatements.isEmpty

/-- The declared names, each once. -/
def symbols (v : Verification) : List Text := (v.declarations.map Declaration.name).eraseDups

end Verification

/-- Verify processed code. -/
def verify [Platform] (code : Text) : Verification :=
  let statements := Module.remainingStatements code
  match Platform.parseScript code with
  | .ok program => ⟨true, [], statements, Declaration.ofProgram program⟩
  | .error messages => ⟨false, messages, statements, Declaration.scan code⟩

end LivePreview
