/-
Code without module statements.

There is no module loader where the code will run.  So imports go and are remembered
as bindings, `export` goes from in front of declarations, and what is exported as the
default is remembered by name.  A default export without a name gets one, since the
page has to mention it.

The forms of statements are removed one after the other, each over the whole text.
-/
import LivePreview.Module.Statement
import LivePreview.Text.LineStart

namespace LivePreview.Module

open Text (Piece)

/-- The name of the `n`th default export without one, counted from 1. -/
def anonymousName (n : Nat) : Text :=
  "DefaultExport".toList ++ if n ≤ 1 then [] else Text.ofNat n

/-- Code with names in front of later pieces. -/
structure Named where
  code : Text
  names : List Text
deriving DecidableEq, Repr

namespace Named

/-- The same with one more piece of text in front. -/
def prepend (text : Text) (n : Named) : Named := { n with code := text ++ n.code }

/-- The same with one more name in front. -/
def addName (name : Text) (n : Named) : Named := { n with names := name :: n.names }

end Named

/-- The word after which a class header goes on without a name. -/
def isMissing (name : Text) : Bool := name.isEmpty || name == "extends".toList

/-- Default declarations without `export default`, where `count` exports without a name
came before. -/
def nameDeclarations : Nat → List (Piece DefaultDeclaration) → Named
  | _, [] => ⟨[], []⟩
  | count, .passed c :: later => (nameDeclarations count later).prepend [c]
  | count, .found d :: later =>
    if isMissing d.name then
      let name := anonymousName (count + 1)
      let behind := if d.name.isEmpty then [] else ' ' :: d.name
      (nameDeclarations (count + 1) later).addName name
        |>.prepend (d.indent ++ Text.trimEnd d.head ++ ' ' :: name ++ behind)
    else
      (nameDeclarations count later).addName d.name
        |>.prepend (d.indent ++ d.head ++ d.gap ++ d.name)

/-- Default expressions without `export default`, where `count` exports without a name
came before.  One that only names a component is gone. -/
def nameExpressions : Nat → List (Piece DefaultExpression) → Named
  | _, [] => ⟨[], []⟩
  | count, .passed c :: later => (nameExpressions count later).prepend [c]
  | count, .found d :: later =>
    match d.reference with
    | some name => (nameExpressions count later).addName name
    | none =>
      let name := anonymousName (count + 1)
      (nameExpressions (count + 1) later).addName name
        |>.prepend (d.indent ++ "const ".toList ++ name ++ " = ".toList)

/-- Code without module statements, and what they said. -/
structure Stripped where
  code : Text
  /-- the names exported as the default -/
  defaultExports : List Text
  imports : List Import
deriving DecidableEq, Repr

/-- The text without what `find` finds, and the findings. -/
def remove {α : Type} (find : Text → Option (α × Text)) (s : Text) : Text × List α :=
  (Text.replaceFindings find (fun _ => []) s, Text.findings find s)

/-- Remove the module statements of a text. -/
def strip (code : Text) : Stripped :=
  let (code, required) := remove importRequire? code
  let (code, imported) := remove importFrom? code
  let (code, loaded) := remove importSource? code
  let (code, listed) := remove exportList? code
  let (code, _) := remove exportStar? code
  let (code, assigned) := remove exportAssign? code
  let declarations := Text.pieces defaultDeclaration? code
  let declared := nameDeclarations 0 declarations
  let unnamed := (declarations.filterMap Piece.finding?).countP fun d => isMissing d.name
  let expressed := nameExpressions unnamed (Text.pieces defaultExpression? declared.code)
  { code := Text.replaceFindings exportedDeclaration? id expressed.code
    defaultExports := listed.flatten ++ assigned ++ declared.names ++ expressed.names
    imports := required ++ imported ++ loaded }

/-- The lines that still start like an import or export. -/
def remainingStatements (code : Text) : List Text :=
  Text.findings (fun s =>
    if looksLikeStatement s then some (Text.trim (Text.firstLine s), Text.skipLine s)
    else none) code

end LivePreview.Module
