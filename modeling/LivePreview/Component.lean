/-
The component that a page mounts.

Sources of a name are tried in tiers: default exports, function bindings, functions,
component classes, the name of the file, and at last a given name.  Within a tier the
last candidate wins, because the root file of an application comes last.
-/
import LivePreview.Declaration.Basic
import LivePreview.Script.Word
import LivePreview.SourceFile.Basic

namespace LivePreview

open Script

/-- Where the name of a component was found. -/
inductive ComponentSource where
  | exportDefault
  | declaredConst
  | declaredFunction
  | declaredClass
  | filename
  | fallback
deriving DecidableEq, Repr

/-- The name of a source. -/
def ComponentSource.name : ComponentSource → String
  | exportDefault => "export-default"
  | declaredConst => "declared-const"
  | declaredFunction => "declared-function"
  | declaredClass => "declared-class"
  | filename => "filename"
  | fallback => "fallback"

/-- The component to mount. -/
structure Component where
  name : Text
  source : ComponentSource
deriving DecidableEq, Repr

namespace Component

/-! ### Names of files -/

/-- Names of files that say nothing about what is in them. -/
def ignoredStems : List Text := ["index", "main", "preamble"].map String.toList

/-- The name of a file without its directories and extension. -/
def stemOf (filename : Text) : Text :=
  let base := pathBase filename
  let stem := match Text.cutLast '.' base with
    | some (c :: front, _) => c :: front
    | _ => base
  if SourceFile.endsWith ".d".toList stem then stem.dropLast.dropLast else stem

/-- True between the words of the name of a file. -/
def separatesWords (c : Char) : Bool := c == '-' || c == '_' || c == '.' || isSpace c

/-- A word that starts with a capital. -/
def capitalize : Text → Text
  | [] => []
  | c :: w => Text.capital c ++ w

/-- The words of the name of a file, each with a capital, if they make an identifier. -/
def ofFilename? (filename : Text) : Option Text :=
  let stem := stemOf filename
  if ignoredStems.contains (Text.lowerAscii stem) then none
  else
    let name := (Text.splitBy separatesWords stem).flatMap capitalize
    if isIdentifier name then some name else none

/-! ### The tiers -/

/-- The name that is mounted if nothing else is known. -/
def defaultName : Text := "App".toList

/-- The last declaration of a kind whose name starts with a capital. -/
def lastOf? (kind : DeclarationKind) (declarations : List Declaration) : Option Text :=
  (declarations.reverse.find? fun d => d.kind == kind && d.name.head?.any isAsciiCapital).map
    Declaration.name

/-- The last name that is an identifier. -/
def lastIdentifier? (names : List Text) : Option Text := names.reverse.find? isIdentifier

/-- The given name, or the default if it is no identifier. -/
def fallbackName (fallback : Text) : Text :=
  if isIdentifier (Text.trim fallback) then Text.trim fallback else defaultName

/-- The component to mount. -/
def resolve (declarations : List Declaration) (defaultExports : List Text)
    (filename : Option Text) (fallback : Text) : Component :=
  let tiers : List (Option Text × ComponentSource) :=
    [(lastIdentifier? defaultExports, .exportDefault),
      (lastOf? .functionBinding declarations, .declaredConst),
      (lastOf? .function declarations, .declaredFunction),
      (lastOf? (.classDecl true) declarations, .declaredClass),
      (filename.bind ofFilename?, .filename)]
  match tiers.findSome? fun (name, source) => name.map fun n => Component.mk n source with
  | some component => component
  | none => ⟨fallbackName fallback, .fallback⟩

end Component

end LivePreview
