/-
Which files take part.

Stylesheets, data and documentation are left out by their extension, ambient
declarations as well.  An entry file that only mounts the application is left out
because the page mounts the component itself.  Of the others, those stay that declare
something that exists when the code runs.
-/
import LivePreview.SourceFile.Basic
import LivePreview.Text.LineStart

namespace LivePreview

/-- Why a file takes no part. -/
inductive Rejection where
  /-- a stylesheet, data or documentation -/
  | asset
  /-- declarations without values -/
  | ambient
  /-- a file that only mounts the application -/
  | entryPoint
  /-- nothing in it exists when the code runs -/
  | nothingDeclared
deriving DecidableEq, Repr

/-- A rejection in words. -/
def Rejection.reason : Rejection → Text
  | asset => "stylesheet/data".toList
  | ambient => "declaration file".toList
  | entryPoint => "entry point".toList
  | nothingDeclared => "no executable declaration".toList

namespace SourceFile

/-! ### Declarations at line starts -/

/-- What remains behind a word and inline blanks; without them, the text itself. -/
def skipWordInline (w s : Text) : Text := ((Text.after? w s).bind Text.inlines?).getD s

/-- What remains at a line start behind the words that can stand in front of a
declaration. -/
def skipLeadingWords (s : Text) : Text :=
  ["export", "default", "async"].foldl (fun s w => skipWordInline w.toList s) (Text.skipInline s)

/-- What remains behind one of the words and inline blanks. -/
def afterOneOf? (words : List String) (s : Text) : Option Text :=
  words.findSome? fun w => (Text.after? w.toList s).bind Text.inlines?

/-- True if a name starts here. -/
def startsName (s : Text) : Bool :=
  s.head?.any fun c => isAsciiLetter c || c == '_' || c == '$'

/-- True if a variable with a value is declared here. -/
def declaresVariable (s : Text) : Bool :=
  let behind := ["const", "let", "var"].findSome? fun w => Text.after? w.toList s
  behind.any fun s =>
    let name := s.takeWhile fun c => c != '=' && c != ';'
    s.head?.any isInline && 2 ≤ name.length && (s.drop name.length).head? == some '='

/-- True if a line starts with a declaration of something that exists when the code
runs. -/
def declaresValue (line : Text) : Bool :=
  let s := skipLeadingWords line
  (Text.afterWord? "function".toList s).isSome ||
    (afterOneOf? ["class"] (skipWordInline "abstract".toList s)).any startsName ||
    declaresVariable s ||
    (afterOneOf? ["enum"] (skipWordInline "const".toList s)).any startsName

/-- True if a line starts with a default export. -/
def exportsDefault (line : Text) : Bool :=
  ((afterOneOf? ["export"] (Text.skipInline line)).bind
    (Text.afterWord? "default".toList)).isSome

/-- True if a line starts with a declaration whose name starts with a capital. -/
def declaresCapital (line : Text) : Bool :=
  let s := skipLeadingWords line
  let named := match Text.after? "function".toList s with
    | some rest =>
      match Text.skipInline rest with
      | '*' :: t => some (Text.skipInline t)
      | t => some t
    | none => afterOneOf? ["class", "const", "let", "var"] s
  named.any fun s => s.head?.any isAsciiCapital

/-- True if something in the text exists when the code runs. -/
def isExecutable (content : Text) : Bool :=
  Text.anyLineStart declaresValue content || Text.anyLineStart exportsDefault content

/-! ### The decision -/

/-- Extensions of stylesheets, data and documentation. -/
def assetExtensions : List Text :=
  ["css", "scss", "sass", "less", "json", "md", "mdx", "html", "svg", "txt", "yml",
    "yaml"].map String.toList

/-- Names of entry files. -/
def entryStems : List Text := ["index", "main"].map String.toList

/-- Why the file takes no part, if it does not. -/
def rejection? (f : SourceFile) : Option Rejection :=
  if assetExtensions.contains f.extension then some .asset
  else if f.extension = "d.ts".toList then some .ambient
  else if entryStems.contains (Text.lower f.stem) &&
      !Text.anyLineStart declaresCapital f.content then some .entryPoint
  else if !isExecutable f.content then some .nothingDeclared
  else none

end SourceFile

end LivePreview
