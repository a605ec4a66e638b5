/-
One text from many files.

Files of types come first and the root file of the application last; between them, and
within each group, the order of the answer stays.  Each file stands behind a comment
that names it, in a form that is no marker, so that the result is one text for good.
-/
import LivePreview.Diagnostics
import LivePreview.SourceFile.Inclusion
import LivePreview.SourceFile.Split

namespace LivePreview.SourceFile

/-- Names of files of types. -/
def typeStems : List Text :=
  ["types", "type", "interfaces", "models", "typings", "constants"].map String.toList

/-- True of files of types. -/
def isTypeFile (f : SourceFile) : Bool :=
  typeStems.contains (Text.lower f.stem) || Text.occurs ".types.".toList (Text.lower f.basename)

/-- True of the root file of an application. -/
def isRootFile (f : SourceFile) : Bool := Text.lowerAscii f.stem == "app".toList

/-- The place of a file: types first, the root last. -/
def rank (f : SourceFile) : Nat := if isTypeFile f then 0 else if isRootFile f then 2 else 1

/-- Files by rank, and those of one rank in the order in which they were. -/
def order (files : List SourceFile) : List SourceFile :=
  [0, 1, 2].flatMap fun r => files.filter fun f => rank f == r

/-- The comment in front of a file. -/
def boundary (path : Text) : Text := "// ----- source: ".toList ++ path ++ " -----".toList

/-- A file behind its comment. -/
def block (f : SourceFile) : Text :=
  boundary f.path ++ ['\n'] ++ Text.trimBy (· == '\n') f.content ++ ['\n']

/-- A text in one piece, and the paths of the files in it. -/
structure Merged where
  code : Text
  isMultiFile : Bool
  files : List Text
  diagnostics : Diagnostics
deriving DecidableEq, Repr

/-- The record of a file that takes no part. -/
def exclusion? (f : SourceFile) : Option Diagnostic :=
  (rejection? f).map fun why =>
    .info .files ("excluded ".toList ++ f.path ++ " (".toList ++ why.reason ++ ")".toList)

/-- The files of a text that take part, put together.  A text of one file stays as it is,
and so does one of which no file would be left. -/
def merge (code : Text) (isMultiFile : Bool) : Merged :=
  if !isMultiFile then ⟨code, false, [], []⟩
  else
    let files := split code
    let excluded := files.filterMap exclusion?
    let kept := order (files.filter fun f => (rejection? f).isNone)
    let paths := kept.map path
    if kept.isEmpty then
      ⟨code, true, [], excluded ++ [.warn .files
        "no file passed the inclusion predicate, treating input as a single file".toList]⟩
    else
      ⟨Text.join ['\n'] (kept.map block), true, paths, excluded ++ [.info .files
        ("merged ".toList ++ Text.ofNat paths.length ++ " files: ".toList ++
          Text.join ", ".toList paths)]⟩

end LivePreview.SourceFile
