/-
Source files and the parts of their paths.
-/
import LivePreview.Text.Case

namespace LivePreview

/-- A file of an answer. -/
structure SourceFile where
  path : Text
  content : Text
deriving DecidableEq, Repr

/-- The part of a path behind its directories. -/
def pathBase (path : Text) : Text :=
  (path.reverse.takeWhile fun c => c != '/' && c != '\\').reverse

namespace SourceFile

/-- The name of the file without its directories. -/
def basename (f : SourceFile) : Text := pathBase f.path

/-- The name of the file up to its first dot. -/
def stem (f : SourceFile) : Text := f.basename.takeWhile (· != '.')

/-- True if the text ends with `ending`. -/
def endsWith (ending s : Text) : Bool := (Text.after? ending.reverse s.reverse).isSome

/-- The part of the name behind its last dot, in small letters.  A name that starts with
its only dot has no extension, and ambient declarations have one of two parts. -/
def extension (f : SourceFile) : Text :=
  let base := Text.lower f.basename
  if endsWith ".d.ts".toList base || endsWith ".d.tsx".toList base then "d.ts".toList
  else match Text.cutLast '.' base with
    | some (_ :: _, extension) => extension
    | _ => []

end SourceFile

end LivePreview
