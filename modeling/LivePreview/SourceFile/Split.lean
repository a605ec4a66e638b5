/-
The files of a text with markers.

A marker line opens a file that goes on to the next marker.  What stands in front of the
first marker is a file of its own, unless it is blank.  Of files with the same path only
the last one counts.
-/
import LivePreview.Answer.Marker
import LivePreview.SourceFile.Basic

namespace LivePreview.SourceFile

/-- The path of the part in front of the first marker. -/
def preamblePath : Text := "(preamble)".toList

/-- The files among lines, the first of which belongs to the file at `path`; `body` is
what was read of that file, last line first. -/
def segments (path : Text) (body : List Text) : List Text → List SourceFile
  | [] => [⟨path, Text.unlines body.reverse⟩]
  | line :: rows =>
    match Answer.markerPath? line with
    | some next => ⟨path, Text.unlines body.reverse⟩ :: segments next [] rows
    | none => segments path (line :: body) rows

/-- The last file of each path, in order. -/
def lastOfEach : List SourceFile → List SourceFile
  | [] => []
  | f :: fs =>
    if fs.any fun g => g.path == f.path then lastOfEach fs else f :: lastOfEach fs

/-- The files of a text. -/
def split (code : Text) : List SourceFile :=
  lastOfEach <| (segments preamblePath [] (Text.lines code)).filter fun f =>
    f.path != preamblePath || !Text.isBlankText f.content

end LivePreview.SourceFile
