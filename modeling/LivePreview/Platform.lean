/-
What a preview leans on.

Scripts are parsed, code is digested, and values in the JSON format are read and written
by others.  A preview only calls them, so what it does is told here for any of them.
-/
import LivePreview.Json.Basic
import LivePreview.Program.Tree

namespace LivePreview

/-- The services that a preview calls. -/
class Platform where
  /-- the statements of a script; of a text that is none, the messages of the parser, of
  which there may be none -/
  parseScript : Text → Except (List Text) (List Program.Statement)
  /-- the digest of some bytes, in digits to base sixteen -/
  hexDigest : List UInt8 → Text
  /-- the value that a text writes in the JSON format -/
  readJson? : Text → Option Json
  /-- the values of the fields of a record, in order; a field can be missing -/
  jsonRecord? : List Text → Json → Option (List (Option Json))
  /-- a text as a string in the JSON format -/
  jsonString : Text → Text

end LivePreview
