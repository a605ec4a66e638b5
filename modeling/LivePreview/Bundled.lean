/-
The services that a preview is bundled with.

The parser gives no messages of its own.
-/
import LivePreview.Digest.Sha256
import LivePreview.Json.Read
import LivePreview.Json.Write
import LivePreview.Platform
import LivePreview.Program.Parse

namespace LivePreview.Bundled

/-- The bundled services. -/
scoped instance platform : Platform where
  parseScript code :=
    match Program.parse? code with
    | some statements => .ok statements
    | none => .error []
  hexDigest := Sha256.hexDigest
  readJson? := Json.read?
  jsonRecord? := Json.record?
  jsonString := Json.quote

end LivePreview.Bundled
