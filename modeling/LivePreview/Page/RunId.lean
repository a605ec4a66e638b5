/-
The name of a run.

A run is named for its token and for the code that it shows.  The token tells two runs
of the same code apart, and the digest two codes.
-/
import LivePreview.Platform

namespace LivePreview

/-- The bytes of a text in UTF-8. -/
def Text.bytes (s : Text) : List UInt8 := s.flatMap String.utf8EncodeChar

/-- The first digits of the digest of a code. -/
def codeMark [Platform] (code : Text) : Text := (Platform.hexDigest code.bytes).take 12

/-- The name of the run with a token and a code. -/
def runIdOf [Platform] (token : Nat) (code : Text) : Text :=
  Text.ofNat token ++ '-' :: codeMark code

end LivePreview
