/-
What is relied on of the services.

Each of these is documented of the service that stands behind it, and a statement about a preview
names those that it needs.  A parser gives the names of a script as the language spells them; a
digest is written in digits to base sixteen; what is read as JSON is what the format says is
written, and an object is read as a record field by field; and a string is written with an escape
only where the format asks for one.
-/
import LivePreview.Platform
import LivePreview.Proofs.Json.Grammar
import LivePreview.Script.Word

namespace LivePreview

namespace Json

/-- The values of the members with this key. -/
def valuesOf (key : Text) (ms : List (Option Text × Json)) : List Json :=
  (ms.filter fun m => m.1 == some key).map Prod.snd

/-- A digit to base sixteen is a character of identifiers. -/
theorem isIdentChar_of_isHex {d : Char} {i : Nat} (h : IsHex d i) : Script.isIdentChar d = true := by
  have hsmall : "0123456789abcdef".toList.all Script.isIdentChar = true := by decide
  have hcapital : "0123456789ABCDEF".toList.all Script.isIdentChar = true := by decide
  rcases h with h | h
  · exact List.all_eq_true.mp hsmall d (List.mem_of_getElem? h)
  · exact List.all_eq_true.mp hcapital d (List.mem_of_getElem? h)

/-- Characters that cannot stand in a string as they are. -/
def NeedsEscape (c : Char) : Prop := c.toNat < 32 ∨ c = '"' ∨ c = '\\'

instance (c : Char) : Decidable (NeedsEscape c) :=
  inferInstanceAs (Decidable (c.toNat < 32 ∨ c = '"' ∨ c = '\\'))

/-- A character in a string: as it is, or else as an escape that stands for it. -/
inductive WritesChar (c : Char) : Text → Prop
  | plain (hc : ¬NeedsEscape c) : WritesChar c [c]
  | short {e : Char} (hc : NeedsEscape c) (he : (e, c) ∈ shortEscapes) : WritesChar c ['\\', e]
  | code {d₁ d₂ d₃ d₄ : Char} {i j k l : Nat} (hc : NeedsEscape c) (h₁ : IsHex d₁ i) (h₂ : IsHex d₂ j)
      (h₃ : IsHex d₃ k) (h₄ : IsHex d₄ l) (hcode : 4096 * i + 256 * j + 16 * k + l = c.toNat) :
      WritesChar c ['\\', 'u', d₁, d₂, d₃, d₄]

end Json

namespace Platform

variable [Platform]

/-- Of ASCII, the names that a script binds hold characters of identifiers only. -/
class SpellsNames : Prop where
  isIdentChar_of_bound {code : Text} {program : List Program.Statement} {n : Text} {c : Char}
    (h : parseScript code = .ok program) (hn : n ∈ program.flatMap Program.Statement.bound)
    (hc : c ∈ n) (hascii : c.toNat < 128) : Script.isIdentChar c = true

/-- A digest is written in digits to base sixteen, with small letters. -/
class WritesDigests : Prop where
  digits {bytes : List UInt8} {c : Char} (hc : c ∈ hexDigest bytes) : c ∈ "0123456789abcdef".toList

/-- Every text of the format is read.  An object is a record if all its keys are texts and none of
the fields stands in it twice. -/
class ReadsJson : Prop where
  readJson?_writes {s : Text} {v : Json} (h : Json.Writes s v) : readJson? s = some v
  jsonRecord?_object {fields : List Text} {ms : List (Option Text × Json)} {vs : List (Option Json)} :
    jsonRecord? fields (.object ms) = some vs ↔
      (∀ m ∈ ms, m.1.isSome = true) ∧ (∀ key ∈ fields, (Json.valuesOf key ms).length ≤ 1) ∧
        vs = fields.map fun key => (Json.valuesOf key ms).head?

/-- Strings are written character by character. -/
class WritesStrings : Prop where
  exists_escape : ∃ escape : Char → Text, (∀ c, Json.WritesChar c (escape c)) ∧
    ∀ s, jsonString s = '"' :: (s.flatMap escape ++ ['"'])

end Platform

end LivePreview
