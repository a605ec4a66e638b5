/-
Writing strings of the JSON format.
-/
import LivePreview.Text.Basic

namespace LivePreview.Json

/-- A character of a written string. -/
def quotedChar (c : Char) : Text :=
  match c with
  | '"' => ['\\', '"']
  | '\\' => ['\\', '\\']
  | '\x08' => ['\\', 'b']
  | '\x0c' => ['\\', 'f']
  | '\n' => ['\\', 'n']
  | '\r' => ['\\', 'r']
  | '\t' => ['\\', 't']
  | c =>
    if c.toNat < 32 then
      "\\u00".toList ++ [Nat.digitChar (c.toNat / 16), Nat.digitChar (c.toNat % 16)]
    else [c]

/-- A text as a written string. -/
def quote (s : Text) : Text := '"' :: s.flatMap quotedChar ++ ['"']

end LivePreview.Json
