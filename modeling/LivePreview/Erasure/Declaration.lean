/-
How far a declaration without a value reaches.

Interfaces, type aliases and ambient declarations are removed as wholes, so all that
is asked of them is where they end.  An interface ends with its braces.  An alias ends
with its type, unless something stands behind the type on its line; then, and for
ambient declarations, the end of the statement is looked for: the first `;`, or the
first line end at which the statement is neither continued nor left dangling.
-/
import LivePreview.Script.TypeExtent

namespace LivePreview.Erasure

open Script

/-- What remains behind a `;` on the same line, or else the text itself. -/
def skipSemicolon (s : Text) : Text :=
  match Text.skipInline s with
  | ';' :: rest => rest
  | _ => s

/-- True if a line end cannot close a statement that was read as far as `read`. -/
def isDangling (read : Text) : Bool :=
  match (Text.trimEnd read).getLast? with
  | none => true
  | some c => c == '=' || c == '|' || c == '&' || c == ','

/-- What remains behind a statement that began at `start` and was read up to `here`,
in at most `n` pieces. -/
def statementRestFrom (start : Text) : Nat → Text → Text
  | 0, here => here
  | _, [] => []
  | n + 1, c :: s =>
    if (Bracket.opened? c).isSome then
      match afterGroup? (c :: s) with
      | some rest => statementRestFrom start n rest
      | none => []
    else if isQuote c then statementRestFrom start n (stringRest c s)
    else if c = '\x60' then statementRestFrom start n (skipTemplate (c :: s))
    else if c = ';' then s
    else if c = '\n' then
      let next := Text.skipBlanks s
      if startsWithChar '|' next || startsWithChar '&' next ||
          isDangling (Text.consumed start (c :: s)) then
        statementRestFrom start n s
      else c :: s
    else statementRestFrom start n s

/-- What remains behind the statement at the front of the text. -/
def statementRest (s : Text) : Text := statementRestFrom s s.length s

/-- What remains behind an interface, from its name on. -/
def interfaceRest? (name : Text) : Option Text :=
  let body := name.dropWhile fun c => c != '{' && c != ';'
  if startsWithChar '{' body then (afterGroup? body).map skipSemicolon else none

/-- True if nothing but blanks stands between this place and the end of a statement. -/
def endsStatement (s : Text) : Bool :=
  match Text.skipInline s with
  | [] => true
  | c :: _ => c == ';' || c == '\n' || c == '\r' || c == '}'

/-- What remains behind a type alias, from its name on. -/
def aliasRest? (name : Text) : Option Text :=
  let named := Text.skipBlanks (skipIdent name)
  let declared :=
    if startsWithChar '<' named then (afterTypeParameters? named).map Text.skipBlanks
    else some named
  match declared with
  | some ('=' :: value) =>
    if startsWithChar '=' value then none
    else
      let rest := match afterType? value with
        | some rest => if endsStatement rest then rest else statementRest value
        | none => statementRest value
      some (skipSemicolon rest)
  | _ => none

end LivePreview.Erasure
