/-
How far a literal, a comment or a bracket group reaches.

A string ends at its quote or with its line, a line comment with its line, a block
comment at its closing mark, a template at its backtick; a template may hold groups
behind `$`, and a group may hold all of these.  So the reader keeps a list of what it
is inside of, innermost first, and `leave` follows the text until that list is empty.
One character decides each step and the recursion is on the text alone.

A group has to be closed by a bracket of its own kind: a bracket of another kind, or
the end of the text, means that the group has no end.  A literal or comment without
an end reaches to the end of the text.
-/
import LivePreview.Script.Word

namespace LivePreview.Script

/-! ### Brackets -/

/-- The three kinds of bracket that are counted.  Angle brackets are not. -/
inductive Bracket where
  /-- `(` and `)` -/
  | round
  /-- `[` and `]` -/
  | square
  /-- `\x7b` and `\x7d` -/
  | curly
deriving DecidableEq, Repr

namespace Bracket

/-- The kind that a character opens. -/
def opened? (c : Char) : Option Bracket :=
  if c = '(' then some round else if c = '[' then some square
  else if c = '{' then some curly else none

/-- The kind that a character closes. -/
def closed? (c : Char) : Option Bracket :=
  if c = ')' then some round else if c = ']' then some square
  else if c = '}' then some curly else none

end Bracket

/-- The quotes of a string literal. -/
def isQuote (c : Char) : Bool := c == '"' || c == '\''

/-! ### What the reader is inside of -/

/-- What the reader can be inside of. -/
inductive Within where
  /-- a bracket group -/
  | group (b : Bracket)
  /-- a string with this quote -/
  | quoted (quote : Char)
  /-- a template literal -/
  | template
  /-- a comment that ends with its line -/
  | lineComment
  /-- a comment that ends at its closing mark -/
  | blockComment
  /-- the character behind a backslash -/
  | escaped
deriving DecidableEq, Repr

/-- What remains when everything in `inside` has been left, innermost first. -/
def leave : List Within → Text → Option Text
  | [], s => some s
  | _ :: _, [] => none
  | .escaped :: up, _ :: s => leave up s
  | .quoted q :: up, c :: s =>
    if c = '\\' then leave (.escaped :: .quoted q :: up) s
    else if c = '\n' || c = q then leave up s
    else leave (.quoted q :: up) s
  | .lineComment :: up, c :: s => leave (if c = '\n' then up else .lineComment :: up) s
  | .blockComment :: up, '*' :: '/' :: s => leave up s
  | .blockComment :: up, _ :: s => leave (.blockComment :: up) s
  | .template :: up, '$' :: '{' :: s => leave (.group .curly :: .template :: up) s
  | .template :: up, c :: s =>
    if c = '\\' then leave (.escaped :: .template :: up) s
    else leave (if c = '\x60' then up else .template :: up) s
  | .group b :: up, '/' :: '/' :: s => leave (.lineComment :: .group b :: up) s
  | .group b :: up, '/' :: '*' :: s => leave (.blockComment :: .group b :: up) s
  | .group b :: up, c :: s =>
    if isQuote c then leave (.quoted c :: .group b :: up) s
    else if c = '\x60' then leave (.template :: .group b :: up) s
    else match Bracket.opened? c, Bracket.closed? c with
      | some inner, _ => leave (.group inner :: .group b :: up) s
      | none, some closed => if closed = b then leave up s else none
      | none, none => leave (.group b :: up) s

/-- What remains behind the bracket group at the front of the text, if it is closed. -/
def afterGroup? : Text → Option Text
  | [] => none
  | c :: s => (Bracket.opened? c).bind fun b => leave [.group b] s

/-! ### Literals and comments on their own -/

/-- What remains behind the rest of a string with this quote.  A newline ends the
string and is not part of it. -/
def stringRest (quote : Char) : Text → Text
  | [] => []
  | '\\' :: _ :: s => stringRest quote s
  | '\n' :: s => '\n' :: s
  | c :: s => if c = quote then s else stringRest quote s

/-- What remains behind the string at the front of the text. -/
def skipString : Text → Text
  | [] => []
  | quote :: s => stringRest quote s

/-- What remains behind the template at the front of the text. -/
def skipTemplate : Text → Text
  | [] => []
  | _ :: s => (leave [.template] s).getD []

/-- What remains behind the comment at the front of the text, which ends with its line. -/
def skipLineComment (s : Text) : Text := Text.skipLine s

/-- What remains behind the rest of a block comment. -/
def blockRest : Text → Text
  | [] => []
  | '*' :: '/' :: s => s
  | _ :: s => blockRest s

/-- What remains behind the block comment at the front of the text. -/
def skipBlockComment (s : Text) : Text := blockRest (s.drop 2)

/-- What remains behind the literal or comment at the front of the text, if one starts
there. -/
def afterLiteral? : Text → Option Text
  | [] => none
  | '/' :: '/' :: s => some (Text.skipLine s)
  | '/' :: '*' :: s => some (blockRest s)
  | c :: s =>
    if isQuote c then some (stringRest c s)
    else if c = '\x60' then some (skipTemplate (c :: s))
    else none

/-- What remains behind blanks and comments, for at most `n` comments. -/
def triviaRest : Nat → Text → Text
  | 0, s => Text.skipBlanks s
  | n + 1, s =>
    match Text.skipBlanks s with
    | '/' :: '/' :: t => triviaRest n (Text.skipLine t)
    | '/' :: '*' :: t => triviaRest n (blockRest t)
    | rest => rest

/-- What remains behind blanks and comments. -/
def skipTrivia (s : Text) : Text := triviaRest s.length s

/-- True if a line has only inline blanks in front of this place; `before` is the text
in front of it, last character first. -/
def atLineStart (before : Text) : Bool :=
  match before.dropWhile isInline with
  | [] => true
  | c :: _ => c == '\n'

end LivePreview.Script
