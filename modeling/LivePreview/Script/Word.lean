/-
Identifiers and reserved words.

An identifier is read over ASCII alone: a letter, `_` or `$`, and then letters,
digits, `_` and `$`.  The readers look at the front of the text only, so a word is
whole by construction: `ident` takes every character that can still belong to it.
-/
import LivePreview.Text.Word

namespace LivePreview.Script

/-- A character that can open an identifier. -/
def isIdentStart (c : Char) : Bool := isAsciiLetter c || c == '_' || c == '$'

/-- A character that can stand in an identifier. -/
def isIdentChar (c : Char) : Bool := isIdentStart c || isAsciiDigit c

/-- The identifier at the front of the text, empty if there is none. -/
def ident : Text → Text
  | [] => []
  | c :: s => if isIdentStart c then c :: s.takeWhile isIdentChar else []

/-- What remains behind the identifier at the front of the text. -/
def skipIdent : Text → Text
  | [] => []
  | c :: s => if isIdentStart c then s.dropWhile isIdentChar else c :: s

/-- The identifier at the front of the text, if there is one. -/
def word? (s : Text) : Option Text :=
  if (ident s).isEmpty then none else some (ident s)

/-- What remains behind `w`, if it is the identifier at the front of the text. -/
def afterKeyword? (w s : Text) : Option Text :=
  if word? s = some w then some (skipIdent s) else none

/-- True if an identifier starts at the front of the text. -/
def startsIdent : Text → Bool
  | [] => false
  | c :: _ => isIdentStart c

/-- The words that can never name a binding. -/
def reservedWords : List Text :=
  ["break", "case", "catch", "class", "const", "continue", "debugger", "default", "delete",
    "do", "else", "export", "extends", "finally", "for", "function", "if", "import", "in",
    "instanceof", "new", "return", "super", "switch", "this", "throw", "try", "typeof", "var",
    "void", "while", "with", "yield", "let", "static", "enum", "await", "null", "true",
    "false"].map String.toList

/-- True of the words that can never name a binding. -/
def isReserved (w : Text) : Bool := reservedWords.contains w

/-- True of the words that can name a binding. -/
def isIdentifier : Text → Bool
  | [] => false
  | c :: w => isIdentStart c && w.all isIdentChar && !isReserved (c :: w)

/-- What remains behind a name of identifiers joined by dots, if one starts here. -/
def dottedRest : Nat → Text → Text
  | 0, s => s
  | n + 1, s =>
    match skipIdent s with
    | '.' :: t => if startsIdent t then dottedRest n t else '.' :: t
    | rest => rest

/-- What remains behind a dotted name, if one starts here. -/
def afterDotted? (s : Text) : Option Text :=
  if startsIdent s then some (dottedRest s.length s) else none

end LivePreview.Script
