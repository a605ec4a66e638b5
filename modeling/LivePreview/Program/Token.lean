/-
Tokens of programs.

Between tokens stand blanks, line ends and comments; whether a line ended there matters,
since a statement may end with its line.  What a `/`, a backtick or a `<` opens depends
on the place, so they are signs here, and whoever expects more reads on from them.
-/
import LivePreview.Script.Extent

namespace LivePreview.Program

open Script (isQuote)

/-! ### Between tokens -/

/-- The characters that end a line. -/
def endsLine (c : Char) : Bool :=
  c == '\n' || c == '\r' || c == '\u2028' || c == '\u2029'

/-- The characters that may stand between tokens, line ends apart. -/
def isGap (c : Char) : Bool :=
  (isSpace c && !endsLine c && c != '\u0085') || c == '\ufeff'

/-- What remains behind blanks and comments, and whether a line ended there; `n` bounds
the number of steps. -/
def gapFrom : Nat → Bool → Text → Bool × Text
  | 0, ended, s => (ended, s)
  | n + 1, ended, s =>
    match s with
    | [] => (ended, [])
    | '/' :: '/' :: t => gapFrom n ended (t.dropWhile fun c => !endsLine c)
    | '/' :: '*' :: t =>
      match Script.leave [.blockComment] t with
      | some rest => gapFrom n (ended || (Text.consumed t rest).any endsLine) rest
      | none => (ended, s)
    | c :: t =>
      if endsLine c then gapFrom n true t
      else if isGap c then gapFrom n ended t
      else (ended, s)

/-- What remains behind blanks and comments, and whether a line ended there. -/
def gap (s : Text) : Bool × Text := gapFrom s.length false s

/-! ### Names -/

/-- A character that can open a name. -/
def opensName (c : Char) : Bool := isLetter c || c == '_' || c == '$'

/-- A character that can stand in a name. -/
def continuesName (c : Char) : Bool := isWordChar c || c == '$'

/-- A digit to base sixteen. -/
def isHexDigit (c : Char) : Bool :=
  isAsciiDigit c || ('a' ≤ c && c ≤ 'f') || ('A' ≤ c && c ≤ 'F')

/-- The value of a digit to base sixteen. -/
def hexDigit (c : Char) : Nat :=
  if isAsciiDigit c then c.toNat - '0'.toNat else c.toLower.toNat - 'a'.toNat + 10

/-- The value of digits to base sixteen. -/
def hexValue (digits : Text) : Nat := digits.foldl (fun n c => 16 * n + hexDigit c) 0

/-- The character behind a backslash and a `u`, and what remains. -/
def unicodeEscape? : Text → Option (Char × Text)
  | '{' :: s =>
    let digits := s.takeWhile isHexDigit
    match s.dropWhile isHexDigit with
    | '}' :: rest =>
      if digits.isEmpty || 0x10FFFF < hexValue digits then none
      else some (Char.ofNat (hexValue digits), rest)
    | _ => none
  | a :: b :: c :: d :: rest =>
    let digits := [a, b, c, d]
    if digits.all isHexDigit then some (Char.ofNat (hexValue digits), rest) else none
  | _ => none

/-- The characters of a name, escapes resolved, and what remains; `n` bounds their
number. -/
def nameFrom (first : Bool) : Nat → Text → Text × Text
  | 0, s => ([], s)
  | n + 1, s =>
    let fits (c : Char) : Bool := if first then opensName c else continuesName c
    match s with
    | [] => ([], [])
    | '\\' :: 'u' :: t =>
      match unicodeEscape? t with
      | some (c, rest) =>
        if fits c then
          let (name, rest) := nameFrom false n rest
          (c :: name, rest)
        else ([], s)
      | none => ([], s)
    | c :: t =>
      if fits c then
        let (name, rest) := nameFrom false n t
        (c :: name, rest)
      else ([], s)

/-- The name at the front of the text, empty if there is none, and what remains. -/
def nameAt (s : Text) : Text × Text := nameFrom true s.length s

/-! ### Strings and numbers -/

/-- True if a backslash in front of this text opens a proper escape. -/
def isEscape : Text → Bool
  | [] => false
  | 'x' :: a :: b :: _ => isHexDigit a && isHexDigit b
  | ['x'] | ['x', _] => false
  | 'u' :: s => (unicodeEscape? s).isSome
  | '0' :: c :: _ => !isAsciiDigit c
  | c :: _ => !(isAsciiDigit c && c != '0')

/-- What remains behind the rest of a string. -/
def stringRest? (quote : Char) : Text → Option Text
  | [] => none
  | '\\' :: '\r' :: '\n' :: s => stringRest? quote s
  | '\\' :: c :: s => if isEscape (c :: s) then stringRest? quote s else none
  | c :: s =>
    if c = quote then some s
    else if c = '\n' || c = '\r' then none
    else stringRest? quote s

/-- What remains behind further digits, with single `_` between them. -/
def moreDigits? (isDigit : Char → Bool) : Text → Option Text
  | [] => some []
  | '_' :: c :: s => if isDigit c then moreDigits? isDigit s else none
  | c :: s => if isDigit c then moreDigits? isDigit s else if c = '_' then none else some (c :: s)

/-- What remains behind digits with single `_` between them; at least one digit is
needed. -/
def digitsRest? (isDigit : Char → Bool) : Text → Option Text
  | [] => none
  | c :: s => if isDigit c then moreDigits? isDigit s else none

/-- What remains behind digits if there are any; without them, the text itself. -/
def optionalDigits (s : Text) : Option Text :=
  if s.head?.any isAsciiDigit then digitsRest? isAsciiDigit s else some s

/-- What remains behind an exponent if there is one. -/
def exponentRest? (s : Text) : Option Text :=
  match s with
  | e :: t =>
    if e = 'e' || e = 'E' then
      match t with
      | '+' :: t | '-' :: t => digitsRest? isAsciiDigit t
      | t => digitsRest? isAsciiDigit t
    else some s
  | [] => some []

/-- What remains behind the `n` of a big integer if there is one. -/
def skipBigMark : Text → Text
  | 'n' :: s => s
  | s => s

/-- What remains behind a decimal number. -/
def decimalRest? (s : Text) : Option Text := do
  match ← optionalDigits s with
  | 'n' :: rest => some rest
  | '.' :: t => exponentRest? (← optionalDigits t)
  | t => exponentRest? t

/-- What remains behind a number without regard to what follows it. -/
def numeralRest? (s : Text) : Option Text :=
  match s with
  | '0' :: b :: t =>
    if b = 'x' || b = 'X' then (digitsRest? isHexDigit t).map skipBigMark
    else if b = 'o' || b = 'O' then
      (digitsRest? (fun c => '0' ≤ c && c ≤ '7') t).map skipBigMark
    else if b = 'b' || b = 'B' then
      (digitsRest? (fun c => c == '0' || c == '1') t).map skipBigMark
    else if isAsciiDigit b || b == '_' then none
    else decimalRest? s
  | _ => decimalRest? s

/-- What remains behind a number.  No name may follow it at once. -/
def numberRest? (s : Text) : Option Text :=
  (numeralRest? s).filter fun rest =>
    !(rest.head?.any fun c => opensName c || isAsciiDigit c || c == '\\')

/-! ### Tokens -/

/-- The signs, longer ones in front of those that they start with. -/
def signs : List String :=
  [">>>=", "...", "===", "!==", "**=", "<<=", ">>=", ">>>", "&&=", "||=", "??=", "=>", "==",
    "!=", "<=", ">=", "&&", "||", "??", "?.", "++", "--", "+=", "-=", "*=", "/=", "%=", "&=",
    "|=", "^=", "<<", ">>", "**", "\x7b", "\x7d", "(", ")", "[", "]", ";", ",", "<", ">", "+",
    "-", "*", "/", "%", "&", "|", "^", "!", "~", "?", ":", "=", ".", "@", "\x60"]

/-- A token. -/
inductive Token where
  /-- the end of the text -/
  | eof
  /-- a name; `plain` tells that it is written without escapes -/
  | name (n : Text) (plain : Bool)
  /-- a name behind `#` -/
  | privateName
  | number
  | string
  | sign (s : String)
  /-- anything that is no token -/
  | bad
deriving DecidableEq, Repr

/-- The token at the front of the text, and what remains. -/
def tokenAt (s : Text) : Token × Text :=
  match s with
  | [] => (.eof, [])
  | c :: t =>
    if isAsciiDigit c || (c == '.' && t.head?.any isAsciiDigit) then
      match numberRest? s with
      | some rest => (.number, rest)
      | none => (.bad, t)
    else if isQuote c then
      match stringRest? c t with
      | some rest => (.string, rest)
      | none => (.bad, t)
    else if c = '#' then
      let (name, rest) := nameAt t
      if name.isEmpty then (.bad, t) else (.privateName, rest)
    else
      let (name, rest) := nameAt s
      if !name.isEmpty then (.name name (Text.consumed s rest == name), rest)
      else
        let sign := signs.findSome? fun sign =>
          (Text.after? sign.toList s).bind fun rest =>
            if sign == "?." && rest.head?.any isAsciiDigit then none else some (sign, rest)
        match sign with
        | some (sign, rest) => (.sign sign, rest)
        | none => (.bad, t)

/-- Words that are no names. -/
def keywords : List Text :=
  ["await", "break", "case", "catch", "class", "const", "continue", "debugger", "default",
    "delete", "do", "else", "enum", "export", "extends", "false", "finally", "for", "function",
    "if", "implements", "import", "in", "instanceof", "interface", "let", "new", "null",
    "package", "private", "protected", "public", "return", "static", "super", "switch", "this",
    "throw", "true", "try", "typeof", "var", "void", "while", "with", "yield"].map String.toList

/-- True of words that can name something. -/
def isName (w : Text) : Bool := !keywords.contains w

end LivePreview.Program
