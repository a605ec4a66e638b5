/-
The tokens of programs.

What a slash, a brace or a sign means depends on what stands in front of it: behind an operand a
slash divides, and where an operand is due it opens a regular expression.  So a token is read where
it is known what is due, and tells what is due behind it.  Brackets, templates and markup hold
tokens again.

This is the language as its programs are written, and no reader of this library is asked.
`Expression` are the texts that are one expression at the top level of a program: no comma and no
semicolon divides them, they end with an operand, and a word that starts a statement never stands in
them outside of brackets.  So a line break within one is where the language reads on.
-/
import LivePreview.Proofs.Script.TypeSyntax
import LivePreview.Proofs.Text.Reading

namespace LivePreview.Syntax

open Script (Bracket isIdentChar isQuote)

/-! ### Words and signs -/

/-- True of the characters of words, those beyond ASCII included. -/
def isNamePart (c : Char) : Bool := isIdentChar c || (0x7F < c.toNat && !isSpace c)

/-- The characters of signs. -/
def signChars : List Char :=
  ['=', '+', '-', '*', '%', '&', '|', '^', '<', '>', '!', '~', '?', ':', '.', '#', '@']

/-- True of the characters of signs; a slash is a sign of its own. -/
def isSignChar (c : Char) : Bool := signChars.contains c

/-- The words of control flow with a condition behind them. -/
def conditionWords : List Text :=
  ["if", "for", "while", "switch", "with", "catch"].map String.toList

/-- The words of control flow with a statement behind them. -/
def branchWords : List Text := ["else", "do", "try", "finally"].map String.toList

/-- The words that join an operand to what stands in front of them. -/
def joiningWords : List Text := ["in", "instanceof", "as", "satisfies"].map String.toList

/-- The words with an operand behind them. -/
def operandWords : List Text :=
  ["typeof", "void", "delete", "new", "throw", "await", "yield", "return", "case", "default",
    "of"].map String.toList ++ joiningWords

/-- The words that never stand where an operand of an expression is due. -/
def statementWords : List Text :=
  ["const", "let", "var", "enum", "export", "return", "case", "default", "break", "continue",
    "extends"].map String.toList ++ conditionWords ++ branchWords ++ joiningWords

/-- The signs between two operands. -/
def binarySigns : List Text :=
  ["=", "+", "-", "*", "**", "%", "&", "|", "^", "<<", ">>", ">>>", "&&", "||", "??", "==", "!=",
    "===", "!==", "<", ">", "<=", ">=", "+=", "-=", "*=", "**=", "%=", "&=", "|=", "^=", "<<=",
    ">>=", ">>>=", "&&=", "||=", "??=", "?", ":", "=>", ".", "?.", "/", "/="].map String.toList

/-- The signs in front of an operand. -/
def prefixSigns : List Text := ["!", "!!", "-", "+", "~", "++", "--"].map String.toList

/-- True of a sign between two operands, with or without one in front of the second. -/
def joinsOperands (r : Text) : Bool :=
  binarySigns.any fun b => (Text.after? b r).any fun rest => rest.isEmpty || prefixSigns.contains rest

/-! ### What is due -/

/-- What can come next. -/
inductive Due where
  | statement
  | operand
  /-- behind an arrow: an operand, or a body in braces -/
  | result
  | operator
  /-- behind a dot -/
  | name
  /-- behind a word of control flow -/
  | condition
  /-- behind `function` or `class`, up to the body; `declared` tells that the word starts a
  statement -/
  | head (declared : Bool)
deriving DecidableEq

namespace Due

/-- True if an operand can come next. -/
def startsOperand : Due → Bool
  | .statement | .operand | .result | .name => true
  | .operator | .condition | .head _ => false

/-- What is due behind a word. -/
def behindWord : Due → Text → Due
  | .name, _ => .operator
  | .condition, _ => .condition
  | .head declared, _ => .head declared
  | d, w =>
    if w = "function".toList ∨ w = "class".toList then .head (d = .statement ∨ d = .operator)
    else if conditionWords.contains w then .condition
    else if branchWords.contains w then .statement
    else if operandWords.contains w then .operand
    else .operator

/-- What is due behind a sign. -/
def behindSign : Due → Text → Due
  | .head declared, _ => .head declared
  | d, r =>
    if r = "=>".toList then .result
    else if d = .operator ∧ (r = "++".toList ∨ r = "--".toList) then .operator
    else if r ≠ "...".toList ∧ r.getLast? = some '.' then .name
    else .operand

/-- What is due behind a comma. -/
def behindComma : Due → Due
  | .head declared => .head declared
  | _ => .operand

/-- What is due behind brackets. -/
def behindGroup : Due → Bracket → Due
  | .head true, .curly => .statement
  | .head false, .curly => .operator
  | .head declared, _ => .head declared
  | .condition, _ => .statement
  | .statement, .curly | .operator, .curly | .result, .curly => .statement
  | _, _ => .operator

/-- What is due at the front of what brackets hold. -/
def inside : Bracket → Due
  | .curly => .statement
  | .round | .square => .operand

end Due

/-! ### Literals -/

/-- The rest of a string with this quote. -/
inductive Quoted (quote : Char) : Text → Prop
  | close : Quoted quote [quote]
  | escape {c : Char} {s : Text} (hs : Quoted quote s) : Quoted quote ('\\' :: c :: s)
  | char {c : Char} {s : Text} (hc : c ∉ [quote, '\\', '\n']) (hs : Quoted quote s) :
      Quoted quote (c :: s)

/-- The rest of a regular expression; `inClass` tells that it is inside of square brackets. -/
inductive Regex : Bool → Text → Prop
  | close {flags : Text} (hflags : ∀ c ∈ flags, isNamePart c = true) : Regex false ('/' :: flags)
  | escape {inClass : Bool} {c : Char} {s : Text} (hc : c ≠ '\n') (hs : Regex inClass s) :
      Regex inClass ('\\' :: c :: s)
  | openClass {s : Text} (hs : Regex true s) : Regex false ('[' :: s)
  | closeClass {s : Text} (hs : Regex false s) : Regex true (']' :: s)
  | char {inClass : Bool} {c : Char} {s : Text} (hc : c ∉ ['\\', '\n', '[', ']'])
      (hslash : c = '/' → inClass = true) (hs : Regex inClass s) : Regex inClass (c :: s)

/-! ### Tokens -/

/-- The kinds of tokens.  Blanks and comments are tokens too. -/
inductive Kind where
  | gap
  | word
  | sign
  | comma
  | semicolon
  /-- a string, a regular expression or markup -/
  | literal
  | template
  | group (b : Bracket)
deriving DecidableEq

/-- A token does not go on in what stands behind it. -/
def Apart (t s : Text) : Prop :=
  ∀ c ∈ t.getLast?, ∀ c' ∈ s.head?, (isNamePart c = true → isNamePart c' = false) ∧
    (isSignChar c = true → isSignChar c' = false) ∧ (c = '/' → c' ∉ ['/', '*', '='])

/-- True of the characters of tags and of the names of attributes. -/
def isTagChar (c : Char) : Bool := isNamePart c || c == '-' || c == '.' || c == ':'

mutual

/-- A token, what is due in front of it and what is due behind it. -/
inductive Token : Due → Kind → Text → Due → Prop
  | blank {d : Due} {c : Char} (hc : isSpace c = true) : Token d .gap [c] d
  | lineComment {d : Due} {body : Text} (hbody : '\n' ∉ body) :
      Token d .gap ('/' :: '/' :: (body ++ ['\n'])) d
  | blockComment {d : Due} {body : Text} (hbody : Text.occurs "*/".toList body = false) :
      Token d .gap ('/' :: '*' :: (body ++ "*/".toList)) d
  | word {d : Due} {w : Text} (hne : w ≠ []) (hw : ∀ c ∈ w, isNamePart c = true) :
      Token d .word w (d.behindWord w)
  | sign {d : Due} {r : Text} (hne : r ≠ []) (hr : ∀ c ∈ r, isSignChar c = true)
      (hless : r.head? = some '<' → d.startsOperand = false) : Token d .sign r (d.behindSign r)
  | slash : Token .operator .sign ['/'] .operand
  | divide : Token .operator .sign ['/', '='] .operand
  | comma {d : Due} : Token d .comma [','] d.behindComma
  | semicolon {d : Due} : Token d .semicolon [';'] .statement
  | string {d : Due} {quote : Char} {s : Text} (hquote : isQuote quote = true)
      (hs : Quoted quote s) : Token d .literal (quote :: s) .operator
  | regex {d : Due} {s : Text} (hd : d.startsOperand = true) (hfront : s.head? ≠ some '/')
      (hfront' : s.head? ≠ some '*') (hs : Regex false s) : Token d .literal ('/' :: s) .operator
  | markup {d : Due} {s : Text} (hd : d.startsOperand = true) (hs : Markup s) :
      Token d .literal s .operator
  | template {d : Due} {s : Text} (hs : Template s) : Token d .template ('\x60' :: s) .operator
  | group {d : Due} {s : Text} (b : Bracket) (hs : Tokens (Due.inside b) s) :
      Token d (.group b) (b.opening :: (s ++ [b.closing])) (d.behindGroup b)

/-- Any number of tokens. -/
inductive Tokens : Due → Text → Prop
  | nil {d : Due} : Tokens d []
  | cons {d d' : Due} {k : Kind} {t s : Text} (ht : Token d k t d') (hapart : Apart t s)
      (hs : Tokens d' s) : Tokens d (t ++ s)

/-- The rest of a template. -/
inductive Template : Text → Prop
  | close : Template ['\x60']
  | escape {c : Char} {s : Text} (hs : Template s) : Template ('\\' :: c :: s)
  | inserted {t s : Text} (ht : Tokens .operand t) (hs : Template s) :
      Template ('$' :: '{' :: (t ++ '}' :: s))
  | char {c : Char} {s : Text} (hc : c ∉ ['\x60', '\\']) (hdollar : c = '$' → s.head? ≠ some '{')
      (hs : Template s) : Template (c :: s)

/-- An element, or a fragment, which has no name. -/
inductive Markup : Text → Prop
  | tag {name s : Text} (hname : ∀ c ∈ name, isTagChar c = true)
      (hstop : Text.Stops isTagChar s) (hs : Attributes name s) : Markup ('<' :: (name ++ s))

/-- What stands behind the name of an element. -/
inductive Attributes : Text → Text → Prop
  | void {name : Text} : Attributes name ['/', '>']
  | content {name s : Text} (hs : Content name s) : Attributes name ('>' :: s)
  | char {name : Text} {c : Char} {s : Text} (hc : (isTagChar c || isSpace c || c == '=') = true)
      (hs : Attributes name s) : Attributes name (c :: s)
  | quoted {name : Text} {quote : Char} {body s : Text} (hquote : isQuote quote = true)
      (hbody : quote ∉ body) (hs : Attributes name s) :
      Attributes name (quote :: (body ++ quote :: s))
  | inserted {name t s : Text} (ht : Tokens .operand t) (hs : Attributes name s) :
      Attributes name ('{' :: (t ++ '}' :: s))

/-- What stands between the tags of an element, with the closing tag. -/
inductive Content : Text → Text → Prop
  | close {name : Text} : Content name ('<' :: '/' :: (name ++ ['>']))
  | char {name : Text} {c : Char} {s : Text} (hc : c ∉ ['<', '>', '{', '}'])
      (hs : Content name s) : Content name (c :: s)
  | inserted {name t s : Text} (ht : Tokens .operand t) (hs : Content name s) :
      Content name ('{' :: (t ++ '}' :: s))
  | child {name t s : Text} (ht : Markup t) (hs : Content name s) : Content name (t ++ s)

end

/-! ### Expressions -/

/-- True if an expression can go on with a token outside of all brackets. -/
def Due.goesOn : Due → Kind → Text → Bool
  | _, .gap, _ => true
  | .head _, k, _ => k != .semicolon
  | .operator, .word, w => joiningWords.contains w
  | .operator, .sign, r => joinsOperands r || r == "++".toList || r == "--".toList
  | .operator, .template, _ => true
  | .operator, .group b, _ => b != .curly
  | .name, .word, _ => true
  | .name, .group b, _ => b != .curly
  | .operand, .word, w | .result, .word, w => !statementWords.contains w
  | .operand, .sign, r | .result, .sign, r => prefixSigns.contains r
  | .operand, .literal, _ | .result, .literal, _ => true
  | .operand, .template, _ | .result, .template, _ => true
  | .operand, .group _, _ | .result, .group _, _ => true
  | _, _, _ => false

/-- The rest of an expression outside of all brackets. -/
inductive Expression : Due → Text → Prop
  | complete : Expression .operator []
  /-- an arrow function ends with its body -/
  | ended : Expression .statement []
  | cons {d d' : Due} {k : Kind} {t s : Text} (ht : Token d k t d') (hgoes : d.goesOn k t = true)
      (hapart : Apart t s) (hs : Expression d' s) : Expression d (t ++ s)
  /-- `async` in front of a function or of the name of a parameter, on the same line -/
  | asynchronous {d : Due} {u s : Text} (hd : d = .operand ∨ d = .result) (hne : u ≠ [])
      (hu : ∀ c ∈ u, isInline c = true) (hstart : s.head?.any isNamePart = true)
      (hs : Expression .operand s) : Expression d ("async".toList ++ (u ++ s))
  /-- the assertion that nothing of a value is changed -/
  | asConstant {u s : Text} (hne : u ≠ []) (hu : ∀ c ∈ u, isInline c = true)
      (hstop : Text.Stops isNamePart s) (hs : Expression .operator s) :
      Expression .operator ("as".toList ++ (u ++ ("const".toList ++ s)))

/-- True of the words that start a statement of their own. -/
def startsOwn (w : Text) : Bool := ["function", "class", "async"].any (w == ·.toList)

/-- True if a statement can start with this expression whatever stands on the line in front of it:
it starts with a word or a string, and the word is no label. -/
def startsLine (t : Text) : Bool :=
  t.head?.any (fun c => isNamePart c || isQuote c) && !startsOwn (t.takeWhile isNamePart) &&
    (Text.skipSpaces (t.dropWhile isNamePart)).head? != some ':'

end LivePreview.Syntax
