/-
How far a type reaches.

The forms of the type grammar are read by one function, `extent`, from a form and a
text to the text that remains behind the form.  No tree is built, since nothing but
the end of a type is ever asked for; a bracket group counts as a whole, whatever it
holds.

Between two calls that read a character there are at most six that only choose a
form, so eight calls for each character are more than a type can need.  `depth` is
that bound, and the three readers at the end of this file start from it.
-/
import LivePreview.Script.Extent

namespace LivePreview.Script

/-- The two signs that join types; an intersection binds closer than a union. -/
inductive Joint where
  /-- types joined by `|` -/
  | union
  /-- types joined by `&` -/
  | intersection
deriving DecidableEq, Repr

/-- The sign between two joined types. -/
def Joint.sign : Joint → Char
  | union => '|'
  | intersection => '&'

/-- The forms of the type grammar. -/
inductive TypeForm where
  /-- a whole type, conditional types included -/
  | whole
  /-- one or more types joined by a sign, which may also stand in front -/
  | joined (joint : Joint)
  /-- further types of a joined form, each behind its sign -/
  | more (joint : Joint)
  /-- a type with array or index brackets behind it -/
  | operand
  /-- further brackets behind an operand -/
  | brackets
  /-- a type without any sign or bracket behind it -/
  | primary
  /-- types up to `>`; `some` tells that at least one was read already -/
  | arguments (some : Bool)
  /-- declared parameters up to `>`; `some` tells that at least one was read already -/
  | parameters (some : Bool)
deriving DecidableEq, Repr

/-- What a joined form joins. -/
def Joint.part : Joint → TypeForm
  | union => .joined .intersection
  | intersection => .operand

/-- True if the text starts with this character. -/
def startsWithChar (c : Char) (s : Text) : Bool := s.head? == some c

/-- Words in front of a type that belong to the type. -/
def typeOperators : List Text := ["keyof", "readonly", "unique", "infer"].map String.toList

/-- Words that are types although they can name no binding. -/
def typeWords : List Text := ["null", "true", "false", "void", "this"].map String.toList

/-- Words in front of the name of a declared parameter. -/
def parameterModifiers : List Text := ["const", "in", "out"].map String.toList

/-- What remains behind a modifier, if a name follows it. -/
def skipModifier (s modifier : Text) : Text :=
  match afterKeyword? modifier s with
  | some rest =>
    let name := Text.skipBlanks rest
    if startsIdent name then name else s
  | none => s

/-- What remains behind a number type. -/
def afterNumber? (s : Text) : Option Text :=
  let digits := match s with
    | '-' :: t => t
    | t => t
  let rest := digits.dropWhile fun c => isAsciiDigit c || c == '.'
  if rest.length < digits.length then some rest else none

/-- What remains behind a string type.  A string whose last character is not its quote
is no type. -/
def afterStringType? : Text → Option Text
  | [] => none
  | quote :: s =>
    let rest := stringRest quote s
    if (Text.consumed s rest).getLast? = some quote then some rest else none

/-! ### The forms

Each form is read by a function of its own, which is given the reader for the forms that
it is made of.
-/

/-- A reader for every form. -/
abbrev TypeReader := TypeForm → Text → Option Text

/-- What remains behind a union, or behind the conditional type that it opens. -/
def wholeRest? (read : TypeReader) (s : Text) : Option Text :=
  match read (.joined .union) s with
  | none => none
  | some plain =>
    match (afterKeyword? "extends".toList (Text.skipBlanks plain)).bind
        (read (.joined .union)) with
    | none => some plain
    | some checked =>
      match Text.skipBlanks checked with
      | '?' :: whenTrue =>
        match read .whole whenTrue with
        | none => none
        | some rest =>
          match Text.skipBlanks rest with
          | ':' :: whenFalse => read .whole whenFalse
          | _ => some plain
      | _ => some plain

/-- The text without a sign in front of a joined form. -/
def skipSign (j : Joint) (s : Text) : Text :=
  match Text.skipBlanks s with
  | c :: rest => if c = j.sign && !startsWithChar j.sign rest then rest else c :: rest
  | [] => []

/-- What remains behind joined types. -/
def joinedRest? (read : TypeReader) (j : Joint) (s : Text) : Option Text :=
  (read j.part (skipSign j s)).bind (read (.more j))

/-- What remains behind further joined types. -/
def moreRest? (read : TypeReader) (j : Joint) (s : Text) : Option Text :=
  match Text.skipBlanks s with
  | c :: rest =>
    if c = j.sign && !startsWithChar j.sign rest && !startsWithChar '=' rest then
      (read j.part rest).bind (read (.more j))
    else some s
  | [] => some s

/-- What remains behind further brackets. -/
def bracketsRest? (read : TypeReader) (s : Text) : Option Text :=
  if startsWithChar '[' s then (afterGroup? s).bind (read .brackets) else some s

/-- What remains behind round brackets, or behind the function type that they open. -/
def roundRest? (read : TypeReader) (s : Text) : Option Text :=
  match afterGroup? s with
  | none => none
  | some rest =>
    match Text.skipBlanks rest with
    | '=' :: '>' :: result => read .whole result
    | _ => some rest

/-- What remains behind `is` and a type; without them, the text itself. -/
def predicateRest? (read : TypeReader) (s : Text) : Option Text :=
  match afterKeyword? "is".toList (Text.skipInline s) with
  | some type => read .whole type
  | none => some s

/-- The text without the list of types that opens in front of it, if it is one. -/
def skipArguments (read : TypeReader) (s : Text) : Text :=
  match s with
  | '<' :: list => (read (.arguments false) list).getD s
  | _ => s

/-- What remains behind a type that starts with a word. -/
def wordRest? (read : TypeReader) (s : Text) : Option Text :=
  let w := ident s
  let rest := skipIdent s
  if w = "typeof".toList then afterDotted? (Text.skipBlanks rest)
  else if typeOperators.contains w then read .operand rest
  else if w = "new".toList || w = "abstract".toList then read .primary rest
  else if w = "asserts".toList then predicateRest? read (skipIdent (Text.skipBlanks rest))
  else if isReserved w && !typeWords.contains w then none
  else predicateRest? read (skipArguments read (dottedRest s.length s))

/-- What remains behind a type without any sign or bracket behind it. -/
def primaryRest? (read : TypeReader) (s : Text) : Option Text :=
  match Text.skipBlanks s with
  | [] => none
  | c :: t =>
    if c = '(' then roundRest? read (c :: t)
    else if c = '{' || c = '[' then afterGroup? (c :: t)
    else if isQuote c then afterStringType? (c :: t)
    else if c = '\x60' then some (skipTemplate (c :: t))
    else if c = '<' then (read (.parameters false) t).bind (read .primary)
    else if c = '-' || isAsciiDigit c then afterNumber? (c :: t)
    else if isIdentStart c then wordRest? read (c :: t)
    else none

/-- What remains of a list behind one of its items: the items that follow are read as
`again`. -/
def listRest? (read : TypeReader) (again : TypeForm) (s : Text) : Option Text :=
  match s with
  | ',' :: next => read again next
  | '>' :: after => some after
  | _ => none

/-- What remains behind a list of types and its closing bracket. -/
def argumentsRest? (read : TypeReader) (any : Bool) (s : Text) : Option Text :=
  let start := Text.skipBlanks s
  if any && startsWithChar '>' start then some (start.drop 1)
  else
    (read .whole start).bind fun rest =>
      listRest? read (.arguments true) (Text.skipBlanks rest)

/-- What remains behind the bound of a declared parameter, from behind its name on. -/
def boundRest? (read : TypeReader) (s : Text) : Option Text :=
  match afterKeyword? "extends".toList s with
  | some bound => (read .whole bound).map Text.skipBlanks
  | none => some s

/-- What remains behind the default of a declared parameter, from behind its bound on. -/
def defaultRest? (read : TypeReader) (s : Text) : Option Text :=
  match s with
  | '=' :: value =>
    if startsWithChar '>' value then some s else (read .whole value).map Text.skipBlanks
  | _ => some s

/-- What remains behind a list of declared parameters and its closing bracket. -/
def parametersRest? (read : TypeReader) (any : Bool) (s : Text) : Option Text :=
  let start := Text.skipBlanks s
  if any && startsWithChar '>' start then some (start.drop 1)
  else
    let name := parameterModifiers.foldl skipModifier start
    if !startsIdent name then none
    else
      ((boundRest? read (Text.skipBlanks (skipIdent name))).bind (defaultRest? read)).bind
        (listRest? read (.parameters true))

/-- What remains behind a form, where `read` reads the forms that it is made of. -/
def formRest? (read : TypeReader) : TypeReader
  | .whole, s => wholeRest? read s
  | .joined j, s => joinedRest? read j s
  | .more j, s => moreRest? read j s
  | .operand, s => (read .primary s).bind (read .brackets)
  | .brackets, s => bracketsRest? read s
  | .primary, s => primaryRest? read s
  | .arguments any, s => argumentsRest? read any s
  | .parameters any, s => parametersRest? read any s

/-! ### Readers -/

/-- What remains behind a form of the type grammar, if it stands at the front of the
text.  The number bounds the depth of the calls. -/
def extent : Nat → TypeReader
  | 0 => fun _ _ => none
  | n + 1 => formRest? (extent n)

/-- More calls than a type at the front of this text can need. -/
def depth (s : Text) : Nat := 8 * s.length + 8

/-- What remains behind the type at the front of the text; blanks may stand in front. -/
def afterType? (s : Text) : Option Text := extent (depth s) .whole s

/-- What remains behind a list of types between angle brackets. -/
def afterTypeArguments? : Text → Option Text
  | '<' :: s => extent (depth s) (.arguments false) s
  | _ => none

/-- What remains behind a list of declared type parameters between angle brackets. -/
def afterTypeParameters? : Text → Option Text
  | '<' :: s => extent (depth s) (.parameters false) s
  | _ => none

end LivePreview.Script
