/-
The module statements that a line can start with.

Each reader looks at a line start and yields what it found there, with what remains
behind it.  A statement may stretch over several lines.  Behind it goes an optional
`;`, and then the end of the line if nothing else stands there, so that removing a
statement that has its lines to itself leaves no empty line.
-/
import LivePreview.Module.Import
import LivePreview.Script.Extent

namespace LivePreview.Module

open Script

/-! ### Parts of statements -/

/-- A character of a name in a module statement: letters of all scripts are welcome. -/
def isNameChar (c : Char) : Bool := isWordChar c || c == '$'

/-- A name in a module statement, and what remains behind it. -/
def name? (s : Text) : Option (Text × Text) :=
  let name := s.takeWhile isNameChar
  if name.isEmpty then none else some (name, s.dropWhile isNameChar)

/-- A character of a module source. -/
def isSourceChar (c : Char) : Bool := !isQuote c && c != '\n'

/-- A module source between quotes, and what remains behind it.  The two quotes need not
be the same. -/
def source? : Text → Option (Text × Text)
  | [] => none
  | quote :: s =>
    let source := s.takeWhile isSourceChar
    match s.dropWhile isSourceChar with
    | closing :: rest =>
      if isQuote quote && isQuote closing && !source.isEmpty then some (source, rest) else none
    | [] => none

/-- What remains behind the end of a statement. -/
def skipEnd (s : Text) : Text :=
  let behind := match Text.skipInline s with
    | ';' :: t => Text.skipInline t
    | t => t
  match behind with
  | '\r' :: '\n' :: t => t
  | '\n' :: t => t
  | t => t

/-- `from` and a source, blanks in front allowed. -/
def fromSource? (s : Text) : Option (Text × Text) := do
  let s ← Text.after? "from".toList (Text.skipSpaces s)
  source? (Text.skipSpaces s)

/-- What remains behind `import` at a line start. -/
def afterImport? (s : Text) : Option Text :=
  Text.after? "import".toList (Text.skipInline s)

/-- What remains behind `export` at a line start. -/
def afterExport? (s : Text) : Option Text :=
  Text.after? "export".toList (Text.skipInline s)

/-- What remains behind a word and the blanks behind it; without them, the text itself. -/
def skipWord (w s : Text) : Text := ((Text.after? w s).bind Text.spaces?).getD s

/-! ### Imports -/

/-- `import name = require("source")` -/
def importRequire? (s : Text) : Option (Import × Text) := do
  let s ← (afterImport? s).bind Text.spaces?
  let (name, s) ← name? s
  let s ← Text.after? ['='] (Text.skipSpaces s)
  let s ← Text.after? "require(".toList (Text.skipSpaces s)
  let (source, s) ← source? (Text.skipSpaces s)
  let s ← Text.after? [')'] (Text.skipSpaces s)
  return ({ source := source, defaultName := some name }, skipEnd s)

/-- A character between `import` and `from`. -/
def isClauseChar (c : Char) : Bool :=
  isNameChar c || c == '*' || c == '{' || c == '}' || c == ',' || isSpace c

/-- The clause up to the first `from` with a source behind it, the source, and what
remains. -/
def clause? : Text → Option (Text × Text × Text)
  | [] => none
  | c :: s =>
    match fromSource? (c :: s) with
    | some (source, rest) => some ([], source, rest)
    | none =>
      if isClauseChar c then
        (clause? s).map fun (clause, source, rest) => (c :: clause, source, rest)
      else none

/-- `import clause from "source"` -/
def importFrom? (s : Text) : Option (Import × Text) := do
  let s ← (afterImport? s).bind Text.spaces?
  let start := skipWord "type".toList s
  let (clause, source, rest) ← clause? start
  return (Import.ofClause clause source (start.length < s.length), skipEnd rest)

/-- `import "source"` -/
def importSource? (s : Text) : Option (Import × Text) := do
  let s ← afterImport? s
  let (source, s) ← source? (Text.skipSpaces s)
  return ({ source := source }, skipEnd s)

/-! ### Exports without a declaration -/

/-- The local name of a specifier that exports it as the default. -/
def defaultSpecifier? (spec : Text) : Option Text :=
  match Text.words spec with
  | [name, as, target] =>
    if as = "as".toList && target = "default".toList && isIdentifier name then some name
    else none
  | _ => none

/-- `export \x7b … \x7d`, with the names that it exports as the default. -/
def exportList? (s : Text) : Option (List Text × Text) := do
  let s ← (afterExport? s).bind Text.spaces?
  let s ← Text.after? ['{'] (skipWord "type".toList s)
  let (list, s) ← Text.cutFirst '}' s
  let rest := match fromSource? s with
    | some (_, rest) => rest
    | none => s
  return ((Text.fields ',' list).filterMap defaultSpecifier?, skipEnd rest)

/-- What remains behind ` as name`; without it, the text itself. -/
def skipAlias (s : Text) : Text :=
  let renamed := do
    let s ← Text.spaces? s
    let s ← (Text.after? "as".toList s).bind Text.spaces?
    name? s
  match renamed with
  | some (_, rest) => rest
  | none => s

/-- `export * from "source"` -/
def exportStar? (s : Text) : Option (Unit × Text) := do
  let s ← (afterExport? s).bind Text.spaces?
  let s ← Text.after? ['*'] s
  let s ← Text.spaces? (skipAlias s)
  let (_, s) ← fromSource? s
  return ((), skipEnd s)

/-- `export = name` -/
def exportAssign? (s : Text) : Option (Text × Text) := do
  let s ← afterExport? s
  let s ← Text.after? ['='] (Text.skipSpaces s)
  let (name, s) ← name? (Text.skipSpaces s)
  return (name, skipEnd s)

/-! ### Exports with a declaration or an expression -/

/-- The inline blanks at the front of a line. -/
def indentOf (s : Text) : Text := s.takeWhile isInline

/-- What remains behind `export default` and blanks. -/
def afterExportDefault? (s : Text) : Option Text := do
  let s ← (afterExport? s).bind Text.spaces?
  (Text.after? "default".toList s).bind Text.spaces?

/-- A function or class that is exported as the default, up to its name. -/
structure DefaultDeclaration where
  indent : Text
  /-- `function` or `class` with the words in front, and a `*` -/
  head : Text
  /-- the inline blanks in front of the name -/
  gap : Text
  /-- empty if there is none -/
  name : Text
deriving DecidableEq, Repr

/-- What remains behind the head of a default export. -/
def afterDefaultHead? (s : Text) : Option Text :=
  match Text.afterWord? "function".toList (skipWord "async".toList s) with
  | some rest =>
    match Text.skipSpaces rest with
    | '*' :: t => some t
    | t => some t
  | none => Text.afterWord? "class".toList (skipWord "abstract".toList s)

/-- `export default function name` and `export default class name` -/
def defaultDeclaration? (s : Text) : Option (DefaultDeclaration × Text) := do
  let start ← afterExportDefault? s
  let behind ← afterDefaultHead? start
  let named := Text.skipInline behind
  let name := if startsIdent named then named.takeWhile isNameChar else []
  return ({ indent := indentOf s
            head := Text.consumed start behind
            gap := indentOf behind
            name := name }, named.drop name.length)

/-- An expression that is exported as the default. -/
structure DefaultExpression where
  indent : Text
  /-- the component that the expression names, if it does nothing else -/
  reference : Option Text
deriving DecidableEq, Repr

/-- The component in `wrapper(Component)`. -/
def wrapped? (expr : Text) : Option Text := do
  let isWrapperChar (c : Char) : Bool := isNameChar c || c == '.'
  let s := expr.dropWhile isWrapperChar
  if s.length = expr.length then none
  let s ← Text.after? ['('] s
  let (name, s) ← name? (Text.skipSpaces s)
  let s ← Text.after? [')'] (Text.skipSpaces s)
  if s.isEmpty && name.head?.any isAsciiCapital then some name else none

/-- The component that an expression names, plainly or inside a wrapper. -/
def reference? (expr : Text) : Option Text :=
  if isIdentifier expr then some expr else wrapped? expr

/-- `export default expression`.  One that names a component goes with its whole line,
of any other the words in front alone. -/
def defaultExpression? (s : Text) : Option (DefaultExpression × Text) := do
  let start ← afterExportDefault? s
  let line := Text.trimEnd (Text.trimEndBy (· == ';') (Text.trim (Text.firstLine start)))
  let reference := reference? line
  let rest := if reference.isSome then (Text.skipLine start).drop 1 else start
  return ({ indent := indentOf s, reference := reference }, rest)

/-- The words that can open an exported declaration. -/
def declarationWords : List Text :=
  ["function", "const", "let", "var", "class", "interface", "type", "enum", "namespace",
    "module"].map String.toList

/-- What remains behind the words that open a declaration. -/
def afterDeclarationWords? (s : Text) : Option Text :=
  let phrase (first second : String) : Option Text := do
    let s ← (Text.after? first.toList s).bind Text.spaces?
    Text.afterWord? second.toList s
  (phrase "async" "function").or <| (phrase "abstract" "class").or <|
    declarationWords.findSome? fun w => Text.afterWord? w s

/-- `export` in front of a declaration, with the text that stays. -/
def exportedDeclaration? (s : Text) : Option (Text × Text) := do
  let start ← (afterExport? s).bind Text.spaces?
  let rest ← afterDeclarationWords? (skipWord "declare".toList start)
  return (indentOf s ++ Text.consumed start rest, rest)

/-! ### What a reader takes for a module statement -/

/-- True if a line starts like an import or export. -/
def looksLikeStatement (s : Text) : Bool :=
  let imports := match afterImport? s with
    | some rest => (Text.skipInline rest).head?.any fun c =>
        isWordChar c || c == '{' || c == '*' || c == '\'' || c == '"'
    | none => false
  imports || (Text.afterWord? "export".toList (Text.skipInline s)).isSome

end LivePreview.Module
