/-
Code as a list of statements.

A statement of this file is an import, an export in any of its forms, or lines that are
neither.  It starts its line, and a line ends behind it.  What stands in a statement where
the language has a nested syntax, such as the body of a function, is any text none of whose
later lines starts with an import or export.
-/
import LivePreview.Proofs.Script.Word
import LivePreview.Proofs.Text.LineStart
import LivePreview.Module.Strip

namespace LivePreview.Module

open Script
open Text (LineEnds linesAvoid)

/-! ### Parts of statements -/

/-- A word that can name a binding. -/
@[ext] structure Identifier where
  text : Text
  isIdentifier : isIdentifier text = true

instance : DecidableEq Identifier := fun _ _ => decidable_of_iff _ Identifier.ext_iff.symm

/-- The name of a module between quotes. -/
structure SourceName where
  quote : Char
  name : Text
  isQuote : isQuote quote = true
  ne_nil : name ≠ []
  isSource : name.all isSourceChar = true
deriving DecidableEq

/-- The name of a module with its quotes. -/
def SourceName.text (s : SourceName) : Text := s.quote :: s.name ++ [s.quote]

/-- A specifier in a list of exports. -/
inductive ListItem where
  | same (name : Identifier)
  | renamed (name other : Identifier)
  | default (name : Identifier)
deriving DecidableEq

/-- The text of a specifier. -/
def ListItem.text : ListItem → Text
  | same x => x.text
  | renamed x y => x.text ++ " as ".toList ++ y.text
  | default x => x.text ++ " as default".toList

/-- The name that a specifier exports as the default. -/
def ListItem.default? : ListItem → Option Text
  | default x => some x.text
  | _ => none

/-- The text of a list of specifiers. -/
def listText (items : List ListItem) : Text := Text.join [',', ' '] (items.map ListItem.text)

/-- True if `w` stands at the front of the text and is no part of a longer identifier. -/
def startsWord (w s : Text) : Bool := (Text.after? w s).any fun rest => !rest.head?.any isIdentChar

/-- True if a line starts with the word `import` or `export`. -/
def opensStatement (line : Text) : Bool :=
  startsWord "import".toList (Text.skipInline line) ||
    startsWord "export".toList (Text.skipInline line)

/-- What stands between `import` and `from`. -/
structure Clause where
  text : Text
  isClause : text.all isClauseChar = true
  avoids : linesAvoid opensStatement false text = true
deriving DecidableEq

/-- Lines that are neither imports nor exports.  They do not start with `from` either, which
could belong to the line in front of them. -/
structure PlainLines where
  text : Text
  avoids : linesAvoid opensStatement true text = true
  notFrom : startsWord "from".toList (Text.skipSpaces text) = false
deriving DecidableEq

/-- What can stand behind `export`: a declaration, and neither a list nor a default. -/
structure DeclarationText where
  text : Text
  starts : startsIdent text = true
  avoids : linesAvoid opensStatement false text = true
  notList : ∀ e, LineEnds e → Text.after? ['{'] (skipWord "type".toList (text ++ e)) = none
  notDefault : ∀ e, LineEnds e →
    (Text.after? "default".toList (text ++ e)).bind Text.spaces? = none

/-- The words that open a function or class. -/
inductive DeclarationHead where
  | function (isAsync isGenerator : Bool)
  | classDecl (isAbstract : Bool)
deriving DecidableEq

/-- The text of the words that open a function or class. -/
def DeclarationHead.text : DeclarationHead → Text
  | function isAsync isGenerator =>
    (if isAsync then "async ".toList else []) ++ "function".toList ++
      (if isGenerator then ['*'] else [])
  | classDecl isAbstract => (if isAbstract then "abstract ".toList else []) ++ "class".toList

/-- The name at the front of a text, empty if there is none. -/
def nameAt (s : Text) : Text := if startsIdent s then s.takeWhile isNameChar else []

/-- What can stand behind the head of a function or class: on the same line a name, if there is
one, and all the rest. -/
structure HeadTail where
  text : Text
  wordEnds : Text.wordEnds text = true
  opens : (Text.skipInline text).head?.any (fun c => !isSpace c && c != '*') = true
  avoids : linesAvoid opensStatement false text = true
deriving DecidableEq

/-- The name of a function or class, if it has one. -/
def HeadTail.name? (t : HeadTail) : Option Text :=
  let name := nameAt (Text.skipInline t.text)
  if isMissing name then none else some name

/-- What can stand behind `export default` besides a function or class. -/
structure ValueText where
  text : Text
  starts : text.head?.any (!isSpace ·) = true
  avoids : linesAvoid opensStatement false text = true
  notDeclaration : ∀ e, LineEnds e → afterDefaultHead? (text ++ e) = none

/-- The component that a value names, if it does nothing else. -/
def ValueText.name? (v : ValueText) : Option Text :=
  reference? (Text.trimEnd (Text.trimEndBy (· == ';') (Text.trim (Text.firstLine v.text))))

/-! ### Statements -/

/-- Statements; of those that end with their line, `semi` tells if a `;` does. -/
inductive Statement where
  | plain (lines : PlainLines)
  | importRequire (name : Identifier) (source : SourceName) (semi : Bool)
  | importFrom (clause : Clause) (source : SourceName) (semi : Bool)
  | importSource (source : SourceName) (semi : Bool)
  | exportList (items : List ListItem) (source : Option SourceName) (semi : Bool)
  | exportAll (name : Option Identifier) (source : SourceName) (semi : Bool)
  | exported (declaration : DeclarationText)
  | exportAssign (name : Identifier) (semi : Bool)
  | defaultDeclaration (head : DeclarationHead) (tail : HeadTail)
  | defaultValue (value : ValueText)

/-- The end of a statement. -/
def semicolon : Bool → Text
  | true => [';']
  | false => []

/-- The text of ` from` and a source, where there is one. -/
def fromText : Option SourceName → Text
  | none => []
  | some source => " from ".toList ++ source.text

/-- The text of ` as` and a name, where there is one. -/
def aliasText : Option Identifier → Text
  | none => []
  | some name => " as ".toList ++ name.text

/-- The text of a statement. -/
def Statement.text : Statement → Text
  | plain lines => lines.text
  | importRequire name source semi =>
    "import ".toList ++ name.text ++ " = require(".toList ++ source.text ++ ')' :: semicolon semi
  | importFrom clause source semi =>
    "import ".toList ++ clause.text ++ " from ".toList ++ source.text ++ semicolon semi
  | importSource source semi => "import ".toList ++ source.text ++ semicolon semi
  | exportList items source semi =>
    "export \x7b ".toList ++ listText items ++ " \x7d".toList ++ fromText source ++ semicolon semi
  | exportAll name source semi =>
    "export *".toList ++ aliasText name ++ " from ".toList ++ source.text ++ semicolon semi
  | exported declaration => "export ".toList ++ declaration.text
  | exportAssign name semi => "export = ".toList ++ name.text ++ semicolon semi
  | defaultDeclaration head tail => "export default ".toList ++ head.text ++ tail.text
  | defaultValue value => "export default ".toList ++ value.text

/-! ### Code -/

/-- Statements with a newline behind each, and perhaps one more that ends the text. -/
structure Code where
  closed : List Statement
  last : Option Statement := none

namespace Code

/-- The statements of code. -/
def statements (c : Code) : List Statement := c.closed ++ c.last.toList

/-- The text of statements, each with a newline behind, in front of more text. -/
def closedText (statements : List Statement) (rest : Text) : Text :=
  statements.foldr (fun s rest => s.text ++ '\n' :: rest) rest

/-- The text of a statement that ends the text, if there is one. -/
def lastText (last : Option Statement) : Text := (last.map Statement.text).getD []

/-- The text of code. -/
def text (c : Code) : Text := closedText c.closed (lastText c.last)

/-- The statements that `p` holds of. -/
def filter (p : Statement → Bool) (c : Code) : Code := ⟨c.closed.filter p, c.last.filter p⟩

end Code

end LivePreview.Module
