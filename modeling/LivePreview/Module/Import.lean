/-
What an import binds.

An import statement is removed from the code, but its bindings live on: the page
declares each local name in front of the code.  This file holds the record of one
statement and reads the clause between `import` and `from`.
-/
import LivePreview.Script.Word

namespace LivePreview

/-- The bindings of one import statement. -/
structure Import where
  /-- the module that is named -/
  source : Text
  defaultName : Option Text := none
  namespaceName : Option Text := none
  /-- imported name and local name of each specifier -/
  named : List (Text × Text) := []
  /-- true if the statement imports types alone -/
  typeOnly : Bool := false
deriving DecidableEq, Repr

namespace Import

open Script

/-- True if the source is a path and not the name of a package. -/
def isRelative (i : Import) : Bool :=
  match i.source with
  | '.' :: _ | '/' :: _ | '@' :: '/' :: _ => true
  | _ => false

/-- The names that the statement binds. -/
def localNames (i : Import) : List Text :=
  i.defaultName.toList ++ i.namespaceName.toList ++ i.named.map Prod.snd

/-! ### The clause -/

/-- The parts of a list that are not blank, trimmed. -/
def listItems (s : Text) : List Text :=
  ((Text.fields ',' s).map Text.trim).filter (!·.isEmpty)

/-- The text behind all the words `as` at its front. -/
def skipAs : Text → Text
  | 'a' :: 's' :: s => skipAs s
  | s => s

/-- The braces of a clause: what stands outside of them and, if there are any, inside. -/
def cutBraces (clause : Text) : Text × Option Text :=
  match Text.cutFirst '{' clause with
  | none => (clause, none)
  | some (front, behind) =>
    match Text.cutLast '}' behind with
    | none => (clause, none)
    | some (inside, back) => (front ++ back, some inside)

/-- The imported and the local name of one specifier.  One that names a type has no
value and binds nothing. -/
def specifier? (spec : Text) : Option (Text × Text) :=
  if (Text.after? "type ".toList spec).isSome then none
  else
    let pair := match Text.words spec with
      | [name] => some (name, name)
      | [name, as, localName] => if as = "as".toList then some (name, localName) else none
      | _ => none
    pair.filter fun (_, localName) => isIdentifier localName

/-- The import with one more part from outside the braces. -/
def addPart (i : Import) (part : Text) : Import :=
  match part with
  | '*' :: rest =>
    let name := Text.trim (skipAs (Text.trim rest))
    if isIdentifier name then { i with namespaceName := some name } else i
  | _ => if isIdentifier part then { i with defaultName := some part } else i

/-- The bindings of a clause. -/
def ofClause (clause source : Text) (typeOnly : Bool) : Import :=
  let (head, inside) := cutBraces (Text.trim clause)
  let bare : Import := { source := source, typeOnly := typeOnly }
  let named := match inside with
    | some list => (listItems list).filterMap specifier?
    | none => []
  { (listItems head).foldl addPart bare with named := named }

end Import

end LivePreview
