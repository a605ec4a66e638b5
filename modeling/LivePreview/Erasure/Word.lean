/-
What the eraser does with a word.

Most words are kept.  A few contextual words open something that is removed or
changed, but only where they can mean that: `type` at the start of a statement, `as`
behind an expression, `readonly` in front of a member.  A word whose construct does
not follow is kept as any other.
-/
import LivePreview.Erasure.Binding
import LivePreview.Erasure.Declaration
import LivePreview.Erasure.EnumObject

namespace LivePreview.Erasure

open Script EnumObject

namespace Eraser

/-- Back in code `m`, behind one more token. -/
def inCode (e : Eraser) (m : CodeMode) (previous : Previous) : Eraser :=
  e.enter (.code (m.next previous))

/-- Write the object for the enum whose name is at the front of `name`, and read past
the enum; `none` if no enum follows. -/
def convertEnum? (e : Eraser) (name : Text) : Except Overflow (Option Eraser) :=
  if !startsIdent name then .ok none
  else
    let body := Text.skipBlanks (skipIdent name)
    if !startsWithChar '{' body then .ok none
    else match afterGroup? body with
      | none => .ok none
      | some rest => do
        let inside := (Text.consumed body rest).tail.dropLast
        let object ← EnumObject.render (ident name) inside
        return some ((e.write object).erase .enumDecl (skipSemicolon rest))

/-- What remains behind `this: T` and a comma behind it, from the colon on. -/
def afterThisType? : Text → Option Text
  | ':' :: s =>
    (afterType? s).map fun rest =>
      match Text.skipBlanks rest with
      | ',' :: next => Text.skipBlanks next
      | _ => rest
  | _ => none

/-- The word may stand in front of a member or parameter of a class. -/
def memberModifiers : List Text :=
  ["public", "private", "protected", "readonly", "override", "declare"].map String.toList

/-- The words that declare variables. -/
def variableWords : List Text := ["const", "let", "var"].map String.toList

/-- True where a modifier stands in front of a member or of a parameter. -/
def modifiesMember (m : CodeMode) : Bool :=
  (m.top.kind == .classBody &&
    (m.newline || m.previous == .sign '{' || m.previous == .sign ';' ||
      m.previous == .sign '}')) ||
  (m.top.kind == .round true && (m.previous == .sign '(' || m.previous == .sign ','))

/-- The word at the front of the text, in code `m`. -/
def stepWord (e : Eraser) (m : CodeMode) : Except Overflow Eraser :=
  let w := ident e.rest
  let rest := skipIdent e.rest
  let next := Text.skipBlanks rest
  let nextWord := word? next
  let opens := m.previous.statementMayStart m.newline
  let kept := (e.keep rest).inCode m (.word w)
  let removed (rule : ErasureRule) (rest : Text) (previous : Previous) : Eraser :=
    (e.erase rule rest).inCode m previous
  if w = "interface".toList && opens && nextWord.isSome then
    match interfaceRest? next with
    | some rest => .ok (removed .interfaceDecl rest (.sign ';'))
    | none => .ok kept
  else if w = "type".toList && opens && nextWord.isSome then
    match aliasRest? next with
    | some rest => .ok (removed .typeAlias rest (.sign ';'))
    | none => .ok kept
  else if w = "declare".toList && opens && nextWord.isSome && m.top.kind != .classBody then
    .ok (removed .ambient (statementRest next) (.sign ';'))
  else if w = "enum".toList && opens && nextWord.isSome then do
    match ← e.convertEnum? next with
    | some done => return done.inCode m (.sign ';')
    | none => return kept
  else if w = "const".toList && opens && nextWord = some "enum".toList then do
    match ← e.convertEnum? (Text.skipBlanks (skipIdent next)) with
    | some done => return done.inCode m (.sign ';')
    | none => return kept
  else if w = "abstract".toList && nextWord = some "class".toList then
    .ok (removed .abstractModifier next m.previous)
  else if w = "class".toList && m.previous != .sign '.' &&
      (nextWord.isSome || startsWithChar '{' next) then
    let header := (e.keep rest).eraseHeader rest.length
    .ok (header.inCode { m with header := true } (.word w))
  else if variableWords.contains w && m.previous != .sign '.' then
    let (bound, previous) := (e.keep rest).eraseVariable
    .ok (bound.inCode { m with top := { m.top with declarators := true } } previous)
  else if w = "this".toList && m.previous = .sign '(' && m.top.kind = .round true &&
      startsWithChar ':' next then
    match afterThisType? next with
    | some rest => .ok (removed .thisParameter rest (.sign '('))
    | none => .ok kept
  else if (w = "as".toList || w = "satisfies".toList) &&
      (m.previous.endsExpression || m.previous == .sign '}') && next.length < rest.length then
    let asserted :=
      if w = "as".toList && nextWord = some "const".toList then some (skipIdent next)
      else afterType? rest
    match asserted with
    | some rest =>
      let rule := if w = "as".toList then .asAssertion else .satisfiesCheck
      .ok ((e.trimOut.erase rule rest).inCode m m.previous)
    | none => .ok kept
  else if memberModifiers.contains w && (nextWord.isSome || startsWithChar '[' next) &&
      modifiesMember m then
    .ok (removed .accessModifier next m.previous)
  else .ok kept

end Eraser

end LivePreview.Erasure
