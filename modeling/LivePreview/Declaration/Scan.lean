/-
Declarations found without a syntax tree.

Code that cannot be parsed still shows what it declares: a declaration at the top level
stands at the start of a line, outside of all brackets, literals and comments.  Going
over the code once with a count of open brackets finds these places.  A closing bracket
too many does not count.
-/
import LivePreview.Declaration.Basic
import LivePreview.Script.Extent

namespace LivePreview

open Script

namespace Declaration

/-- The last part of a dotted name. -/
def lastPart (name : Text) : Text := (name.reverse.takeWhile (· != '.')).reverse

/-- True if the text ends with `ending`. -/
def hasEnding (ending name : Text) : Bool := (Text.after? ending.reverse name.reverse).isSome

/-- True if an arrow stands behind the blanks here. -/
def arrowFollows (s : Text) : Bool :=
  (Text.after? "=>".toList (Text.skipBlanks s)).isSome

/-- True if a function or a wrapped component starts here. -/
def startsFunction (s : Text) : Bool :=
  let s := match afterKeyword? "async".toList s with
    | some rest => Text.skipBlanks rest
    | none => s
  if word? s = some "function".toList then true
  else match s with
    | [] => false
    | c :: _ =>
      if c = '(' then (afterGroup? s).any arrowFollows
      else if isIdentStart c then
        let rest := dottedRest s.length s
        let callee := lastPart (Text.consumed s rest)
        (componentWrappers.contains callee && (Text.skipBlanks rest).head? == some '(') ||
          arrowFollows rest
      else false

/-- The kind of a variable whose name ends here. -/
def variableKind (s : Text) : DeclarationKind :=
  match Text.skipBlanks s with
  | '=' :: value =>
    if value.head? == some '=' then .binding
    else if startsFunction (Text.skipBlanks value) then .functionBinding
    else .binding
  | _ => .binding

/-- True if a class whose name ends here extends some component class. -/
def namesComponentParent (s : Text) : Bool :=
  match afterKeyword? "extends".toList (Text.skipBlanks s) with
  | none => false
  | some rest =>
    let parent := Text.skipBlanks rest
    hasEnding "Component".toList (Text.consumed parent ((afterDotted? parent).getD parent))

/-- The declaration that starts here, if one does. -/
def startingAt? (s : Text) : Option Declaration := do
  let start := match afterKeyword? "async".toList s with
    | some rest => Text.skipInline rest
    | none => s
  let keyword ← word? start
  let behind := Text.skipBlanks (skipIdent start)
  let named := match behind with
    | '*' :: t => if keyword = "function".toList then Text.skipBlanks t else behind
    | _ => behind
  let name ← word? named
  let rest := skipIdent named
  if keyword = "function".toList then some ⟨name, .function⟩
  else if keyword = "class".toList then some ⟨name, .classDecl (namesComponentParent rest)⟩
  else if keyword = "const".toList || keyword = "let".toList || keyword = "var".toList then
    some ⟨name, variableKind rest⟩
  else none

/-- The declarations of a text.  `fresh` tells that only inline blanks stand between here
and the start of the line, `depth` is the number of open brackets, and `covered` the
number of characters here that were read already. -/
def scanFrom : Bool → Nat → Nat → Text → List Declaration
  | _, _, _, [] => []
  | _, depth, covered + 1, _ :: s => scanFrom false depth covered s
  | fresh, depth, 0, c :: s =>
    if c = '\n' then scanFrom true depth 0 s
    else if isInline c then scanFrom fresh depth 0 s
    else if (Bracket.opened? c).isSome then scanFrom false (depth + 1) 0 s
    else if (Bracket.closed? c).isSome then scanFrom false (depth - 1) 0 s
    else if isIdentStart c then
      let found := if depth = 0 && fresh then startingAt? (c :: s) else none
      found.toList ++ scanFrom false depth (s.length - (skipIdent (c :: s)).length) s
    else
      let rest := (afterLiteral? (c :: s)).getD s
      scanFrom false depth (s.length - rest.length) s

/-- The declarations at the top level of a text, in order. -/
def scan (code : Text) : List Declaration := scanFrom true 0 0 code

end Declaration

end LivePreview
