/-
Declarations of a syntax tree.

Variables, functions and classes of the top level are listed in order; what stands inside
of other statements is not looked at.  A variable is a function binding if its initialiser
is a function, possibly in parentheses or wrapped by one of the component wrappers.
-/
import LivePreview.Declaration.Basic
import LivePreview.Program.Tree

namespace LivePreview

open Program

namespace Program

mutual

/-- The names collected from a pattern, in order.  What stands in front of a default
value is not looked into. -/
def Pattern.collected : Pattern → List Text
  | .name n => [n]
  | .object items => Pattern.collectedAll items
  | .array items => Pattern.collectedAll items
  | .hole => []
  | .rest p => p.collected
  | .withDefault _ => []

/-- The names collected from several patterns, in order. -/
def Pattern.collectedAll : List Pattern → List Text
  | [] => []
  | p :: ps => p.collected ++ Pattern.collectedAll ps

end

/-- The name by which an expression is known where it is called or extended. -/
def Expr.knownAs : Expr → Option Text
  | .name n => some n
  | .member _ property => some property
  | _ => none

/-- True if an expression is called by one of the names. -/
def Expr.isKnownAs (names : List Text) (e : Expr) : Bool := e.knownAs.any names.contains

/-- True if an expression makes the variable that it initialises a component. -/
def Expr.isComponent : Expr → Bool
  | .arrow => true
  | .function => true
  | .parens e => e.isComponent
  | .call callee (argument :: _) =>
    callee.isKnownAs componentWrappers &&
      match argument with
      | .name _ => true
      | _ => argument.isComponent
  | _ => false

end Program

namespace Declaration

/-- The base classes of components. -/
def componentClasses : List Text := ["Component", "PureComponent"].map String.toList

/-- The declarations of one variable. -/
def ofDeclarator : Pattern × Option Expr → List Declaration
  | (.name n, init) =>
    [⟨n, if init.any Expr.isComponent then .functionBinding else .binding⟩]
  | (pattern, _) => pattern.collected.map fun n => ⟨n, .binding⟩

/-- The declarations of one statement. -/
def ofStatement : Statement → List Declaration
  | .bindings _ declarators => declarators.flatMap ofDeclarator
  | .function name => [⟨name, .function⟩]
  | .classDecl name parent =>
    [⟨name, .classDecl (parent.any fun e => e.isKnownAs componentClasses)⟩]
  | .exported _ _ => []
  | .compound _ => []
  | .other => []

/-- The declarations of a program, in order. -/
def ofProgram (statements : List Statement) : List Declaration :=
  statements.flatMap ofStatement

end Declaration

end LivePreview
