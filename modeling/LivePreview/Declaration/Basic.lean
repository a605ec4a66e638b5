/-
Names that code declares at its top level.
-/
import LivePreview.Text.Basic

namespace LivePreview

/-- What a name is declared as. -/
inductive DeclarationKind where
  /-- a function declaration -/
  | function
  /-- a variable that is a function or a wrapped component -/
  | functionBinding
  /-- a class -/
  | classDecl (extendsComponent : Bool)
  /-- any other variable -/
  | binding
deriving DecidableEq, Repr

/-- A declared name. -/
structure Declaration where
  name : Text
  kind : DeclarationKind
deriving DecidableEq, Repr

/-- The functions whose result is a component if their argument is one. -/
def componentWrappers : List Text := ["memo", "forwardRef", "observer"].map String.toList

end LivePreview
