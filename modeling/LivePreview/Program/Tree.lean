/-
Syntax trees of programs.

A tree keeps what decides which names a program declares and as what: patterns as they
are, statements inside of statements, and of expressions those forms that can make a
variable a component.  All other forms are `other`.
-/
import LivePreview.Text.Basic

namespace LivePreview.Program

/-- What is bound by a declaration. -/
inductive Pattern where
  | name (n : Text)
  /-- the values of the properties, keys left out -/
  | object (items : List Pattern)
  | array (items : List Pattern)
  /-- a place of an array that is left out -/
  | hole
  /-- the rest of an object or array -/
  | rest (p : Pattern)
  /-- a pattern with a default value -/
  | withDefault (p : Pattern)
deriving Repr

/-- An expression. -/
inductive Expr where
  | name (n : Text)
  /-- a property that is named by a plain word -/
  | member (object : Expr) (property : Text)
  | call (callee : Expr) (arguments : List Expr)
  /-- the elements of an iterable, among arguments -/
  | spread (e : Expr)
  | arrow
  | function
  | parens (e : Expr)
  | other
deriving Repr

/-- True of the elements of an iterable. -/
def Expr.isSpread : Expr → Bool
  | .spread _ => true
  | _ => false

/-- A statement. -/
inductive Statement where
  /-- a variable declaration: each pattern with its initialiser; `hoisted` tells that its
  word is `var` -/
  | bindings (hoisted : Bool) (declarators : List (Pattern × Option Expr))
  | function (name : Text)
  | classDecl (name : Text) (parent : Option Expr)
  /-- an export, with the names that it gives to the module and those that it binds -/
  | exported (names declared : List Text)
  /-- a block or a statement of control flow: the statements inside of it, in order, and
  in front of the body of a loop the declaration in its head -/
  | compound (inside : List Statement)
  | other
deriving Repr

/-! ### Bound names -/

mutual

/-- The names that a pattern binds, in order. -/
def Pattern.bound : Pattern → List Text
  | .name n => [n]
  | .object items => Pattern.boundByAll items
  | .array items => Pattern.boundByAll items
  | .hole => []
  | .rest p => p.bound
  | .withDefault p => p.bound

/-- The names that several patterns bind, in order. -/
def Pattern.boundByAll : List Pattern → List Text
  | [] => []
  | p :: ps => p.bound ++ Pattern.boundByAll ps

end

mutual

/-- The names that a statement binds around itself, wherever it stands: those of `var`,
be it inside of other statements. -/
def Statement.hoisted : Statement → List Text
  | .bindings true declarators => declarators.flatMap fun (p, _) => p.bound
  | .compound inside => Statement.hoistedByAll inside
  | .bindings false _ | .function _ | .classDecl _ _ | .exported _ _ | .other => []

/-- The names that several statements bind around themselves, in order. -/
def Statement.hoistedByAll : List Statement → List Text
  | [] => []
  | st :: sts => st.hoisted ++ Statement.hoistedByAll sts

end

/-- The names that a statement binds where it stands, in order. -/
def Statement.bound : Statement → List Text
  | .bindings _ declarators => declarators.flatMap fun (p, _) => p.bound
  | .function name => [name]
  | .classDecl name _ => [name]
  | .exported _ declared => declared
  | .compound inside => Statement.hoistedByAll inside
  | .other => []

/-- The names that a statement exports. -/
def Statement.exportedNames : Statement → List Text
  | .exported names _ => names
  | _ => []

end LivePreview.Program
