/-
Functions and classes.
-/
import LivePreview.Program.Reader

namespace LivePreview.Program

open Reader

/-! ### Functions -/

/-- A parameter of a function, up to and with the comma behind it. -/
def parameter (inner : Inner) (p : Place) : Reader (Option Pattern) := do
  if ← sign? ")" then return none
  if ← sign? "..." then
    let target ← inner.pattern p
    if !(← atSign ")") then failure
    return some (.rest target)
  let element ← inner.elementPattern p
  if !(← sign? ",") && !(← atSign ")") then failure
  return some element

/-- The parameters of a function in their brackets. -/
def parameters (inner : Inner) (p : Place) : Reader (List Pattern) := do
  sign "("
  many (parameter inner p)

/-- Statements up to the brace that closes them. -/
def statementsToBrace (inner : Inner) (p : Place) : Reader (List Statement) :=
  many do
    if ← sign? "\x7d" then return none
    return some (← inner.statement { p with top := false, canIn := true } true)

/-- Statements in braces. -/
def block (inner : Inner) (p : Place) : Reader (List Statement) := do
  sign "\x7b"
  statementsToBrace inner p

/-- Parameters and body of a function, with the number of parameters. -/
def functionTail (inner : Inner) (isAsync isGenerator : Bool) : Reader Nat := do
  let body := Place.body isAsync isGenerator
  let ps ← parameters inner body
  let _ ← block inner body
  return ps.length

/-- A function behind the word `function`, with its name. -/
def functionRest (inner : Inner) (isAsync : Bool) : Reader (Option Text) := do
  let isGenerator ← sign? "*"
  let name ← match ← ahead with
    | (_, .name n _, rest) => do
      if !isName n then failure
      set rest
      pure (some n)
    | _ => pure none
  let _ ← functionTail inner isAsync isGenerator
  return name

/-! ### Members of classes and objects -/

/-- The words in front of the name of a method. -/
structure Modifiers where
  isAsync : Bool := false
  isGenerator : Bool := false
  getter : Bool := false
  setter : Bool := false

/-- True if the method can be no field or plain value. -/
def Modifiers.any (m : Modifiers) : Bool := m.isAsync || m.isGenerator || m.getter || m.setter

/-- True if the word in front of this token names the member itself. -/
def endsKey (t : Token) : Bool :=
  [Token.sign "(", .sign "=", .sign ";", .sign "\x7d", .sign ",", .sign ":", .eof].contains t

/-- Take a word in front of the name of a member, if it is no name itself. -/
def modifier? (w : String) (sameLine : Bool) : Reader Bool := do
  match ← ahead with
  | (_, .name n true, rest) =>
    let (ended, s) := gap rest
    if n = w.toList && !endsKey (tokenAt s).1 && !(sameLine && ended) then
      set rest
      return true
    else return false
  | _ => return false

/-- The words in front of the name of a method. -/
def modifiers : Reader Modifiers := do
  if ← modifier? "async" true then
    return { isAsync := true, isGenerator := ← sign? "*" }
  if ← sign? "*" then return { isGenerator := true }
  if ← modifier? "get" false then return { getter := true }
  if ← modifier? "set" false then return { setter := true }
  return {}

/-- Parameters and body of a method. -/
def methodTail (inner : Inner) (m : Modifiers) : Reader Unit := do
  let count ← functionTail inner m.isAsync m.isGenerator
  if (m.getter && count != 0) || (m.setter && count != 1) then failure

/-- Decorators, each an expression without operators. -/
def decorators (inner : Inner) (p : Place) : Reader Unit := do
  let _ ← many do
    if ← sign? "@" then return some (← inner.leftHand p) else return none

/-- The name of a member of a class, with its word if it is one. -/
def memberKey (inner : Inner) (p : Place) : Reader (Option Text) := do
  match ← ahead with
  | (_, .name w _, rest) =>
    set rest
    return some w
  | (_, .string, rest) | (_, .number, rest) | (_, .privateName, rest) =>
    set rest
    return none
  | (_, .sign "[", rest) =>
    set rest
    inner.computedKey p
    return none
  | _ => failure

/-- True of a word that names no field and no marked method: the constructor is a plain
method of the instance, and the prototype no member of the class itself. -/
def isBarred (isStatic isField marked : Bool) (w : Text) : Bool :=
  (w == "constructor".toList && (isField || (marked && !isStatic))) ||
    (w == "prototype".toList && isStatic)

/-- A member of a class. -/
def classMember (inner : Inner) (p : Place) : Reader Unit := do
  decorators inner p
  let inside : Place := { canReturn := false, canAwait := false, top := false }
  let isStatic ← modifier? "static" false
  if isStatic && (← atSign "\x7b") then
    let _ ← block inner inside
  else
    let m ← modifiers
    let key ← memberKey inner p
    let isField := !(← atSign "(")
    if key.any (isBarred isStatic isField m.any) then failure
    if !isField then methodTail inner m
    else if m.any then failure
    else
      if ← sign? "=" then
        let _ ← inner.value inside
      endStatement

/-- A class behind its name, with the class that it extends. -/
def classTail (inner : Inner) (p : Place) : Reader (Option Expr) := do
  let parent ←
    if ← word? "extends" then do
      let o ← inner.leftHand p
      if o.pending then failure
      pure (some o.expr)
    else pure none
  sign "\x7b"
  let _ ← many do
    if ← sign? "\x7d" then return none
    if ← sign? ";" then return some ()
    classMember inner p
    return some ()
  return parent

/-- A class behind the word `class`, with its name and the class that it extends. -/
def classRest (inner : Inner) (p : Place) : Reader (Option Text × Option Expr) := do
  let name ← match ← ahead with
    | (_, .name n _, rest) =>
      if n = "extends".toList then pure none
      else if !isName n then failure
      else do
        set rest
        pure (some n)
    | _ => pure none
  return (name, ← classTail inner p)

end LivePreview.Program
