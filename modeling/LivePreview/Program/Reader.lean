/-
Reading programs.

A reader takes what it needs off the front of the text or fails.  Whatever stands inside
of something else, such as the expression in a pair of brackets, is read by `Inner`, the
readers one level further in; so the grammar itself is not recursive, and the number of
levels is settled in one place, where the readers are tied together.

The same text may be an expression or a pattern until an `=` or an arrow behind it
decides.  An `Operand` therefore says of an expression also whether it could be either.
-/
import LivePreview.Program.Token
import LivePreview.Program.Tree

namespace LivePreview.Program

/-- A reader of programs. -/
abbrev Reader := StateT Text Option

/-! ### Tokens -/

namespace Reader

/-- The next token: whether a line ended in front of it, the token, and what remains
behind it. -/
def ahead : Reader (Bool × Token × Text) := do
  let (ended, s) := gap (← get)
  let (token, rest) := tokenAt s
  return (ended, token, rest)

/-- Take the next token if it is this sign. -/
def sign? (s : String) : Reader Bool := do
  let (_, token, rest) ← ahead
  if token == .sign s then set rest
  return token == .sign s

/-- Take this sign. -/
def sign (s : String) : Reader Unit := do
  if !(← sign? s) then failure

/-- True if the next token is this sign. -/
def atSign (s : String) : Reader Bool := do
  let (_, token, _) ← ahead
  return token == .sign s

/-- Take the next token if it is this word. -/
def word? (w : String) : Reader Bool := do
  let (_, token, rest) ← ahead
  let found := token == .name w.toList true
  if found then set rest
  return found

/-- Take this word. -/
def word (w : String) : Reader Unit := do
  if !(← word? w) then failure

/-- Take a name that something can be bound to. -/
def bindable : Reader Text := do
  match ← ahead with
  | (_, .name n _, rest) => if isName n then set rest; return n else failure
  | _ => failure

/-- Take a string. -/
def string : Reader Unit := do
  match ← ahead with
  | (_, .string, rest) => set rest
  | _ => failure

/-- Take the end of a statement: a `;`, or a place where a statement ends by itself. -/
def endStatement : Reader Unit := do
  match ← ahead with
  | (_, .sign ";", rest) => set rest
  | (_, .sign "\x7d", _) => return
  | (_, .eof, _) => return
  | (ended, _, _) => if !ended then failure

/-- Read items until there are no more, at most `n` of them. -/
def manyFrom {α : Type} (item : Reader (Option α)) : Nat → Reader (List α)
  | 0 => failure
  | n + 1 => do
    match ← item with
    | none => return []
    | some a => return a :: (← manyFrom item n)

/-- Read items until there are no more. -/
def many {α : Type} (item : Reader (Option α)) : Reader (List α) := do
  manyFrom item ((← get).length + 1)

/-- Read items up to the sign that closes a list, with commas between them; a comma may
stand in front of the closing sign. -/
def listUntil {α : Type} (closing : String) (item : Reader α) : Reader (List α) :=
  many do
    if ← sign? closing then return none
    let a ← item
    if !(← sign? ",") && !(← atSign closing) then failure
    return some a

end Reader

/-! ### Places and operands -/

/-- What may stand at a place. -/
structure Place where
  /-- inside a function -/
  canReturn : Bool := false
  /-- in an asynchronous function or outside of all functions -/
  canAwait : Bool := true
  /-- in a generator -/
  canYield : Bool := false
  /-- where `in` is an operator -/
  canIn : Bool := true
  /-- outside of all blocks and functions -/
  top : Bool := true

/-- The inside of a function. -/
def Place.body (isAsync isGenerator : Bool) : Place :=
  { canReturn := true, canAwait := isAsync, canYield := isGenerator, top := false }

/-- Which of the operators that do not mix an expression ends in. -/
inductive Mixing where
  | free
  /-- `??` -/
  | coalescing
  /-- `||` or `&&` -/
  | logical
deriving DecidableEq

/-- An expression, and what else it could be. -/
structure Operand where
  expr : Expr := .other
  /-- a name or property that can be assigned to -/
  simple : Bool := false
  /-- an element of a pattern that can be assigned to -/
  target : Bool := false
  /-- an element of a pattern that binds -/
  binding : Bool := false
  /-- holds a default value that only a pattern can hold -/
  pending : Bool := false
  /-- starts with an operator in front -/
  unary : Bool := false
  mixing : Mixing := .free

/-- The readers of what stands further in. -/
structure Inner where
  /-- an expression without commas -/
  assignment : Place → Reader Operand
  /-- an expression without operators -/
  leftHand : Place → Reader Operand
  /-- what is bound, without a default value -/
  pattern : Place → Reader Pattern
  /-- a statement; the flag tells whether it may be a declaration -/
  statement : Place → Bool → Reader Statement
  /-- an element of markup -/
  element : Place → Reader Unit

/-- The readers of nothing. -/
def Inner.nothing : Inner :=
  { assignment := fun _ => failure
    leftHand := fun _ => failure
    pattern := fun _ => failure
    statement := fun _ _ => failure
    element := fun _ => failure }

namespace Inner

open Reader

/-- An expression without commas that is no pattern. -/
def value (inner : Inner) (p : Place) : Reader Expr := do
  let o ← inner.assignment p
  if o.pending then failure
  return o.expr

/-- Expressions with commas between them; more than one are no form of their own. -/
def sequence (inner : Inner) (p : Place) : Reader Expr := do
  let first ← inner.value p
  let more ← many do
    if ← sign? "," then return some (← inner.value p) else return none
  return if more.isEmpty then first else .other

/-- A pattern with an optional default value. -/
def elementPattern (inner : Inner) (p : Place) : Reader Pattern := do
  let target ← inner.pattern p
  if ← sign? "=" then
    let _ ← inner.value { p with canIn := true }
    return .withDefault target
  return target

/-- An expression in square brackets, as the key of a property. -/
def computedKey (inner : Inner) (p : Place) : Reader Unit := do
  let _ ← inner.value { p with canIn := true }
  sign "]"

end Inner

end LivePreview.Program
