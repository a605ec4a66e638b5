/-
Expressions with operators, arrows and assignments.
-/
import LivePreview.Program.Operand

namespace LivePreview.Program

open Reader

/-! ### Operators -/

/-- The words that are operators in front of an expression. -/
def operatorWords : List Text := ["typeof", "void", "delete"].map String.toList

/-- A `++` or `--` behind an expression on its line. -/
def afterUpdate (o : Operand) : Reader Operand := do
  match ← ahead with
  | (false, .sign "++", rest) | (false, .sign "--", rest) =>
    if !o.simple then failure
    set rest
    return {}
  | _ => return o

/-- An expression with operators in front, at most `n` of them. -/
def unary (inner : Inner) (p : Place) : Nat → Reader Operand
  | 0 => failure
  | n + 1 => do
    let (_, token, rest) ← ahead
    let further : Reader Operand := do
      set rest
      let o ← unary inner p n
      if o.pending then failure
      return { unary := true }
    match token with
    | .sign "!" | .sign "~" | .sign "+" | .sign "-" => further
    | .sign "++" | .sign "--" =>
      set rest
      let o ← unary inner p n
      if !o.simple || o.unary then failure
      return {}
    | .name w true =>
      if operatorWords.contains w || (w = "await".toList && p.canAwait) then further
      else afterUpdate (← readLeftHand inner p)
    | _ => afterUpdate (← readLeftHand inner p)

/-- The operators between expressions, weaker ones first. -/
def operatorLevels : List (List String) :=
  [["??"], ["||"], ["&&"], ["|"], ["^"], ["&"], ["==", "!=", "===", "!=="],
    ["<", ">", "<=", ">="], ["<<", ">>", ">>>"], ["+", "-"], ["*", "/", "%"], ["**"]]

/-- The level of comparisons, where the words `in` and `instanceof` belong. -/
def comparisonLevel : Nat := 7

/-- The level of powers, which group to the right. -/
def powerLevel : Nat := 11

/-- The level of the operator that a token is. -/
def operatorLevel? (p : Place) : Token → Option Nat
  | .sign s => operatorLevels.findIdx? fun level => level.contains s
  | .name w true =>
    if w = "instanceof".toList || (w = "in".toList && p.canIn) then some comparisonLevel
    else none
  | _ => none

/-- What an operator at this level may not be mixed with. -/
def mixingOf (level : Nat) : Mixing :=
  if level = 0 then .coalescing else if level ≤ 2 then .logical else .free

/-- True if an operand may stand at an operator of this level. -/
def mixes (level : Nat) (o : Operand) : Bool :=
  match mixingOf level, o.mixing with
  | .coalescing, .logical | .logical, .coalescing => false
  | _, _ => true

/-- Operators of at least this level behind an operand; `n` bounds their number. -/
def climb (inner : Inner) (p : Place) : Nat → Nat → Operand → Reader Operand
  | 0, _, _ => failure
  | n + 1, least, left => do
    let (_, token, rest) ← ahead
    match operatorLevel? p token with
    | none => return left
    | some level =>
      if level < least then return left
      if left.pending || (level = powerLevel && left.unary) then failure
      set rest
      let right ← unary inner p (rest.length + 1)
      let right ← climb inner p n (if level = powerLevel then level else level + 1) right
      if right.pending || !mixes level left || !mixes level right then failure
      climb inner p n least { mixing := mixingOf level }

/-- A condition with its two outcomes, or the operand alone. -/
def conditional (inner : Inner) (p : Place) (o : Operand) : Reader Operand := do
  if ← sign? "?" then
    if o.pending then failure
    let _ ← inner.value { p with canIn := true }
    sign ":"
    let _ ← inner.value p
    return {}
  else return o

/-! ### Assignments -/

/-- The signs that change a variable by its old value. -/
def updateSigns : List String :=
  ["+=", "-=", "*=", "/=", "%=", "&=", "|=", "^=", "<<=", ">>=", ">>>=", "**=", "&&=", "||=",
    "??="]

/-- An assignment to an operand, or the operand alone. -/
def assigned (inner : Inner) (p : Place) (o : Operand) : Reader Operand := do
  match ← ahead with
  | (_, .sign "=", rest) =>
    if !o.target then failure
    set rest
    let _ ← inner.value p
    return { target := true, binding := o.binding }
  | (_, .sign s, rest) =>
    if !updateSigns.contains s then return o
    if !o.simple then failure
    set rest
    let _ ← inner.value p
    return {}
  | _ => return o

/-- Everything that can stand behind an expression without operators. -/
def operatorsOn (inner : Inner) (p : Place) (o : Operand) : Reader Operand := do
  let o ← climb inner p ((← get).length + 1) 0 o
  assigned inner p (← conditional inner p o)

/-- Everything that can stand behind a single expression. -/
def finish (inner : Inner) (p : Place) (o : Operand) : Reader Operand := do
  operatorsOn inner p (← afterUpdate (← chainOn inner p o))

/-! ### Arrow functions -/

/-- Take an arrow on the line of its parameters. -/
def arrow? : Reader Bool := do
  match ← ahead with
  | (false, .sign "=>", rest) =>
    set rest
    return true
  | _ => return false

/-- The body of an arrow function. -/
def arrowBody (inner : Inner) (p : Place) (isAsync : Bool) : Reader Operand := do
  let body := Place.body isAsync false
  if ← atSign "\x7b" then
    let _ ← block inner body
  else
    let _ ← inner.value { body with canIn := p.canIn }
  return { expr := .arrow }

/-- What starts with the word `async`; `rest` is what remains behind it. -/
def startingAsync (inner : Inner) (p : Place) (rest : Text) : Reader Operand := do
  let name := "async".toList
  set rest
  match ← ahead with
  | (false, .name w true, _) =>
    if w = "function".toList then finish inner p (← opened inner p name rest)
    else if isName w then
      let _ ← bindable
      if ← arrow? then arrowBody inner p true else failure
    else finish inner p (.ofName name)
  | (false, .sign "(", rest) =>
    set rest
    let g ← arguments inner p
    if ← arrow? then
      if !g.isParameters then failure
      arrowBody inner p true
    else finish inner p { expr := .call (.name name) (← g.values) }
  | _ =>
    if ← arrow? then arrowBody inner p false
    else finish inner p (.ofName name)

/-- What starts with a round bracket, behind it. -/
def startingRound (inner : Inner) (p : Place) : Reader Operand := do
  let g ← roundGroup inner p
  if ← arrow? then
    if !g.isParameters then failure
    arrowBody inner p false
  else finish inner p (← g.parenthesised)

/-- What stands behind `yield`. -/
def yielded (inner : Inner) (p : Place) : Reader Operand := do
  let (ended, token, rest) ← ahead
  if token == .sign "*" && !ended then
    set rest
    let _ ← inner.value p
  else if !ended && !endsKey token && token != .sign ")" && token != .sign "]" then
    let _ ← inner.value p
  return {}

/-- An expression without commas. -/
def readAssignment (inner : Inner) (p : Place) : Reader Operand := do
  let (_, token, rest) ← ahead
  match token with
  | .sign "(" =>
    set rest
    startingRound inner p
  | .name w plain =>
    if plain && w = "async".toList then startingAsync inner p rest
    else if plain && w = "yield".toList && p.canYield then
      set rest
      yielded inner p
    else if isName w then
      set rest
      if ← arrow? then arrowBody inner p false else finish inner p (.ofName w)
    else operatorsOn inner p (← unary inner p (rest.length + 1))
  | _ => operatorsOn inner p (← unary inner p (rest.length + 2))

end LivePreview.Program
