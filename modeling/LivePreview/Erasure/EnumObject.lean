/-
Enums as object literals.

`enum Name { A, B = 4, C }` becomes `const Name = { A: 0, B: 4, C: 5 };`.  A member
with an initialiser keeps the text of it; one without takes the value after that of
the member in front.  Values are counted in 64 bit words with a sign, and the value
after the largest of them does not exist: that is the one way in which erasing fails.
-/
import LivePreview.Script.Extent
import LivePreview.Text.Quoted

namespace LivePreview.EnumObject

open Script

/-! ### Parts between top-level separators -/

/-- What remains behind the piece of code at the front of the text: a group, a literal
or a comment as a whole, or else one character.  A group without an end reaches to the
end of the text. -/
def skipPiece : Text → Text
  | [] => []
  | c :: s =>
    if (Bracket.opened? c).isSome then (afterGroup? (c :: s)).getD []
    else (afterLiteral? (c :: s)).getD s

/-- The parts of `s` between the top-level separators.  `part` is what was read of the
current part, last character first, and `n` bounds the number of pieces. -/
def splitFrom (sep : Char) : Nat → Text → Text → List Text
  | 0, part, s => [part.reverse ++ s]
  | _, part, [] => [part.reverse]
  | n + 1, part, c :: s =>
    if c = sep then part.reverse :: splitFrom sep n [] s
    else
      let rest := skipPiece (c :: s)
      splitFrom sep n ((Text.consumed (c :: s) rest).reverse ++ part) rest

/-- The parts of a text between the separators that lie outside groups, literals and
comments. -/
def splitTopLevel (sep : Char) (s : Text) : List Text := splitFrom sep s.length [] s

/-- The text without its comments; a string keeps what looks like one.  `n` bounds the
number of pieces. -/
def withoutCommentsFrom : Nat → Text → Text
  | 0, s => s
  | _, [] => []
  | n + 1, c :: s =>
    match c :: s with
    | '/' :: '/' :: t => withoutCommentsFrom n (Text.skipLine t)
    | '/' :: '*' :: t => withoutCommentsFrom n (blockRest t)
    | _ =>
      if isQuote c then
        let rest := stringRest c s
        Text.consumed (c :: s) rest ++ withoutCommentsFrom n rest
      else c :: withoutCommentsFrom n s

/-- The text without its comments. -/
def withoutComments (s : Text) : Text := withoutCommentsFrom s.length s

/-! ### Member values -/

/-- The largest value of a member. -/
def maxValue : Int := 9223372036854775807

/-- The smallest value of a member. -/
def minValue : Int := -9223372036854775808

/-- The value of a decimal numeral without a sign. -/
def digitsValue? (s : Text) : Option Nat :=
  if s.isEmpty || !s.all isAsciiDigit then none
  else some (s.foldl (fun n c => 10 * n + (c.toNat - '0'.toNat)) 0)

/-- The value of a decimal numeral with an optional sign, if it fits. -/
def value? (s : Text) : Option Int :=
  let value := match s with
    | '-' :: digits => (digitsValue? digits).map fun n => -(n : Int)
    | '+' :: digits => (digitsValue? digits).map fun n => (n : Int)
    | digits => (digitsValue? digits).map fun n => (n : Int)
  value.filter fun v => minValue ≤ v && v ≤ maxValue

/-- A member value has no successor. -/
inductive Overflow where
  | overflow
deriving DecidableEq, Repr

/-- The value after `v`. -/
def successor (v : Int) : Except Overflow Int :=
  if v = maxValue then .error .overflow else .ok (v + 1)

/-! ### Members -/

/-- A member as it is written: the text of its key, and of its initialiser. -/
structure Member where
  key : Text
  init : Option Text
deriving DecidableEq, Repr

/-- The member written in one part of an enum body, if the part is not blank. -/
def Member.read? (part : Text) : Option Member :=
  let text := Text.trim (withoutComments part)
  if text.isEmpty then none
  else match Text.cutFirst '=' text with
    | some (key, init) => some ⟨Text.trim key, some (Text.trim init)⟩
    | none => some ⟨text, none⟩

/-- The key of a member as a property name. -/
def propertyName (key : Text) : Text :=
  let name := Text.trimBy isQuote key
  if isIdentifier name then name else Text.quoted name

/-- The properties for the members, where `index` members came before and `next` is the
value that the next one takes if it has no initialiser. -/
def properties : Nat → Option Int → List Member → Except Overflow (List Text)
  | _, _, [] => .ok []
  | index, next, m :: ms => do
    let (value, next) ← match m.init with
      | some init =>
        match value? init with
        | some v => do pure (init, some (← successor v))
        | none => pure (init, none)
      | none => do
        let v := next.getD index
        pure ((toString v).toList, some (← successor v))
    let later ← properties (index + 1) next ms
    return (propertyName m.key ++ ": ".toList ++ value) :: later

/-- The object that stands for an enum with this name and body. -/
def render (name body : Text) : Except Overflow Text := do
  let members ← properties 0 (some 0) ((splitTopLevel ',' body).filterMap Member.read?)
  return "const ".toList ++ name ++ " = \x7b ".toList ++ Text.join ", ".toList members ++
    " \x7d;".toList

end LivePreview.EnumObject
