/-
Markup inside of programs.

An element is closed by a tag of its own name.  Its attributes are bare, strings, other
elements or expressions in braces, and its children text, elements and expressions in
braces.  Text holds no bracket that opens or closes one of these.
-/
import LivePreview.Program.Reader

namespace LivePreview.Program

open Reader

/-- Pass over blanks and comments inside of a tag. -/
def skipGap : Reader Unit := modify fun s => (gap s).2

/-- Take this character. -/
def char (c : Char) : Reader Unit := do
  match ← get with
  | d :: s => if c = d then set s else failure
  | [] => failure

/-- True if this character follows. -/
def atChar (c : Char) : Reader Bool := return (← get).head? == some c

/-- Take this character if it follows. -/
def char? (c : Char) : Reader Bool := do
  if ← atChar c then char c; return true else return false

/-- A word of a tag, hyphens included. -/
def tagWord : Reader Text := do
  let s ← get
  match s with
  | [] => failure
  | c :: t =>
    if !opensName c then failure
    let fits (c : Char) : Bool := continuesName c || c == '-'
    set (t.dropWhile fits)
    return c :: t.takeWhile fits

/-- The name of a tag, with its parts. -/
def tagName : Reader Text := do
  let first ← tagWord
  skipGap
  if ← char? ':' then
    skipGap
    let second ← tagWord
    return first ++ ':' :: second
  let parts ← many do
    skipGap
    if ← char? '.' then
      skipGap
      return some (← tagWord)
    else return none
  return first ++ parts.flatMap ('.' :: ·)

/-- A string as the value of an attribute: nothing in it is an escape. -/
def attributeString (quote : Char) : Reader Unit := do
  match (← get).dropWhile (· != quote) with
  | _ :: rest => set rest
  | [] => failure

/-- The value of an attribute. -/
def attributeValue (inner : Inner) (p : Place) : Reader Unit := do
  match ← get with
  | [] => failure
  | c :: s =>
    if c = '<' then inner.element p
    else
      set s
      if c = '"' || c = '\'' then attributeString c
      else if c = '{' then
        let _ ← inner.value { p with canIn := true }
        sign "\x7d"
      else failure

/-- An attribute, if one follows. -/
def attribute? (inner : Inner) (p : Place) : Reader (Option Unit) := do
  skipGap
  match ← get with
  | [] => failure
  | c :: s =>
    if c = '/' || c = '>' then return none
    if c = '{' then
      set s
      sign "..."
      let _ ← inner.value { p with canIn := true }
      sign "\x7d"
      return some ()
    let _ ← tagWord
    skipGap
    if ← char? ':' then
      skipGap
      let _ ← tagWord
      skipGap
    if ← char? '=' then
      skipGap
      attributeValue inner p
    return some ()

/-- A child of an element, unless its closing tag follows. -/
def child? (inner : Inner) (p : Place) : Reader (Option Unit) := do
  match ← get with
  | [] => failure
  | c :: s =>
    if c = '<' then
      if (gap s).2.head? == some '/' then return none
      inner.element p
      return some ()
    else if c = '{' then
      set s
      if ← sign? "\x7d" then return some ()
      if ← sign? "..." then
        let _ ← inner.value { p with canIn := true }
      else
        let _ ← inner.sequence { p with canIn := true }
      sign "\x7d"
      return some ()
    else if c = '>' || c = '}' then failure
    else
      set s
      return some ()

/-- Children up to a closing tag, and the name in it. -/
def childrenToTag (inner : Inner) (p : Place) : Reader Text := do
  let _ ← many (child? inner p)
  char '<'
  skipGap
  char '/'
  skipGap
  let name ← if ← atChar '>' then pure [] else tagName
  skipGap
  char '>'
  return name

/-- An element of markup. -/
def readElement (inner : Inner) (p : Place) : Reader Unit := do
  skipGap
  char '<'
  skipGap
  let name ← if ← atChar '>' then pure [] else tagName
  if !name.isEmpty then
    let _ ← many (attribute? inner p)
  if ← char? '/' then
    skipGap
    char '>'
  else
    char '>'
    if (← childrenToTag inner p) != name then failure

end LivePreview.Program
