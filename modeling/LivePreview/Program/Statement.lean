/-
Statements.
-/
import LivePreview.Program.Expression
import LivePreview.Program.Pattern

namespace LivePreview.Program

open Reader

/-! ### Variables -/

/-- True if a declaration of this pattern cannot do without a value. -/
def needsValue (isConst : Bool) : Pattern → Bool
  | .name _ => isConst
  | _ => true

/-- The rest of a list of declarators, of which the first pattern was read. -/
def declarators (inner : Inner) (p : Place) (isConst : Bool) (first : Pattern) :
    Reader (List (Pattern × Option Expr)) := do
  let one (pattern : Pattern) : Reader (Pattern × Option Expr) := do
    if ← sign? "=" then return (pattern, some (← inner.value p))
    else if needsValue isConst pattern then failure
    else return (pattern, none)
  let head ← one first
  let more ← many do
    if ← sign? "," then return some (← one (← inner.pattern p)) else return none
  return head :: more

/-- A variable declaration behind its first word. -/
def variableStatement (inner : Inner) (p : Place) (hoisted isConst : Bool) :
    Reader Statement := do
  let list ← declarators inner p isConst (← inner.pattern p)
  endStatement
  return .bindings hoisted list

/-- True if `let` in front of this text opens a declaration. -/
def declaresAfterLet (rest : Text) : Bool :=
  match (tokenAt (gap rest).2).1 with
  | .name n _ => n != "in".toList && n != "instanceof".toList && n != "of".toList
  | .sign s => s == "[" || s == "\x7b"
  | _ => false

/-! ### Control flow -/

/-- An expression in round brackets. -/
def condition (inner : Inner) (p : Place) : Reader Unit := do
  sign "("
  let _ ← inner.sequence p
  sign ")"

/-- A statement that belongs to another one. -/
def belonging (inner : Inner) (p : Place) : Reader Statement :=
  inner.statement { p with top := false } false

/-- What stands behind the head of a loop over `in` or `of`, if the loop is one; a loop
that waits is one over `of`. -/
def iterates? (inner : Inner) (p : Place) (waits : Bool) : Reader Bool := do
  if ← word? "of" then
    let _ ← inner.value p
    return true
  else if waits then failure
  else if ← word? "in" then
    let _ ← inner.sequence p
    return true
  else return false

/-- The rest of the head of a counting loop, behind what it starts with. -/
def countingTail (inner : Inner) (p : Place) : Reader Unit := do
  sign ";"
  if !(← atSign ";") then
    let _ ← inner.sequence p
  sign ";"
  if !(← atSign ")") then
    let _ ← inner.sequence p

/-- The head of a loop with a declaration, behind its first word. -/
def declaringHead (inner : Inner) (p : Place) (waits hoisted isConst : Bool) :
    Reader Statement := do
  let pattern ← inner.pattern p
  if ← iterates? inner p waits then return .bindings hoisted [(pattern, none)]
  else
    let list ← declarators inner { p with canIn := false } isConst pattern
    countingTail inner p
    return .bindings hoisted list

/-- The head of a loop with an expression. -/
def expressionHead (inner : Inner) (p : Place) (waits : Bool) : Reader Statement := do
  let o ← inner.assignment { p with canIn := false }
  if !(o.target && (← iterates? inner p waits)) then
    if o.pending || waits then failure
    let _ ← many do
      if ← sign? "," then return some (← inner.value { p with canIn := false }) else return none
    countingTail inner p
  return .other

/-- The head of a `for` loop behind its opening bracket. -/
def loopHead (inner : Inner) (p : Place) (waits : Bool) : Reader Statement := do
  match ← ahead with
  | (_, .sign ";", _) =>
    if waits then failure
    countingTail inner p
    return .other
  | (_, .name w true, rest) =>
    if w = "var".toList then
      set rest
      declaringHead inner p waits true false
    else if w = "let".toList && declaresAfterLet rest then
      set rest
      declaringHead inner p waits false false
    else if w = "const".toList then
      set rest
      declaringHead inner p waits false true
    else expressionHead inner p waits
  | _ => expressionHead inner p waits

/-- A `for` loop behind its word: what its head declares, and its body. -/
def forLoop (inner : Inner) (p : Place) : Reader (List Statement) := do
  let waits ← if p.canAwait then word? "await" else pure false
  sign "("
  let head ← loopHead inner p waits
  sign ")"
  return [head, ← belonging inner p]

/-- A case of a switch, if one follows. -/
def case? (inner : Inner) (p : Place) : Reader (Option Statement) := do
  if ← sign? "\x7d" then return none
  if ← word? "case" then
    let _ ← inner.sequence p
  else word "default"
  sign ":"
  let inside ← many do
    match ← ahead with
    | (_, .sign "\x7d", _) => return none
    | (_, .name w true, _) =>
      if w = "case".toList || w = "default".toList then return none
      else return some (← inner.statement { p with top := false } true)
    | _ => return some (← inner.statement { p with top := false } true)
  return some (.compound inside)

/-- What a `try` statement does with an error, behind `catch`. -/
def catchBlock (inner : Inner) (p : Place) : Reader Statement := do
  if ← sign? "(" then
    let _ ← inner.pattern p
    sign ")"
  return .compound (← block inner p)

/-- A `try` statement behind its word. -/
def tryBlock (inner : Inner) (p : Place) : Reader (List Statement) := do
  let tried : Statement := .compound (← block inner p)
  let caught ← if ← word? "catch" then some <$> catchBlock inner p else pure none
  if ← word? "finally" then return tried :: caught.toList ++ [.compound (← block inner p)]
  else if caught.isNone then failure
  else return tried :: caught.toList

/-- What stands behind `break` and `continue`: a label on the same line, or nothing. -/
def jump : Reader Unit := do
  match ← ahead with
  | (false, .name n _, rest) => if isName n then set rest
  | _ => pure ()
  endStatement

/-- A statement that leaves something, behind its word; `false` if the word opens none. -/
def leaving (inner : Inner) (p : Place) (w : Text) : Reader Bool := do
  match String.ofList w with
  | "break" | "continue" => jump
  | "debugger" => endStatement
  | "return" =>
    if !p.canReturn then failure
    match ← ahead with
    | (true, _, _) | (_, .eof, _) | (_, .sign ";", _) | (_, .sign "\x7d", _) => pure ()
    | _ =>
      let _ ← inner.sequence p
    endStatement
  | "throw" =>
    if (← ahead).1 then failure
    let _ ← inner.sequence p
    endStatement
  | _ => return false
  return true

/-- The statements inside of one that a word of control flow opens, behind the word; none
if the word opens no such statement. -/
def controlled? (inner : Inner) (p : Place) (w : Text) : Reader (Option (List Statement)) := do
  match String.ofList w with
  | "if" =>
    condition inner p
    let body ← belonging inner p
    if ← word? "else" then return some [body, ← belonging inner p] else return some [body]
  | "for" => return some (← forLoop inner p)
  | "while" =>
    condition inner p
    return some [← belonging inner p]
  | "do" =>
    let body ← belonging inner p
    word "while"
    condition inner p
    let _ ← sign? ";"
    return some [body]
  | "switch" =>
    condition inner p
    sign "\x7b"
    return some (← many (case? inner p))
  | "try" => return some (← tryBlock inner p)
  | _ => return none

/-! ### Imports and exports -/

/-- The name of something in a module: a word or a string. -/
def moduleName : Reader Token := do
  match ← ahead with
  | (_, .name n plain, rest) =>
    set rest
    return .name n plain
  | (_, .string, rest) =>
    set rest
    return .string
  | _ => failure

/-- The attributes of an import. -/
def importAttributes : Reader Unit := do
  if ← word? "with" then
    sign "\x7b"
    let _ ← listUntil "\x7d" do
      let _ ← moduleName
      sign ":"
      string
  endStatement

/-- `from` and a source. -/
def fromSource : Reader Unit := do
  word "from"
  string
  importAttributes

/-- A specifier in the braces of an import. -/
def importSpecifier : Reader Unit := do
  match ← moduleName with
  | .name n _ =>
    if ← word? "as" then
      let _ ← bindable
    else if !isName n then failure
  | _ =>
    word "as"
    let _ ← bindable

/-- The part of an import that is a namespace or in braces. -/
def importedNames : Reader Unit := do
  if ← sign? "*" then
    word "as"
    let _ ← bindable
  else
    sign "\x7b"
    let _ ← listUntil "\x7d" importSpecifier

/-- An import behind its word. -/
def importTail : Reader Unit := do
  match ← ahead with
  | (_, .string, rest) =>
    set rest
    importAttributes
  | (_, .name n _, rest) =>
    if !isName n then failure
    set rest
    if ← sign? "," then importedNames
    fromSource
  | _ =>
    importedNames
    fromSource

/-- The word of a token that is one. -/
def wordOf : Token → Option Text
  | .name n _ => some n
  | _ => none

/-- A specifier in the braces of an export: whether it names nothing that this module can
bind, and the word under which it exports. -/
def exportSpecifier : Reader (Bool × Option Text) := do
  let source ← moduleName
  let as ← if ← word? "as" then moduleName else pure source
  return (!(wordOf source).any isName, wordOf as)

/-- The name of a default export. -/
def defaultWord : Text := "default".toList

/-- A default export behind its words, and the name of the function or class that it is, if
that has one. -/
def exportDefault (inner : Inner) (p : Place) : Reader (Option Text) := do
  match ← ahead with
  | (_, .name w true, rest) =>
    let (ended, s) := gap rest
    if w = "function".toList then
      set rest
      functionRest inner false
    else if w = "async".toList && !ended && (tokenAt s).1 == .name "function".toList true then
      set (tokenAt s).2
      functionRest inner true
    else if w = "class".toList then
      set rest
      return (← classRest inner p).1
    else
      let _ ← inner.value p
      endStatement
      return none
  | _ =>
    let _ ← inner.value p
    endStatement
    return none

/-- An export behind its word. -/
def exportTail (inner : Inner) (p : Place) : Reader Statement := do
  if ← word? "default" then
    return .exported [defaultWord] (← exportDefault inner p).toList
  else if ← sign? "*" then
    let name ← if ← word? "as" then some <$> moduleName else pure none
    fromSource
    return .exported (name.bind wordOf).toList []
  else if ← sign? "\x7b" then
    let specifiers ← listUntil "\x7d" exportSpecifier
    match ← ahead with
    | (_, .name w true, _) =>
      if w = "from".toList then fromSource
      else if specifiers.any Prod.fst then failure
      else endStatement
    | _ => if specifiers.any Prod.fst then failure else endStatement
    return .exported (specifiers.filterMap Prod.snd) []
  else match ← ahead with
    | (_, .name w true, _) =>
      if ["var", "let", "const", "function", "class", "async"].any (·.toList == w) then
        match ← inner.statement { p with top := false } true with
        | .compound _ | .other => failure
        | declaration => return .exported declaration.bound declaration.bound
      else failure
    | (_, .sign "@", _) =>
      match ← inner.statement { p with top := false } true with
      | .classDecl name _ => return .exported [name] [name]
      | _ => failure
    | _ => failure

/-! ### Statements -/

/-- A statement that is an expression. -/
def expressionStatement (inner : Inner) (p : Place) : Reader Statement := do
  let _ ← inner.sequence { p with canIn := true }
  endStatement
  return .other

/-- A function declaration behind the word `function`. -/
def functionDeclaration (inner : Inner) (isAsync : Bool) : Reader Statement := do
  match ← functionRest inner isAsync with
  | some n => return .function n
  | none => failure

/-- A class declaration behind the word `class`. -/
def classDeclaration (inner : Inner) (p : Place) : Reader Statement := do
  match ← classRest inner p with
  | (some n, parent) => return .classDecl n parent
  | (none, _) => failure

/-- A statement that a word opens; `rest` is what remains behind the word. -/
def wordStatement (inner : Inner) (p : Place) (declares : Bool) (w rest : Text) :
    Reader Statement := do
  let (ended, behind) := gap rest
  let (next, afterNext) := tokenAt behind
  if w = "var".toList then
    set rest
    variableStatement inner p true false
  else if w = "let".toList && declaresAfterLet rest then
    if !declares then failure
    set rest
    variableStatement inner p false false
  else if w = "const".toList then
    if !declares then failure
    set rest
    variableStatement inner p false true
  else if w = "function".toList then
    if !declares then failure
    set rest
    functionDeclaration inner false
  else if w = "async".toList && !ended && next == .name "function".toList true then
    if !declares then failure
    set afterNext
    functionDeclaration inner true
  else if w = "class".toList then
    if !declares then failure
    set rest
    classDeclaration inner p
  else if w = "import".toList && next != .sign "(" && next != .sign "." then
    if !p.top then failure
    set rest
    importTail
    return .other
  else if w = "export".toList then
    if !p.top then failure
    set rest
    exportTail inner p
  else if isName w && next == .sign ":" then
    set afterNext
    return .compound [← belonging inner p]
  else
    let start ← get
    set rest
    if let some inside ← controlled? inner p w then return .compound inside
    if ← leaving inner p w then return .other
    set start
    expressionStatement inner p

/-- A statement; `declares` tells whether it may be a declaration. -/
def readStatement (inner : Inner) (p : Place) (declares : Bool) : Reader Statement := do
  let p := { p with canIn := true }
  match ← ahead with
  | (_, .sign ";", rest) =>
    set rest
    return .other
  | (_, .sign "\x7b", _) => return .compound (← block inner p)
  | (_, .sign "@", _) =>
    decorators inner p
    if (← atSign "@") || !declares then failure
    if ← word? "export" then
      return ← exportTail inner p
    word "class"
    classDeclaration inner p
  | (_, .name w true, rest) => wordStatement inner p declares w rest
  | _ => expressionStatement inner p

end LivePreview.Program
