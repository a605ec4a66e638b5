/-
Expressions without operators.

Names, literals, brackets, functions and markup, and what is called on them.
-/
import LivePreview.Program.Function
import LivePreview.Program.Markup

namespace LivePreview.Program

open Reader

/-! ### Literals -/

/-- The rest of a template behind its backtick; `tagged` tells that its escapes need not
be proper.  `n` bounds the number of steps. -/
def templateFrom (inner : Inner) (p : Place) (tagged : Bool) : Nat → Reader Unit
  | 0 => failure
  | n + 1 => do
    match ← get with
    | [] => failure
    | '$' :: '{' :: s =>
      set s
      let _ ← inner.sequence { p with canIn := true }
      sign "\x7d"
      templateFrom inner p tagged n
    | c :: s =>
      if c = '\x60' then set s
      else if c = '\\' then
        if !tagged && !isEscape s then failure
        set (s.drop 1)
        templateFrom inner p tagged n
      else
        set s
        templateFrom inner p tagged n

/-- The rest of a template behind its backtick. -/
def templateRest (inner : Inner) (p : Place) (tagged : Bool) : Reader Unit := do
  templateFrom inner p tagged ((← get).length + 1)

/-- What remains behind the body of a regular expression and its closing `/`. -/
def regexBody? : Bool → Text → Option Text
  | _, [] => none
  | inClass, '\\' :: c :: s => if endsLine c then none else regexBody? inClass s
  | inClass, c :: s =>
    if endsLine c then none
    else if c = '[' then regexBody? true s
    else if c = ']' then regexBody? false s
    else if c = '/' && !inClass then some s
    else regexBody? inClass s

/-- A regular expression at its first `/`. -/
def regex : Reader Unit := do
  match (gap (← get)).2 with
  | '/' :: s =>
    match regexBody? false s with
    | some rest =>
      let flags := rest.takeWhile continuesName
      if !flags.all "dgimsuvy".toList.contains || flags.eraseDups.length != flags.length then
        failure
      set (rest.drop flags.length)
    | none => failure
  | _ => failure

/-! ### Lists of expressions -/

/-- An item of a list of expressions. -/
structure Item where
  operand : Operand
  spread : Bool

/-- Items in brackets that may yet become parameters. -/
structure Group where
  items : List Item
  /-- true if a comma stands in front of the closing bracket -/
  trailing : Bool

/-- True if the group can be a list of parameters. -/
def Group.isParameters (g : Group) : Bool :=
  g.items.all (fun i => i.operand.binding) && g.items.dropLast.all (fun i => !i.spread) &&
    !(g.trailing && g.items.getLast?.any fun i => i.spread)

/-- The arguments of a call, behind the opening bracket. -/
def arguments (inner : Inner) (p : Place) : Reader Group := do
  let inside := { p with canIn := true }
  let items ← many do
    if ← sign? ")" then return none
    let spread ← sign? "..."
    let o ← inner.assignment inside
    let comma ← sign? ","
    if !comma && !(← atSign ")") then failure
    return some (Item.mk o spread, comma)
  return ⟨items.map Prod.fst, items.getLast?.any Prod.snd⟩

/-- The expressions of a group. -/
def Group.values (g : Group) : Reader (List Expr) := do
  if g.items.any fun i => i.operand.pending then failure
  return g.items.map fun i => if i.spread then .spread i.operand.expr else i.operand.expr

/-- What stands in round brackets, behind the opening one. -/
def roundGroup (inner : Inner) (p : Place) : Reader Group := do
  let inside := { p with canIn := true }
  let items ← many do
    if ← sign? ")" then return none
    if ← sign? "..." then
      let _ ← inner.pattern inside
      if !(← atSign ")") then failure
      return some (Item.mk { binding := true } true, false)
    let o ← inner.assignment inside
    let comma ← sign? ","
    if !comma && !(← atSign ")") then failure
    return some (Item.mk o false, comma)
  return ⟨items.map Prod.fst, items.getLast?.any Prod.snd⟩

/-- A group as an expression in brackets. -/
def Group.parenthesised (g : Group) : Reader Operand := do
  if g.trailing || g.items.any fun i => i.spread || i.operand.pending then failure
  match g.items with
  | [] => failure
  | [i] => return { expr := .parens i.operand.expr, simple := i.operand.simple,
                    target := i.operand.simple }
  | _ => return { expr := .parens .other }

/-- An item of an array, up to and with the comma behind it. -/
def arrayElement (inner : Inner) (p : Place) : Reader (Option Item) := do
  if ← sign? "]" then return none
  if ← sign? "," then return some ⟨{ target := true, binding := true }, false⟩
  let spread ← sign? "..."
  let o ← inner.assignment { p with canIn := true }
  if !(← sign? ",") && !(← atSign "]") then failure
  return some ⟨o, spread⟩

/-- An array, behind its opening bracket. -/
def arrayRest (inner : Inner) (p : Place) : Reader Operand := do
  let items ← many (arrayElement inner p)
  let last := items.dropLast.all fun i => !i.spread
  return { target := last && items.all fun i => i.operand.target
           binding := last && items.all fun i => i.operand.binding
           pending := items.any fun i => i.operand.pending }

/-- A method of an object, behind the words in front of its name. -/
def objectMethod (inner : Inner) (p : Place) (m : Modifiers) : Reader Operand := do
  match ← ahead with
  | (_, .sign "[", rest) =>
    set rest
    inner.computedKey p
  | (_, .name _ _, rest) | (_, .string, rest) | (_, .number, rest) => set rest
  | _ => failure
  methodTail inner m
  return {}

/-- What stands behind the key of a property. -/
def propertyTail (inner : Inner) (p : Place) : Reader Operand := do
  if ← sign? ":" then inner.assignment { p with canIn := true }
  else
    methodTail inner {}
    return {}

/-- A property of an object. -/
def property (inner : Inner) (p : Place) : Reader Operand := do
  if ← sign? "..." then
    let o ← inner.assignment { p with canIn := true }
    return { target := o.simple, binding := o.binding && o.simple, pending := o.pending }
  let m ← modifiers
  if m.any then objectMethod inner p m
  else match ← ahead with
    | (_, .name n _, rest) =>
      set rest
      match ← ahead with
      | (_, .sign ":", _) | (_, .sign "(", _) => propertyTail inner p
      | (_, .sign "=", rest) =>
        if !isName n then failure
        set rest
        let _ ← inner.value { p with canIn := true }
        return { target := true, binding := true, pending := true }
      | _ => if isName n then return { target := true, binding := true } else failure
    | (_, .sign "[", rest) =>
      set rest
      inner.computedKey p
      propertyTail inner p
    | (_, .string, rest) | (_, .number, rest) =>
      set rest
      propertyTail inner p
    | _ => failure

/-- An object, behind its opening brace. -/
def objectRest (inner : Inner) (p : Place) : Reader Operand := do
  let items ← listUntil "\x7d" (property inner p)
  return { target := items.all fun o => o.target
           binding := items.all fun o => o.binding
           pending := items.any fun o => o.pending }

/-! ### What is called on an expression -/

/-- A property named by a plain word or a private name, behind the dot. -/
def memberOf (o : Operand) : Reader Operand := do
  match ← ahead with
  | (_, .name n _, rest) =>
    set rest
    return { expr := .member o.expr n, simple := true, target := true }
  | (_, .privateName, rest) =>
    set rest
    return { simple := true, target := true }
  | _ => failure

/-- A property named by an expression, behind the opening bracket. -/
def elementOf (inner : Inner) (p : Place) : Reader Operand := do
  let _ ← inner.sequence { p with canIn := true }
  sign "]"
  return { simple := true, target := true }

/-- What stands behind a `?.` -/
def optionalOf (inner : Inner) (p : Place) (o : Operand) : Reader Unit := do
  if ← sign? "(" then
    let _ ← (← arguments inner p).values
  else if ← sign? "[" then
    let _ ← elementOf inner p
  else if ← atSign "\x60" then failure
  else
    let _ ← memberOf o

/-- Properties, calls and templates behind an expression; `calls` tells whether calls
belong to it and `optional` that it holds a `?.`.  `n` bounds the number of steps. -/
def chain (inner : Inner) (p : Place) (calls : Bool) : Nat → Bool → Operand → Reader Operand
  | 0, _, _ => failure
  | n + 1, optional, o => do
    let finished : Operand := if optional then {} else o
    let (_, token, rest) ← ahead
    let go (further : Reader Operand) (optional : Bool) : Reader Operand := do
      if o.pending then failure
      set rest
      chain inner p calls n optional (← further)
    match token with
    | .sign "." => go (memberOf o) optional
    | .sign "[" => go (elementOf inner p) optional
    | .sign "?." =>
      if !calls then failure
      go (do optionalOf inner p o; return {}) true
    | .sign "\x60" =>
      if optional then failure
      go (do templateRest inner p true; return {}) optional
    | .sign "(" =>
      if calls then
        go (do return { expr := .call o.expr (← (← arguments inner p).values) }) optional
      else return finished
    | _ => return finished

/-- What is called on an expression. -/
def chainOn (inner : Inner) (p : Place) (o : Operand) : Reader Operand := do
  chain inner p true ((← get).length + 1) false o

/-! ### Single expressions -/

/-- A name as an operand. -/
def Operand.ofName (n : Text) : Operand :=
  { expr := .name n, simple := true, target := true, binding := true }

/-- A template, a regular expression, markup, or something in brackets, at its first
sign; `rest` is what remains behind the sign. -/
def bracketed (inner : Inner) (p : Place) (s : String) (rest : Text) : Reader Operand := do
  match s with
  | "(" =>
    set rest
    (← roundGroup inner p).parenthesised
  | "[" =>
    set rest
    arrayRest inner p
  | "\x7b" =>
    set rest
    objectRest inner p
  | "\x60" =>
    set rest
    templateRest inner p false
    return {}
  | "/" | "/=" =>
    regex
    return {}
  | "<" =>
    inner.element p
    return {}
  | _ => failure

/-- An expression that a word opens; `rest` is what remains behind the word. -/
def opened (inner : Inner) (p : Place) (w : Text) (rest : Text) : Reader Operand := do
  if w = "function".toList then
    set rest
    let _ ← functionRest inner false
    return { expr := .function }
  else if w = "class".toList then
    set rest
    let _ ← classRest inner p
    return {}
  else if ["this", "null", "true", "false"].any (·.toList == w) then
    set rest
    return {}
  else if w = "super".toList then
    set rest
    if (← atSign "(") || (← atSign ".") || (← atSign "[") then return {} else failure
  else if w = "import".toList then
    set rest
    if ← sign? "." then
      word "meta"
      return {}
    sign "("
    let values ← (← arguments inner p).values
    if values.isEmpty || values.any Expr.isSpread then failure
    return {}
  else if isName w then
    set rest
    if w = "async".toList then
      match ← ahead with
      | (false, .name f true, rest) =>
        if f = "function".toList then
          set rest
          let _ ← functionRest inner true
          return { expr := .function }
      | _ => pure ()
    return .ofName w
  else failure

/-- A single expression, `new` apart. -/
def single (inner : Inner) (p : Place) : Reader Operand := do
  match ← ahead with
  | (_, .name w _, rest) => opened inner p w rest
  | (_, .number, rest) | (_, .string, rest) =>
    set rest
    return {}
  | (_, .privateName, rest) =>
    set rest
    if (← ahead).2.1 == .name "in".toList true then return {} else failure
  | (_, .sign s, rest) => bracketed inner p s rest
  | _ => failure

/-- What `new` constructs, for `count` words `new` in front: each takes the next
arguments. -/
def constructed (inner : Inner) (p : Place) : Nat → Operand → Reader Operand
  | 0, o => return o
  | count + 1, o => do
    let callee ← chain inner p false ((← get).length + 1) false o
    if callee.pending then failure
    if ← sign? "(" then
      let _ ← (← arguments inner p).values
      constructed inner p count {}
    else return {}

/-- A single expression. -/
def primary (inner : Inner) (p : Place) : Reader Operand := do
  let news ← many do
    if ← word? "new" then return some () else return none
  if news.isEmpty then single inner p
  else if ← sign? "." then
    word "target"
    constructed inner p (news.length - 1) {}
  else constructed inner p news.length (← single inner p)

/-- An expression without operators. -/
def readLeftHand (inner : Inner) (p : Place) : Reader Operand := do
  chainOn inner p (← primary inner p)

end LivePreview.Program
