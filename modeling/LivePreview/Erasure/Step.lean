/-
One step of the eraser, and whole runs.

A step looks at the next character or two, reads at least one character, and keeps or
removes what it read.  So a text of `n` characters is done after at most `n` steps,
and `run` takes that number as its fuel.
-/
import LivePreview.Erasure.Word

namespace LivePreview.Erasure

open Script EnumObject

/-- What remains behind a regular expression, from its first `/` on; `inClass` tells
that a `/` does not end it.  An expression ends on its line or is none. -/
def regexRest? : Bool → Text → Option Text
  | _, [] => none
  | inClass, '\\' :: _ :: s => regexRest? inClass s
  | inClass, c :: s =>
    if c = '\n' then none
    else if c = '[' then regexRest? true s
    else if c = ']' then regexRest? false s
    else if c = '/' && !inClass then some (s.dropWhile isIdentChar)
    else regexRest? inClass s

/-- What remains behind the type parameters of an arrow function, if they are such. -/
def afterArrowParameters? (s : Text) : Option Text :=
  (afterTypeParameters? s).filter fun rest =>
    let inside := (Text.consumed s rest).tail.dropLast
    let list := Text.skipBlanks rest
    startsWithChar '(' list &&
      match afterGroup? list with
      | none => false
      | some closed =>
        match Text.skipBlanks closed with
        | '=' :: '>' :: _ => true
        | ':' :: _ => inside.contains ',' || Text.occurs " extends ".toList inside
        | _ => false

namespace Eraser

/-! ### Markup -/

/-- A character of the name of a tag. -/
def isTagNameChar (c : Char) : Bool := isIdentChar c || c == '.' || c == ':' || c == '-'

/-- At the `<` of an element: keep the start of its tag. -/
def openElement (e : Eraser) (s : Text) : Eraser :=
  match s with
  | '>' :: inside => (e.keep inside).enter .children
  | _ => (e.keep (s.dropWhile isTagNameChar)).enter .tag

/-- The part behind the first `mark`. -/
def behind (mark : Char) (s : Text) : Text := (s.dropWhile (· != mark)).drop 1

/-- At an opening brace: keep it and enter the code inside. -/
def openCode (e : Eraser) (s : Text) : Eraser := (e.keep s).enter (.code {})

/-- A step inside a tag. -/
def stepTag (e : Eraser) (c : Char) (s : Text) : Eraser :=
  if c = '/' && startsWithChar '>' s then e.keep (s.drop 1)
  else if c = '>' then (e.keep s).enter .children
  else if c = '{' then (e.enter .tag).openCode s
  else if isQuote c then (e.keep (behind c s)).enter .tag
  else if c = '<' then (e.enter .tag).openElement s
  else (e.keep s).enter .tag

/-- A step among the children of an element. -/
def stepChildren (e : Eraser) (c : Char) (s : Text) : Eraser :=
  if c = '<' then
    match s with
    | '/' :: name => e.keep (behind '>' name)
    | _ => (e.enter .children).openElement s
  else if c = '{' then (e.enter .children).openCode s
  else (e.keep s).enter .children

/-- A step inside a template. -/
def stepTemplate (e : Eraser) (c : Char) (s : Text) : Eraser :=
  if c = '\\' then (e.keep (s.drop 1)).enter .template
  else if c = '\x60' then e.keep s
  else match c :: s with
    | '$' :: '{' :: inside => (e.enter .template).openCode inside
    | _ => (e.keep s).enter .template

/-! ### Code -/

/-- Keep up to `rest`, in code `m`, behind one more token. -/
def keepToken (e : Eraser) (m : CodeMode) (rest : Text) (previous : Previous) : Eraser :=
  (e.keep rest).inCode m previous

/-- A `/` that opens no comment. -/
def stepSlash (e : Eraser) (m : CodeMode) (s : Text) : Eraser :=
  if m.previous.expressionMayStart then
    match regexRest? false s with
    | some rest => e.keepToken m rest .value
    | none => e.keepToken m s (.sign '/')
  else e.keepToken m s (.sign '/')

/-- Behind a closed parameter list: remove the return type in front of an arrow or of
the body of a function. -/
def eraseReturnType (e : Eraser) (closed outer : Frame) : Eraser :=
  match Text.skipBlanks e.rest with
  | ':' :: s =>
    if outer.ternaries > 0 then e
    else match afterType? s with
      | none => e
      | some rest =>
        let follows : Bool := match Text.skipBlanks rest with
          | '=' :: '>' :: _ => true
          | '{' :: _ => closed.kind == .round true
          | _ => false
        if follows then ((e.keep (':' :: s)).trimOut).erase .returnType rest else e
  | _ => e

/-- A `)`. -/
def stepRoundEnd (e : Eraser) (m : CodeMode) (s : Text) : Eraser :=
  match m.top.kind with
  | .round _ =>
    let outside := m.pop
    ((e.keep s).eraseReturnType m.top outside.top).inCode outside .value
  | _ => e.keepToken m s .value

/-- A `?`. -/
def stepQuestion (e : Eraser) (m : CodeMode) (s : Text) : Eraser :=
  match s with
  | '?' :: t => e.keepToken m t (.sign '?')
  | _ =>
    let chains := match s with
      | '.' :: t => !(t.head?.any isAsciiDigit)
      | _ => false
    if chains then e.keepToken m (s.drop 1) (.sign '.')
    else
      let next := Text.skipBlanks s
      let marks := m.previous.isWord &&
        (startsWithChar ':' next ||
          (m.top.kind.takesTypes && !startsWithChar '=' s &&
            match next with
            | c :: _ => c == ',' || c == ')' || c == '=' || c == ';'
            | [] => false))
      if marks then (e.erase .optionalMark s).inCode m m.previous
      else
        let counted := { m with top := { m.top with ternaries := m.top.ternaries + 1 } }
        e.keepToken counted s (.sign '?')

/-- A `:`. -/
def stepColon (e : Eraser) (m : CodeMode) (s : Text) : Eraser :=
  if m.top.ternaries > 0 then
    let counted := { m with top := { m.top with ternaries := m.top.ternaries - 1 } }
    e.keepToken counted s (.sign ':')
  else
    let annotates := m.top.kind.takesTypes &&
      match m.previous with
      | .word _ | .value => true
      | .sign c => c == '}'
      | _ => false
    match (if annotates then afterType? s else none) with
    | some rest =>
      let rule := if m.top.kind = .classBody then .fieldType else .parameterType
      (e.erase rule rest).inCode m m.previous
    | none => e.keepToken m s (.sign ':')

/-- A `!`. -/
def stepBang (e : Eraser) (m : CodeMode) (s : Text) : Eraser :=
  let attached := e.before.any fun c => !isBlank c
  if !startsWithChar '=' s && attached && m.previous.endsExpression && !m.newline then
    (e.erase .nonNull s).inCode m m.previous
  else e.keepToken m s (.sign '!')

/-- What remains behind the type arguments of a call, if such open at this `<`, with
the rule that removes them. -/
def afterCallArguments? (e : Eraser) (previous : Previous) : Option (ErasureRule × Text) :=
  match previous with
  | .word w =>
    let hook := hookNames.contains w
    let adjacent := e.before.any isIdentChar
    if isReserved w || !(hook || adjacent) then none
    else
      ((afterTypeArguments? e.rest).or (afterTypeParameters? e.rest)).bind fun rest =>
        let next := Text.skipBlanks rest
        if startsWithChar '(' next || startsWithChar '\x60' next then
          some (if hook then .hookArguments else .callArguments, rest)
        else none
  | _ => none

/-- A `<`. -/
def stepAngle (e : Eraser) (m : CodeMode) (s : Text) : Eraser :=
  let async := m.previous == .word "async".toList
  let mayStart := m.previous.expressionMayStart
  match (if mayStart || async then afterArrowParameters? e.rest else none) with
  | some rest => (e.erase .arrowParameters rest).inCode m m.previous
  | none =>
    if mayStart && !async && s.head?.any (fun c => isAsciiLetter c || c == '>') then
      (e.inCode m .value).openElement s
    else match e.afterCallArguments? m.previous with
      | some (rule, rest) => (e.erase rule rest).inCode m m.previous
      | none => e.keepToken m s (.sign '<')

/-- A `,`. -/
def stepComma (e : Eraser) (m : CodeMode) (s : Text) : Eraser :=
  let kept := e.keep s
  if m.top.declarators && m.top.ternaries == 0 then
    match kept.eraseDeclarator? with
    | some (bound, previous) => bound.inCode m previous
    | none => kept.inCode m (.sign ',')
  else kept.inCode m (.sign ',')

/-- A `\x7d`.  In braces that belong to a template or to markup it leads back there. -/
def stepCurlyEnd (e : Eraser) (m : CodeMode) (s : Text) : Eraser :=
  if m.outer.isEmpty && !e.modes.isEmpty then e.keep s
  else e.keepToken m.pop s (.sign '}')

/-- A token of code. -/
def stepToken (e : Eraser) (m : CodeMode) (c : Char) (s : Text) : Except Overflow Eraser :=
  if isIdentStart c then e.stepWord m
  else if c = '/' then .ok (e.stepSlash m s)
  else if isQuote c then .ok (e.keepToken m (stringRest c s) .value)
  else if c = '\x60' then .ok (((e.enter (.code (m.next .value))).keep s).enter .template)
  else if c = '(' then
    .ok (e.keepToken (m.push (.round m.previous.opensParameters)) s (.sign '('))
  else if c = ')' then .ok (e.stepRoundEnd m s)
  else if c = '[' then .ok (e.keepToken (m.push .square) s (.sign '['))
  else if c = ']' then
    .ok (e.keepToken (if m.top.kind = .square then m.pop else m) s .value)
  else if c = '{' then
    let inside := if m.header then { m with header := false }.push .classBody else m.push .block
    .ok (e.keepToken inside s (.sign '{'))
  else if c = '}' then .ok (e.stepCurlyEnd m s)
  else if c = '?' then .ok (e.stepQuestion m s)
  else if c = ':' then .ok (e.stepColon m s)
  else if c = '!' then .ok (e.stepBang m s)
  else if c = '<' then .ok (e.stepAngle m s)
  else if c = '=' then
    match s with
    | '>' :: t => .ok (e.keepToken m t .arrow)
    | _ => .ok (e.keepToken m s (.sign '='))
  else if isAsciiDigit c then
    .ok (e.keepToken m (s.dropWhile fun c => isIdentChar c || c == '.') .value)
  else if c = '.' && s.head?.any isAsciiDigit then
    .ok (e.keepToken m (s.dropWhile isIdentChar) .value)
  else if c = ',' then .ok (e.stepComma m s)
  else if c = ';' then
    .ok (e.keepToken { m with top := { m.top with declarators := false } } s (.sign ';'))
  else if c.toNat < 128 then .ok (e.keepToken m s (.sign c))
  else .ok (e.keepToken m s .value)

/-- A step in code: blanks and comments leave no token behind. -/
def stepCode (e : Eraser) (m : CodeMode) (c : Char) (s : Text) : Except Overflow Eraser :=
  if c = '\n' then .ok ((e.keep s).enter (.code { m with newline := true }))
  else if c = ' ' || c = '\t' || c = '\r' then .ok ((e.keep s).enter (.code m))
  else match c :: s with
    | '/' :: '/' :: t => .ok ((e.keep (Text.skipLine t)).enter (.code m))
    | '/' :: '*' :: t => .ok ((e.keep (blockRest t)).enter (.code m))
    | _ => e.stepToken m c s

/-! ### Runs -/

/-- One step.  Where nothing is left to read, or no mode to read it in, nothing changes. -/
def step (e : Eraser) : Except Overflow Eraser :=
  match e.rest, e.modes with
  | c :: s, mode :: outer =>
    let inner := { e with modes := outer }
    match mode with
    | .code m => inner.stepCode m c s
    | .template => .ok (inner.stepTemplate c s)
    | .tag => .ok (inner.stepTag c s)
    | .children => .ok (inner.stepChildren c s)
  | _, _ => .ok e

/-- At most `n` steps. -/
def run : Nat → Eraser → Except Overflow Eraser
  | 0, e => .ok e
  | n + 1, e =>
    match e.rest with
    | [] => .ok e
    | _ => e.step.bind (run n)

/-- The eraser in front of a text. -/
def start (code : Text) : Eraser := { rest := code, modes := [.code {}] }

end Eraser

/-- A text without its type syntax, and what was removed. -/
structure Erased where
  code : Text
  report : ErasureReport
deriving DecidableEq, Repr

/-- Remove the type syntax of a text.  Markup, strings, comments and regular
expressions are kept as they are. -/
def eraseTypes (code : Text) : Except Overflow Erased :=
  ((Eraser.start code).run code.length).map fun e => ⟨e.out.reverse, e.report⟩

end LivePreview.Erasure
