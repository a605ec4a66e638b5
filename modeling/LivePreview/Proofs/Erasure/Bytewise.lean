/-
The eraser on bytes.

The eraser of this library reads characters.  A program that keeps its text in UTF-8 reads bytes
instead: it moves an offset over them and cuts the text at such offsets, which goes wrong where an
offset lies behind the end of the text or inside of a character.  `Bytewise.erase` is the eraser as
such a program.  What it looks for ahead of where it stands it looks for in the bytes.  Wherever it
takes a part of the text out, to keep it or to look at it, that is a slice between two offsets, and
a slice that cannot be cut is a failure of its own, `Fault.cut`.
-/
import LivePreview.Erasure.Step
import LivePreview.Proofs.Text.Bytes

namespace LivePreview.Erasure

open Script EnumObject
open Text (bytes spread slice?)

/-- What can go wrong. -/
inductive Fault where
  /-- the value of a member has no successor -/
  | overflow
  /-- a slice is out of range or ends inside of a character -/
  | cut
deriving DecidableEq, Repr

/-- The result of a program that can go wrong. -/
abbrev Checked := Except Fault

namespace Bytewise

/-! ### Slices -/

/-- The offset of an end piece of the bytes of a text. -/
def offset (code s : Text) : Nat := (bytes code).length - s.length

/-- The slice of the text from one end piece of its bytes to another. -/
def slice (code s rest : Text) : Checked Text :=
  match slice? (offset code s) (offset code rest) code with
  | some piece => .ok piece
  | none => .error .cut

/-- The end piece that starts with the last byte read. -/
def fromLast (s rest : Text) : Text := s.drop (s.length - rest.length - 1)

/-- What remains behind the character in front, whose size is told by the text from there on. -/
def behindChar (code s : Text) : Checked Text :=
  (slice code s []).map fun text => s.drop ((text.head?.map Char.utf8Size).getD 1)

/-- True if an arrow stands in front of the text from here on. -/
def arrowAt (code s : Text) : Checked Bool :=
  (slice code s []).map fun text => "=>".toList.isPrefixOf text

/-- The identifier at the front, if there is one. -/
def word? (code s : Text) : Checked (Option Text) :=
  if startsIdent s then (slice code s (skipIdent s)).map some else .ok none

section

variable (code : Text)

/-- Read up to `rest` and keep what was read. -/
def keep (b : Eraser) (rest : Text) : Checked Eraser :=
  (slice code b.rest rest).map fun piece =>
    { b with before := b.lastBefore rest, rest := rest, out := piece.reverse ++ b.out }

/-- Keep the character in front. -/
def keepChar (b : Eraser) : Checked Eraser := (behindChar code b.rest).bind (keep code b)

/-- Keep up to `rest`, in code `m`, behind one more token. -/
def keepToken (b : Eraser) (m : CodeMode) (rest : Text) (previous : Previous) : Checked Eraser :=
  (keep code b rest).map fun b => b.inCode m previous

/-! ### Declarations -/

/-- What remains behind a statement that began at `start` and was read up to `here`, in at most `n`
pieces. -/
def statementFrom (start : Text) : Nat → Text → Checked Text
  | 0, here => .ok here
  | _, [] => .ok []
  | n + 1, c :: s =>
    if (Bracket.opened? c).isSome then
      match afterGroup? (c :: s) with
      | some rest => statementFrom start n rest
      | none => .ok []
    else if isQuote c then statementFrom start n (stringRest c s)
    else if c = '\x60' then statementFrom start n (skipTemplate (c :: s))
    else if c = ';' then .ok s
    else if c = '\n' then do
      let next := Text.skipBlanks s
      let read ← slice code start (c :: s)
      if startsWithChar '|' next || startsWithChar '&' next || isDangling read then
        statementFrom start n s
      else .ok (c :: s)
    else statementFrom start n s

/-- What remains behind the statement at the front. -/
def statement (s : Text) : Checked Text := statementFrom code s s.length s

/-- What remains behind a type alias, from its name on. -/
def alias? (name : Text) : Checked (Option Text) :=
  let named := Text.skipBlanks (skipIdent name)
  let declared :=
    if startsWithChar '<' named then (afterTypeParameters? named).map Text.skipBlanks
    else some named
  match declared with
  | some ('=' :: value) =>
    if startsWithChar '=' value then .ok none
    else do
      let fallback ← statement code value
      let rest := match afterType? value with
        | some rest => if endsStatement rest then rest else fallback
        | none => fallback
      return some (skipSemicolon rest)
  | _ => .ok none

/-! ### Bindings and headers -/

/-- Remove the type behind the name of a variable, and the blanks in front of it. -/
def eraseVariableType (b : Eraser) : Checked Eraser :=
  match Text.skipBlanks b.rest with
  | ':' :: s =>
    match afterType? s with
    | some rest => (keep code b (':' :: s)).map fun b => b.trimOut.erase .variableType rest
    | none => .ok b
  | _ => .ok b

/-- Behind `const`, `let` or `var`: keep the name or pattern and remove its type. -/
def eraseVariable (b : Eraser) : Checked (Eraser × Previous) :=
  let name := Text.skipBlanks b.rest
  match afterPattern? name with
  | none => .ok (b, .word "const".toList)
  | some rest => do
    let front ← keep code b name
    let word ← word? code name
    let bound ← keep code front rest
    let plain ← eraseVariableType code bound.eraseDefinite
    return (plain, (word.map Previous.word).getD .value)

/-- What stands behind the `!` between a name and its type. -/
def definite? (named : Text) : Option Text :=
  match named with
  | '!' :: ':' :: s => some (':' :: s)
  | _ => none

/-- True if a declarator goes on or ends behind its type. -/
def goesOn (s : Text) : Bool :=
  (Text.skipBlanks s).head?.all fun c => c == '=' || c == ',' || c == ';'

/-- Behind a comma between declarators: keep a plain name and remove its type. -/
def eraseDeclarator? (b : Eraser) : Checked (Option (Eraser × Previous)) :=
  let name := Text.skipBlanks b.rest
  if !startsIdent name then .ok none
  else do
    let named := skipIdent name
    let w ← slice code name named
    if isReserved w then return none
    else match Text.skipBlanks ((definite? named).getD named) with
    | ':' :: s =>
      match afterType? s with
      | none => return none
      | some rest =>
        if !goesOn rest then return none
        else
          let kept ← keep code b named
          let bare := match definite? named with
            | some colon => kept.erase .nonNull colon
            | none => kept
          return some (bare.erase .variableType rest, .word w)
    | _ => return none

/-- Behind `class`: keep the header up to its body without type parameters, type arguments and
`implements` clauses, in at most `n` pieces. -/
def eraseHeader : Nat → Eraser → Checked Eraser
  | 0, b => .ok b
  | n + 1, b =>
    match b.rest with
    | [] => .ok b
    | c :: s =>
      if c = '{' then .ok b
      else if c = '<' then
        match (afterTypeParameters? (c :: s)).or (afterTypeArguments? (c :: s)) with
        | some rest => eraseHeader n (b.erase .classParameters rest)
        | none => (keep code b s).bind (eraseHeader n)
      else if c = '(' then
        (keep code b ((afterGroup? (c :: s)).getD s)).bind (eraseHeader n)
      else if isIdentStart c then do
        let w ← slice code (c :: s) (skipIdent (c :: s))
        if w = "implements".toList then
          eraseHeader n (b.erase .implementsClause ((skipIdent (c :: s)).dropWhile (· != '{')))
        else (keep code b (skipIdent (c :: s))).bind (eraseHeader n)
      else (keepChar code b).bind (eraseHeader n)

end

/-! ### Enums -/

/-- The parts of a body between the separators: `start` is where the current part started, and `n`
bounds the number of pieces. -/
def splitFrom (sep : Char) (body : Text) : Nat → Text → Text → Checked (List Text)
  | 0, start, _ | _, start, [] => (slice body start []).map fun part => [part]
  | n + 1, start, c :: s =>
    if c = sep then do
      let part ← slice body start (c :: s)
      let parts ← splitFrom sep body n s s
      return part :: parts
    else splitFrom sep body n start (skipPiece (c :: s))

/-- The parts of a body between the separators that lie outside groups, literals and comments. -/
def splitTopLevel (sep : Char) (body : Text) : Checked (List Text) :=
  splitFrom sep body (spread body).length (spread body) (spread body)

/-- A part without its comments, from `last` on, where the last comment ended. -/
def withoutCommentsFrom (part : Text) : Nat → Text → Text → Checked Text
  | 0, last, _ | _, last, [] => slice part last []
  | n + 1, last, c :: s =>
    match c :: s with
    | '/' :: '/' :: t => do
      let kept ← slice part last (c :: s)
      let later ← withoutCommentsFrom part n (Text.skipLine t) (Text.skipLine t)
      return kept ++ later
    | '/' :: '*' :: t => do
      let kept ← slice part last (c :: s)
      let later ← withoutCommentsFrom part n (blockRest t) (blockRest t)
      return kept ++ later
    | _ =>
      if isQuote c then withoutCommentsFrom part n last (stringRest c s)
      else withoutCommentsFrom part n last s

/-- A part without its comments. -/
def withoutComments (part : Text) : Checked Text :=
  withoutCommentsFrom part (spread part).length (spread part) (spread part)

/-- The member whose text this is, if it is not blank. -/
def memberOf (text : Text) : Option Member :=
  if text.isEmpty then none
  else match Text.cutFirst '=' text with
    | some (key, init) => some ⟨Text.trim key, some (Text.trim init)⟩
    | none => some ⟨text, none⟩

/-- The member written in one part of the body of an enum. -/
def readMember? (part : Text) : Checked (Option Member) :=
  (withoutComments part).map fun text => memberOf (Text.trim text)

/-- What goes wrong with the members goes wrong with the program. -/
def checked {α : Type} : Except Overflow α → Checked α
  | .ok a => .ok a
  | .error .overflow => .error .overflow

/-- The object that stands for an enum with this name and body. -/
def render (name body : Text) : Checked Text := do
  let parts ← splitTopLevel ',' body
  let members ← parts.mapM readMember?
  let properties ← checked (properties 0 (some 0) members.reduceOption)
  return "const ".toList ++ name ++ " = \x7b ".toList ++ Text.join ", ".toList properties ++
    " \x7d;".toList

section

variable (code : Text)

/-- Write the object for the enum whose name is at the front of `name`, and read past the enum;
`none` if no enum follows. -/
def convertEnum? (b : Eraser) (name : Text) : Checked (Option Eraser) :=
  if !startsIdent name then .ok none
  else
    let body := Text.skipBlanks (skipIdent name)
    if !startsWithChar '{' body then .ok none
    else match afterGroup? body with
      | none => .ok none
      | some rest => do
        let w ← slice code name (skipIdent name)
        let inside ← slice code body.tail (fromLast body rest)
        let object ← render w inside
        return some ((b.write object).erase .enumDecl (skipSemicolon rest))

/-! ### Words -/

/-- The word at the front of the text, in code `m`. -/
def stepWord (b : Eraser) (m : CodeMode) : Checked Eraser := do
  let rest := skipIdent b.rest
  let w ← slice code b.rest rest
  let next := Text.skipBlanks rest
  let nextWord ← word? code next
  let opens := m.previous.statementMayStart m.newline
  let kept := keepToken code b m rest (.word w)
  let removed (rule : ErasureRule) (rest : Text) (previous : Previous) : Eraser :=
    (b.erase rule rest).inCode m previous
  if w = "interface".toList && opens && nextWord.isSome then
    match interfaceRest? next with
    | some rest => .ok (removed .interfaceDecl rest (.sign ';'))
    | none => kept
  else if w = "type".toList && opens && nextWord.isSome then do
    match ← alias? code next with
    | some rest => return removed .typeAlias rest (.sign ';')
    | none => kept
  else if w = "declare".toList && opens && nextWord.isSome && m.top.kind != .classBody then do
    let rest ← statement code next
    return removed .ambient rest (.sign ';')
  else if w = "enum".toList && opens && nextWord.isSome then do
    match ← convertEnum? code b next with
    | some done => return done.inCode m (.sign ';')
    | none => kept
  else if w = "const".toList && opens && nextWord = some "enum".toList then do
    match ← convertEnum? code b (Text.skipBlanks (skipIdent next)) with
    | some done => return done.inCode m (.sign ';')
    | none => kept
  else if w = "abstract".toList && nextWord = some "class".toList then
    .ok (removed .abstractModifier next m.previous)
  else if w = "class".toList && m.previous != .sign '.' &&
      (nextWord.isSome || startsWithChar '{' next) then do
    let word ← keep code b rest
    let header ← eraseHeader code rest.length word
    return header.inCode { m with header := true } (.word w)
  else if Eraser.variableWords.contains w && m.previous != .sign '.' then do
    let word ← keep code b rest
    let (bound, previous) ← eraseVariable code word
    return bound.inCode { m with top := { m.top with declarators := true } } previous
  else if w = "this".toList && m.previous = .sign '(' && m.top.kind = .round true &&
      startsWithChar ':' next then
    match Eraser.afterThisType? next with
    | some rest => .ok (removed .thisParameter rest (.sign '('))
    | none => kept
  else if (w = "as".toList || w = "satisfies".toList) &&
      (m.previous.endsExpression || m.previous == .sign '}') && next.length < rest.length then
    let asserted :=
      if w = "as".toList && nextWord = some "const".toList then some (skipIdent next)
      else afterType? rest
    match asserted with
    | some rest =>
      let rule := if w = "as".toList then .asAssertion else .satisfiesCheck
      .ok ((b.trimOut.erase rule rest).inCode m m.previous)
    | none => kept
  else if Eraser.memberModifiers.contains w && (nextWord.isSome || startsWithChar '[' next) &&
      Eraser.modifiesMember m then
    .ok (removed .accessModifier next m.previous)
  else kept

/-! ### Markup -/

/-- At the `<` of an element: keep the start of its tag. -/
def openElement (b : Eraser) (s : Text) : Checked Eraser :=
  (keep code b s).bind fun opened =>
    match s with
    | '>' :: inside => (keep code opened inside).map fun b => b.enter .children
    | _ => (keep code opened (s.dropWhile Eraser.isTagNameChar)).map fun b => b.enter .tag

/-- At an opening brace: keep it and enter the code inside. -/
def openCode (b : Eraser) (s : Text) : Checked Eraser :=
  (keep code b s).map fun b => b.enter (.code {})

/-- A step inside a tag. -/
def stepTag (b : Eraser) (c : Char) (s : Text) : Checked Eraser :=
  if c = '/' && startsWithChar '>' s then keep code b (s.drop 1)
  else if c = '>' then (keep code b s).map fun b => b.enter .children
  else if c = '{' then openCode code (b.enter .tag) s
  else if isQuote c then (keep code b (Eraser.behind c s)).map fun b => b.enter .tag
  else if c = '<' then openElement code (b.enter .tag) s
  else (keepChar code b).map fun b => b.enter .tag

/-- A step among the children of an element. -/
def stepChildren (b : Eraser) (c : Char) (s : Text) : Checked Eraser :=
  if c = '<' then
    match s with
    | '/' :: name => keep code b (Eraser.behind '>' name)
    | _ => openElement code (b.enter .children) s
  else if c = '{' then openCode code (b.enter .children) s
  else (keepChar code b).map fun b => b.enter .children

/-- A step inside a template. -/
def stepTemplate (b : Eraser) (c : Char) (s : Text) : Checked Eraser :=
  if c = '\\' then
    ((behindChar code s).bind (keep code b)).map fun b => b.enter .template
  else if c = '\x60' then keep code b s
  else match c :: s with
    | '$' :: '{' :: inside => openCode code (b.enter .template) inside
    | _ => (keepChar code b).map fun b => b.enter .template

/-! ### Code -/

/-- What remains behind the type parameters of an arrow function, if they are such. -/
def afterArrowParameters? (s : Text) : Checked (Option Text) :=
  match afterTypeParameters? s with
  | none => .ok none
  | some rest => do
    let inside ← slice code s.tail (fromLast s rest)
    let list := Text.skipBlanks rest
    if !startsWithChar '(' list then return none
    else match afterGroup? list with
      | none => return none
      | some closed =>
        let next := Text.skipBlanks closed
        let arrow ← arrowAt code next
        let isExplicit := inside.contains ',' || Text.occurs " extends ".toList inside
        if arrow || startsWithChar ':' next && isExplicit then return some rest else return none

/-- A `/` that opens no comment. -/
def stepSlash (b : Eraser) (m : CodeMode) (s : Text) : Checked Eraser :=
  if m.previous.expressionMayStart then
    match regexRest? false s with
    | some rest => keepToken code b m rest .value
    | none => keepToken code b m s (.sign '/')
  else keepToken code b m s (.sign '/')

/-- Behind a closed parameter list: remove the return type in front of an arrow or of the body of a
function. -/
def eraseReturnType (b : Eraser) (closed outer : Frame) : Checked Eraser :=
  match Text.skipBlanks b.rest with
  | ':' :: s =>
    if outer.ternaries > 0 then .ok b
    else match afterType? s with
      | none => .ok b
      | some rest => do
        let next := Text.skipBlanks rest
        let arrow ← arrowAt code next
        if arrow || startsWithChar '{' next && closed.kind == .round true then
          (keep code b (':' :: s)).map fun b => b.trimOut.erase .returnType rest
        else .ok b
  | _ => .ok b

/-- A `)`. -/
def stepRoundEnd (b : Eraser) (m : CodeMode) (s : Text) : Checked Eraser :=
  match m.top.kind with
  | .round _ =>
    let outside := m.pop
    ((keep code b s).bind fun b => eraseReturnType code b m.top outside.top).map fun b =>
      b.inCode outside .value
  | _ => keepToken code b m s .value

/-- A `?` in front of `s` that has a member behind it. -/
def chains (s : Text) : Bool :=
  match s with
  | '.' :: t => !(t.head?.any isAsciiDigit)
  | _ => false

/-- A `?` in front of `s` that marks a name as optional. -/
def marks (m : CodeMode) (s : Text) : Bool :=
  let next := Text.skipBlanks s
  m.previous.isWord &&
    (startsWithChar ':' next ||
      (m.top.kind.takesTypes && !startsWithChar '=' s &&
        next.head?.any fun c => c == ',' || c == ')' || c == '=' || c == ';'))

/-- A `?`. -/
def stepQuestion (b : Eraser) (m : CodeMode) (s : Text) : Checked Eraser :=
  match s with
  | '?' :: t => keepToken code b m t (.sign '?')
  | _ =>
    if chains s then keepToken code b m (s.drop 1) (.sign '.')
    else if marks m s then .ok ((b.erase .optionalMark s).inCode m m.previous)
    else
      let counted := { m with top := { m.top with ternaries := m.top.ternaries + 1 } }
      keepToken code b counted s (.sign '?')

/-- A `:`. -/
def stepColon (b : Eraser) (m : CodeMode) (s : Text) : Checked Eraser :=
  if m.top.ternaries > 0 then
    let counted := { m with top := { m.top with ternaries := m.top.ternaries - 1 } }
    keepToken code b counted s (.sign ':')
  else
    let annotates := m.top.kind.takesTypes &&
      match m.previous with
      | .word _ | .value => true
      | .sign c => c == '}'
      | _ => false
    match (if annotates then afterType? s else none) with
    | some rest =>
      let rule := if m.top.kind = .classBody then .fieldType else .parameterType
      .ok ((b.erase rule rest).inCode m m.previous)
    | none => keepToken code b m s (.sign ':')

/-- A `!`. -/
def stepBang (b : Eraser) (m : CodeMode) (s : Text) : Checked Eraser :=
  let attached := b.before.any fun c => !isBlank c
  if !startsWithChar '=' s && attached && m.previous.endsExpression && !m.newline then
    .ok ((b.erase .nonNull s).inCode m m.previous)
  else keepToken code b m s (.sign '!')

/-- A `<`. -/
def stepAngle (b : Eraser) (m : CodeMode) (s : Text) : Checked Eraser := do
  let async := m.previous == .word "async".toList
  let mayStart := m.previous.expressionMayStart
  match ← (if mayStart || async then afterArrowParameters? code b.rest else .ok none) with
  | some rest => return (b.erase .arrowParameters rest).inCode m m.previous
  | none =>
    if mayStart && !async && s.head?.any (fun c => isAsciiLetter c || c == '>') then
      openElement code (b.inCode m .value) s
    else match b.afterCallArguments? m.previous with
      | some (rule, rest) => return (b.erase rule rest).inCode m m.previous
      | none => keepToken code b m s (.sign '<')

/-- A `,`. -/
def stepComma (b : Eraser) (m : CodeMode) (s : Text) : Checked Eraser := do
  let kept ← keep code b s
  if m.top.declarators && m.top.ternaries == 0 then
    match ← eraseDeclarator? code kept with
    | some (bound, previous) => return bound.inCode m previous
    | none => return kept.inCode m (.sign ',')
  else return kept.inCode m (.sign ',')

/-- A `\x7d`.  In braces that belong to a template or to markup it leads back there. -/
def stepCurlyEnd (b : Eraser) (m : CodeMode) (s : Text) : Checked Eraser :=
  if m.outer.isEmpty && !b.modes.isEmpty then keep code b s
  else keepToken code b m.pop s (.sign '}')

/-- A token of code. -/
def stepToken (b : Eraser) (m : CodeMode) (c : Char) (s : Text) : Checked Eraser :=
  if isIdentStart c then stepWord code b m
  else if c = '/' then stepSlash code b m s
  else if isQuote c then keepToken code b m (stringRest c s) .value
  else if c = '\x60' then
    (keep code (b.enter (.code (m.next .value))) s).map fun b => b.enter .template
  else if c = '(' then
    keepToken code b (m.push (.round m.previous.opensParameters)) s (.sign '(')
  else if c = ')' then stepRoundEnd code b m s
  else if c = '[' then keepToken code b (m.push .square) s (.sign '[')
  else if c = ']' then keepToken code b (if m.top.kind = .square then m.pop else m) s .value
  else if c = '{' then
    let inside := if m.header then { m with header := false }.push .classBody else m.push .block
    keepToken code b inside s (.sign '{')
  else if c = '}' then stepCurlyEnd code b m s
  else if c = '?' then stepQuestion code b m s
  else if c = ':' then stepColon code b m s
  else if c = '!' then stepBang code b m s
  else if c = '<' then stepAngle code b m s
  else if c = '=' then
    match s with
    | '>' :: t => keepToken code b m t .arrow
    | _ => keepToken code b m s (.sign '=')
  else if isAsciiDigit c then
    keepToken code b m (s.dropWhile fun c => isIdentChar c || c == '.') .value
  else if c = '.' && s.head?.any isAsciiDigit then
    keepToken code b m (s.dropWhile isIdentChar) .value
  else if c = ',' then stepComma code b m s
  else if c = ';' then
    keepToken code b { m with top := { m.top with declarators := false } } s (.sign ';')
  else if c.toNat < 128 then keepToken code b m s (.sign c)
  else (keepChar code b).map fun b => b.inCode m .value

/-- A step in code: blanks and comments leave no token behind. -/
def stepCode (b : Eraser) (m : CodeMode) (c : Char) (s : Text) : Checked Eraser :=
  if c = '\n' then (keep code b s).map fun b => b.enter (.code { m with newline := true })
  else if c = ' ' || c = '\t' || c = '\r' then (keep code b s).map fun b => b.enter (.code m)
  else match c :: s with
    | '/' :: '/' :: t => (keep code b (Text.skipLine t)).map fun b => b.enter (.code m)
    | '/' :: '*' :: t => (keep code b (blockRest t)).map fun b => b.enter (.code m)
    | _ => stepToken code b m c s

/-! ### Runs -/

/-- One step. -/
def step (b : Eraser) : Checked Eraser :=
  match b.rest, b.modes with
  | c :: s, mode :: outer =>
    let inner := { b with modes := outer }
    match mode with
    | .code m => stepCode code inner m c s
    | .template => stepTemplate code inner c s
    | .tag => stepTag code inner c s
    | .children => stepChildren code inner c s
  | _, _ => .ok b

/-- At most `n` steps. -/
def run : Nat → Eraser → Checked Eraser
  | 0, b => .ok b
  | n + 1, b =>
    match b.rest with
    | [] => .ok b
    | _ => (step code b).bind (run n)

/-- Remove the type syntax of a text, byte by byte. -/
def erase : Checked Erased :=
  (run code (spread code).length { rest := spread code, modes := [.code {}] }).map fun b =>
    ⟨b.out.reverse, b.report⟩

end

end Bytewise

end LivePreview.Erasure
