/-
Types of variables, of later declarators and in class headers.

These three readers work on the eraser itself, since they keep some of what they read
and remove the rest.  Each starts behind a keyword or comma that was already kept and
says where the eraser stands afterwards.
-/
import LivePreview.Erasure.State

namespace LivePreview.Erasure

open Script

/-- What remains behind the name or pattern of a variable. -/
def afterPattern? (s : Text) : Option Text :=
  match s with
  | [] => none
  | c :: _ =>
    if c = '{' || c = '[' then afterGroup? s
    else if isIdentStart c then some (skipIdent s)
    else none

/-- The token that a name or pattern leaves behind. -/
def patternToken (s : Text) : Previous :=
  match word? s with
  | some w => .word w
  | none => .value

namespace Eraser

/-- Remove the `!` that stands between a name and its type. -/
def eraseDefinite (e : Eraser) : Eraser :=
  match e.rest with
  | '!' :: ':' :: s => e.erase .nonNull (':' :: s)
  | _ => e

/-- Remove the type behind the name of a variable, and the blanks in front of it. -/
def eraseVariableType (e : Eraser) : Eraser :=
  match Text.skipBlanks e.rest with
  | ':' :: s =>
    match afterType? s with
    | some rest => ((e.keep (':' :: s)).trimOut).erase .variableType rest
    | none => e
  | _ => e

/-- Behind `const`, `let` or `var`: keep the name or pattern and remove its type. -/
def eraseVariable (e : Eraser) : Eraser × Previous :=
  let name := Text.skipBlanks e.rest
  match afterPattern? name with
  | none => (e, .word "const".toList)
  | some rest => ((e.keep rest).eraseDefinite.eraseVariableType, patternToken name)

/-- Behind a comma between declarators: keep a plain name and remove its type, if it
has one and a declarator goes on or ends behind it. -/
def eraseDeclarator? (e : Eraser) : Option (Eraser × Previous) :=
  let name := Text.skipBlanks e.rest
  if !startsIdent name || isReserved (ident name) then none
  else
    let named := skipIdent name
    let definite := match named with
      | '!' :: ':' :: s => some (':' :: s)
      | _ => none
    match Text.skipBlanks (definite.getD named) with
    | ':' :: s =>
      match afterType? s with
      | none => none
      | some rest =>
        let follows := match Text.skipBlanks rest with
          | [] => true
          | c :: _ => c == '=' || c == ',' || c == ';'
        if !follows then none
        else
          let kept := e.keep named
          let bare := match definite with
            | some colon => kept.erase .nonNull colon
            | none => kept
          some (bare.erase .variableType rest, .word (ident name))
    | _ => none

/-- Behind `class`: keep the header up to its body without type parameters, type
arguments and `implements` clauses, in at most `n` pieces. -/
def eraseHeader : Nat → Eraser → Eraser
  | 0, e => e
  | n + 1, e =>
    match e.rest with
    | [] => e
    | c :: s =>
      if c = '{' then e
      else if c = '<' then
        match (afterTypeParameters? (c :: s)).or (afterTypeArguments? (c :: s)) with
        | some rest => eraseHeader n (e.erase .classParameters rest)
        | none => eraseHeader n (e.keep s)
      else if c = '(' then
        eraseHeader n (e.keep ((afterGroup? (c :: s)).getD s))
      else if isIdentStart c then
        if ident (c :: s) = "implements".toList then
          eraseHeader n (e.erase .implementsClause ((skipIdent (c :: s)).dropWhile (· != '{')))
        else eraseHeader n (e.keep (skipIdent (c :: s)))
      else eraseHeader n (e.keep s)

end Eraser

end LivePreview.Erasure
