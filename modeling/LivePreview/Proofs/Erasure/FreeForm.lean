/-
Programs without types, laid out in any way.

A tree of this file is a program of a small language without types, and a row of tokens.  It is
printed without brackets of its own, since round brackets are nodes, so each program of the language
is the print of a tree.  The layout of a program is a thing of its own: in front of each token stand
blanks, as few or many as one likes, and none at all where the two tokens do not run into each
other.

`pieces` says what the eraser makes of such a text.  It keeps all of it, but for one thing: the
token behind the condition of an `if` or a `while` is a round bracket, which the eraser takes for
the end of an expression.  So it takes a `!` that is attached to it for an assertion that a value is
not null, and removes it, and each `!` that is attached to a removed one.
-/
import LivePreview.Proofs.Erasure.Token

namespace LivePreview.Erasure.FreeForm

open Script

/-! ### Tokens -/

/-- True of what can stand between two quotes: no quote of this kind and no line end, unless there
is a backslash in front. -/
def isStringBody (quote : Char) : Text → Bool
  | [] => true
  | '\\' :: _ :: s => isStringBody quote s
  | c :: s => c != quote && c != '\\' && c != '\n' && isStringBody quote s

/-- A string. -/
structure StringLiteral where
  quote : Char
  body : Text
  isQuote : isQuote quote = true
  isBody : isStringBody quote body = true

/-- The text of a string, with its quotes. -/
def StringLiteral.text (q : StringLiteral) : Text := q.quote :: (q.body ++ [q.quote])

/-- The words of statements. -/
inductive Keyword where
  | if
  | while
  | return
deriving DecidableEq

/-- The text of such a word. -/
def Keyword.text : Keyword → Text
  | «if» => "if".toList
  | «while» => "while".toList
  | «return» => "return".toList

/-- Signs.  The bracket behind a condition is told from other brackets, though it is written the
same. -/
inductive Sign where
  | bang
  | both
  | either
  | question
  | colon
  | dot
  | comma
  | semicolon
  | openRound
  | closeRound
  | closeCondition
  | openSquare
  | closeSquare
  | openCurly
  | closeCurly
deriving DecidableEq

/-- The text of a sign. -/
def Sign.text : Sign → Text
  | bang => ['!']
  | both => ['&', '&']
  | either => ['|', '|']
  | question => ['?']
  | colon => [':']
  | dot => ['.']
  | comma => [',']
  | semicolon => [';']
  | openRound => ['(']
  | closeRound => [')']
  | closeCondition => [')']
  | openSquare => ['[']
  | closeSquare => [']']
  | openCurly => ['{']
  | closeCurly => ['\x7d']

/-- A token. -/
inductive Token where
  | name (x : Name)
  | integer (d : Digits)
  | string (q : StringLiteral)
  | keyword (k : Keyword)
  | sign (s : Sign)

namespace Token

/-- The text of a token. -/
def text : Token → Text
  | name x => x.text
  | integer d => d.text
  | string q => q.text
  | keyword k => k.text
  | sign s => s.text

/-- True of the characters that a token would go on with. -/
def goesOn : Token → Char → Bool
  | name _ | keyword _ => isIdentChar
  | integer _ => fun c => isIdentChar c || c == '.'
  | string _ | sign _ => fun _ => false

/-- True of `!`. -/
def isBang : Token → Bool
  | sign .bang => true
  | _ => false

/-- True of `:`. -/
def isColon : Token → Bool
  | sign .colon => true
  | _ => false

/-- True of the bracket behind a condition. -/
def closesCondition : Token → Bool
  | sign .closeCondition => true
  | _ => false

end Token

/-! ### Trees -/

/-- The key of a property. -/
inductive Key where
  | name (x : Name)
  | integer (d : Digits)
  | string (q : StringLiteral)

/-- The token of a key. -/
def Key.token : Key → Token
  | name x => .name x
  | integer d => .integer d
  | string q => .string q

/-- The two connectives of conditions. -/
inductive Connective where
  | both
  | either

/-- The sign of a connective. -/
def Connective.sign : Connective → Sign
  | both => .both
  | either => .either

mutual

/-- Expressions. -/
inductive Expr where
  | name (x : Name)
  | integer (d : Digits)
  | string (q : StringLiteral)
  | not (inside : Expr)
  | connective (k : Connective) (left right : Expr)
  | ternary (condition yes no : Expr)
  /-- a call; `trailing` tells that a comma stands behind the last argument -/
  | call (f : Expr) (arguments : List Expr) (trailing : Bool)
  | member (E : Expr) (x : Name)
  | index (E inside : Expr)
  /-- an expression in round brackets -/
  | round (inside : Expr)
  /-- an object; `trailing` tells that a comma stands behind the last property -/
  | object (properties : List Property) (trailing : Bool)

/-- Properties of an object. -/
inductive Property where
  | pair (key : Key) (value : Expr)
  | shorthand (x : Name)

end

/-- The words in front of a condition. -/
inductive ConditionWord where
  | if
  | while

/-- The keyword that such a word is. -/
def ConditionWord.keyword : ConditionWord → Keyword
  | «if» => .if
  | «while» => .while

/-- Statements. -/
inductive Stmt where
  | block (body : List Stmt)
  | conditional (word : ConditionWord) (condition : Expr) (body : Stmt)
  | return (value : Expr)
  | expression (value : Expr)

/-- A program. -/
abbrev Program := List Stmt

/-! ### The tokens of a tree -/

/-- Tokens of items with commas between them, and behind the last one if `trailing` tells so. -/
def commaTokens (trailing : Bool) : List (List Token) → List Token
  | [] => []
  | [item] => item ++ if trailing then [.sign .comma] else []
  | item :: next :: items => item ++ .sign .comma :: commaTokens trailing (next :: items)

mutual

/-- The tokens of an expression. -/
def Expr.tokens : Expr → List Token
  | .name x => [.name x]
  | .integer d => [.integer d]
  | .string q => [.string q]
  | .not inside => .sign .bang :: inside.tokens
  | .connective k left right => left.tokens ++ .sign k.sign :: right.tokens
  | .ternary condition yes no =>
    condition.tokens ++ .sign .question :: (yes.tokens ++ .sign .colon :: no.tokens)
  | .call f arguments trailing =>
    f.tokens ++ .sign .openRound ::
      (commaTokens trailing (Expr.tokensEach arguments) ++ [.sign .closeRound])
  | .member E x => E.tokens ++ [.sign .dot, .name x]
  | .index E inside => E.tokens ++ .sign .openSquare :: (inside.tokens ++ [.sign .closeSquare])
  | .round inside => .sign .openRound :: (inside.tokens ++ [.sign .closeRound])
  | .object properties trailing =>
    .sign .openCurly ::
      (commaTokens trailing (Property.tokensEach properties) ++ [.sign .closeCurly])

/-- The tokens of each of the expressions. -/
def Expr.tokensEach : List Expr → List (List Token)
  | [] => []
  | E :: Es => E.tokens :: Expr.tokensEach Es

/-- The tokens of a property. -/
def Property.tokens : Property → List Token
  | .pair key value => key.token :: .sign .colon :: value.tokens
  | .shorthand x => [.name x]

/-- The tokens of each of the properties. -/
def Property.tokensEach : List Property → List (List Token)
  | [] => []
  | p :: ps => p.tokens :: Property.tokensEach ps

end

mutual

/-- The tokens of a statement. -/
def Stmt.tokens : Stmt → List Token
  | .block body => .sign .openCurly :: (Stmt.tokensAll body ++ [.sign .closeCurly])
  | .conditional word condition body =>
    .keyword word.keyword :: .sign .openRound ::
      (condition.tokens ++ .sign .closeCondition :: body.tokens)
  | .return value => .keyword .return :: (value.tokens ++ [.sign .semicolon])
  | .expression value => value.tokens ++ [.sign .semicolon]

/-- The tokens of statements. -/
def Stmt.tokensAll : List Stmt → List Token
  | [] => []
  | s :: ss => s.tokens ++ Stmt.tokensAll ss

end

/-- The tokens of a program. -/
def Program.tokens (p : Program) : List Token := Stmt.tokensAll p

/-! ### Layouts -/

/-- The blanks that can stand between tokens. -/
def isGapChar (c : Char) : Bool := c == ' ' || c == '\n' || c == '\t' || c == '\r'

/-- A token with the blanks in front of it. -/
structure Spaced where
  gap : Text
  token : Token
  isGap : ∀ c ∈ gap, isGapChar c = true

namespace Spaced

/-- The text of the token, behind its blanks. -/
def text (x : Spaced) : Text := x.gap ++ x.token.text

/-- The pieces of a token that is kept. -/
def kept (x : Spaced) : List Piece := [.kept x.gap, .kept x.token.text]

/-- The second token stands apart from the first, where that would go on with it. -/
def Fits (x y : Spaced) : Prop :=
  ∀ c ∈ y.token.text.head?, x.token.goesOn c = true → y.gap ≠ []

/-- No `!` is attached to the bracket behind a condition. -/
def Apart (x y : Spaced) : Prop :=
  x.token.closesCondition = true → y.token.isBang = true → y.gap ≠ []

end Spaced

/-- The text of tokens with their blanks. -/
def textOf (l : List Spaced) : Text := l.flatMap Spaced.text

/-- A layout of tokens. -/
structure Layout (ts : List Token) where
  spaced : List Spaced
  /-- the blanks at the end -/
  tail : Text
  tokens_eq : spaced.map Spaced.token = ts
  fits : spaced.IsChain Spaced.Fits
  isTail : ∀ c ∈ tail, isGapChar c = true

/-- A token with one blank in front of it. -/
def Token.spaced (t : Token) : Spaced := ⟨[' '], t, fun _ h => List.mem_singleton.mp h ▸ rfl⟩

/-- One blank in front of each token fits. -/
instance (ts : List Token) : Inhabited (Layout ts) where
  default :=
    { spaced := ts.map Token.spaced
      tail := []
      tokens_eq := by
        rw [List.map_map]
        exact List.map_id ts
      fits := by
        refine (List.isChain_map _).mpr ?_
        exact (List.pairwise_of_forall fun _ _ _ _ _ => List.cons_ne_nil _ _).isChain
      isTail := fun _ h => absurd h List.not_mem_nil }

/-- The text of a layout. -/
def Layout.text {ts : List Token} (L : Layout ts) : Text := textOf L.spaced ++ L.tail

/-! ### What is kept -/

/-- What becomes of tokens.  `attached` tells that a `!` without blanks in front would be taken for
the end of the expression in front. -/
def pieces : Bool → List Spaced → List Piece
  | _, [] => []
  | attached, x :: l =>
    if attached && x.token.isBang && x.gap.isEmpty then
      .erased .nonNull x.token.text :: pieces true l
    else x.kept ++ pieces x.token.closesCondition l

/-- What becomes of a layout. -/
def Layout.pieces {ts : List Token} (L : Layout ts) : List Piece :=
  FreeForm.pieces false L.spaced ++ [.kept L.tail]

section

variable {attached : Bool} {x y : Spaced} {l r : List Spaced}

@[simp] theorem textOf_nil : textOf [] = [] := rfl

@[simp] theorem textOf_cons : textOf (x :: l) = x.text ++ textOf l := rfl

@[simp] theorem textOf_append : textOf (l ++ r) = textOf l ++ textOf r := List.flatMap_append

@[simp] theorem wholeText_spaced : wholeText x.kept = x.text := by
  rw [Spaced.kept, wholeText_kept, wholeText_kept, wholeText_nil, List.append_nil, Spaced.text]

theorem pieces_cons {t : Token} {b : Bool} (hx : x.token = t) (hbang : t.isBang = false)
    (hclose : t.closesCondition = b) : pieces attached (x :: l) = x.kept ++ pieces b l := by
  rw [pieces, hx, hbang, hclose, Bool.and_false, Bool.false_and]
  rfl

/-- What is in front of a token that is no `!` does not matter behind it. -/
theorem pieces_append_cons {t : Token} {b : Bool} (hx : x.token = t) (hbang : t.isBang = false)
    (hclose : t.closesCondition = b) :
    pieces attached (l ++ x :: r) = pieces attached l ++ (x.kept ++ pieces b r) := by
  induction l generalizing attached with
  | nil => exact pieces_cons hx hbang hclose
  | cons y l ih =>
    rw [List.cons_append, pieces, pieces]
    split
    · rw [ih, List.cons_append]
    · rw [ih, List.append_assoc]

theorem wholeText_pieces : wholeText (pieces attached l) = textOf l := by
  induction l generalizing attached with
  | nil => rfl
  | cons x l ih =>
    rw [pieces, textOf_cons]
    split
    · rename_i hbang
      simp only [Bool.and_eq_true, List.isEmpty_iff] at hbang
      rw [wholeText_erased, ih, Spaced.text, hbang.2, List.nil_append]
    · rw [wholeText_append, wholeText_spaced, ih]

theorem Layout.wholeText_pieces {ts : List Token} (L : Layout ts) :
    wholeText L.pieces = L.text := by
  rw [Layout.pieces, wholeText_append, FreeForm.wholeText_pieces, wholeText_kept, wholeText_nil,
    List.append_nil, Layout.text]

theorem Layout.removals_pieces {ts : List Token} (L : Layout ts) :
    removals L.pieces = removals (FreeForm.pieces false L.spaced) := by
  rw [Layout.pieces, removals_append]
  exact List.append_nil _

theorem eq_nonNull_of_mem_removals {rule : ErasureRule}
    (h : rule ∈ removals (pieces attached l)) : rule = .nonNull := by
  induction l generalizing attached with
  | nil => cases h
  | cons x l ih =>
    rw [pieces] at h
    split at h
    · rcases List.mem_cons.mp h with heq | hlater
      · exact heq
      · exact ih hlater
    · exact ih h

/-- **Nothing is removed where no `!` is attached to the bracket behind a condition.** -/
theorem removals_pieces_eq_nil_iff : removals (pieces attached l) = [] ↔
    (attached = true → ∀ y ∈ l.head?, y.token.isBang = true → y.gap ≠ []) ∧
      l.IsChain Spaced.Apart := by
  induction l generalizing attached with
  | nil => simp [pieces]
  | cons x l ih =>
    rw [pieces, List.isChain_cons]
    split
    · rename_i hbang
      simp only [Bool.and_eq_true, List.isEmpty_iff] at hbang
      refine iff_of_false (List.cons_ne_nil _ _) ?_
      rintro ⟨hfirst, -⟩
      exact hfirst hbang.1.1 x rfl hbang.1.2 hbang.2
    · rename_i hkept
      have hnone : removals x.kept = [] := rfl
      rw [removals_append, hnone, List.nil_append, ih]
      have hfirst : attached = true → ∀ y ∈ (x :: l).head?, y.token.isBang = true → y.gap ≠ [] := by
        rintro hattached y hy hbang hgap
        cases hy
        exact hkept (by rw [hattached, hbang, hgap]; rfl)
      have hapart : (x.token.closesCondition = true →
          ∀ y ∈ l.head?, y.token.isBang = true → y.gap ≠ []) ↔ ∀ y ∈ l.head?, x.Apart y :=
        ⟨fun h y hy hclose => h hclose y hy, fun h hclose y hy => h y hy hclose⟩
      rw [hapart]
      exact ⟨fun h => ⟨hfirst, h⟩, fun h => h.2⟩

theorem keptText_of_removals_eq_nil {ps : List Piece} (h : removals ps = []) :
    keptText ps = wholeText ps := by
  induction ps with
  | nil => rfl
  | cons piece ps ih =>
    cases piece with
    | kept s => rw [keptText_kept, wholeText_kept, ih h]
    | erased rule s => cases h

end

end LivePreview.Erasure.FreeForm
