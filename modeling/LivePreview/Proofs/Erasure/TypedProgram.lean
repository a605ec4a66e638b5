/-
Typed programs.

A tree of this file is a program of a small typed language, and `pieces` prints it: the
characters of the untyped program are kept, and each piece of type syntax is erased under
its rule.  So the typed text and the removals are read off one list.

What is kept is also the text of a tree, the untyped one.  That is the last result here,
and it needs no eraser: it only says that the pieces to be erased are the right ones.
-/
import LivePreview.Proofs.Erasure.Removal

namespace LivePreview.Erasure

open Script
open Eraser (AssertionWord VariableWord typeSuffix annotationPieces argumentsRule assertion)

/-! ### Trees -/

/-- A parameter of a function. -/
structure Parameter where
  name : Name
  optional : Bool := false
  type : Option TypeExpr := none

/-- Expressions. -/
inductive Expr where
  | name (x : Name)
  | integer (d : Digits)
  | string (q : QuotedText)
  /-- a call, with type arguments if there are any -/
  | call (f : Name) (types : List TypeExpr) (arguments : List Expr)
  /-- round brackets, around an expression and what is asserted of it -/
  | round (inside : Expr) (asserted : Option (AssertionWord × TypeExpr))
  | arrow (parameters : List Parameter) (result : Option TypeExpr) (body : Expr)

/-- Statements. -/
inductive Stmt where
  | variable (word : VariableWord) (x : Name) (type : Option TypeExpr) (value : Expr)
  | return (value : Expr)
  | expression (value : Expr)
  /-- a function, with type parameters if there are any -/
  | function (f : Name) (types : List TypeParameter) (parameters : List Parameter)
      (result : Option TypeExpr) (body : List Stmt)

/-! ### Texts -/

/-- Pieces with a comma and a space between neighbours. -/
def commaPieces : List (List Piece) → List Piece
  | [] => []
  | [item] => item
  | item :: next :: items => item ++ .kept [',', ' '] :: commaPieces (next :: items)

/-- The piece that the mark of an optional parameter is, where there is one. -/
def markPieces : Bool → List Piece
  | false => []
  | true => [.erased .optionalMark ['?']]

/-- The pieces of a parameter. -/
def Parameter.pieces (p : Parameter) : List Piece :=
  .kept p.name.text :: markPieces p.optional ++ annotationPieces .parameterType p.type

/-- The pieces of a list of parameters, between round brackets, and of the result. -/
def signaturePieces (parameters : List Parameter) (result : Option TypeExpr) : List Piece :=
  .kept ['('] :: commaPieces (parameters.map Parameter.pieces)
    ++ .kept [')'] :: annotationPieces .returnType result

/-- The pieces of the type arguments of a call of `f`. -/
def typeArgumentPieces (f : Name) : List TypeExpr → List Piece
  | [] => []
  | t :: ts => [.erased (argumentsRule f.text)
      ('<' :: commaSeparated (TypeExpr.texts (t :: ts)) ++ ['>'])]

/-- The pieces of the type parameters of a function `f`. -/
def typeParameterPieces (f : Name) : List TypeParameter → List Piece
  | [] => []
  | p :: ps => [.erased (argumentsRule f.text) (TypeParameter.listText (p :: ps))]

/-- The piece that an assertion is, where there is one. -/
def assertionPieces : Option (AssertionWord × TypeExpr) → List Piece
  | none => []
  | some (k, t) => [.erased k.rule (assertion k t)]

mutual

/-- The pieces of an expression. -/
def Expr.pieces : Expr → List Piece
  | .name x => [.kept x.text]
  | .integer d => [.kept d.text]
  | .string q => [.kept q.text]
  | .call f types arguments =>
    .kept f.text :: typeArgumentPieces f types
      ++ .kept ['('] :: commaPieces (Expr.piecesEach arguments) ++ [.kept [')']]
  | .round inside asserted =>
    .kept ['('] :: inside.pieces ++ assertionPieces asserted ++ [.kept [')']]
  | .arrow parameters result body =>
    signaturePieces parameters result ++ .kept " => ".toList :: body.pieces

/-- The pieces of each of the expressions. -/
def Expr.piecesEach : List Expr → List (List Piece)
  | [] => []
  | E :: Es => E.pieces :: Expr.piecesEach Es

end

mutual

/-- The pieces of a statement. -/
def Stmt.pieces : Stmt → List Piece
  | .variable word x type value =>
    .kept word.text :: .kept (' ' :: x.text) :: annotationPieces .variableType type
      ++ .kept " = ".toList :: value.pieces ++ [.kept [';']]
  | .return value => .kept "return ".toList :: value.pieces ++ [.kept [';']]
  | .expression value => value.pieces ++ [.kept [';']]
  | .function f types parameters result body =>
    .kept "function ".toList :: .kept f.text :: typeParameterPieces f types
      ++ signaturePieces parameters result
      ++ .kept " \x7b\n".toList :: Stmt.blockPieces body ++ [.kept ['\x7d']]

/-- The pieces of statements, each with its newline. -/
def Stmt.blockPieces : List Stmt → List Piece
  | [] => []
  | s :: ss => s.pieces ++ .kept ['\n'] :: Stmt.blockPieces ss

end

/-- A typed program. -/
abbrev Program := List Stmt

namespace Program

/-- The text of a program, with its types. -/
def text (p : Program) : Text := wholeText (Stmt.blockPieces p)

/-- The number of pieces of type syntax in a program. -/
def typePieces (p : Program) : Nat :=
  ((Stmt.blockPieces p).filter fun piece => piece.rule?.isSome).length

end Program

/-! ### Untyped trees -/

/-- The parameter without mark and type. -/
def Parameter.untyped (p : Parameter) : Parameter := ⟨p.name, false, none⟩

mutual

/-- The expression without types. -/
def Expr.untyped : Expr → Expr
  | .name x => .name x
  | .integer d => .integer d
  | .string q => .string q
  | .call f _ arguments => .call f [] (Expr.untypedEach arguments)
  | .round inside _ => .round inside.untyped none
  | .arrow parameters _ body => .arrow (parameters.map Parameter.untyped) none body.untyped

/-- Each of the expressions without types. -/
def Expr.untypedEach : List Expr → List Expr
  | [] => []
  | E :: Es => E.untyped :: Expr.untypedEach Es

end

mutual

/-- The statement without types. -/
def Stmt.untyped : Stmt → Stmt
  | .variable word x _ value => .variable word x none value.untyped
  | .return value => .return value.untyped
  | .expression value => .expression value.untyped
  | .function f _ parameters _ body =>
    .function f [] (parameters.map Parameter.untyped) none (Stmt.untypedEach body)

/-- Each of the statements without types. -/
def Stmt.untypedEach : List Stmt → List Stmt
  | [] => []
  | s :: ss => s.untyped :: Stmt.untypedEach ss

end

/-- The program without types. -/
def Program.untyped (p : Program) : Program := Stmt.untypedEach p

/-! ### What is kept is the untyped tree -/

@[simp] theorem annotationPieces_none (rule : ErasureRule) : annotationPieces rule none = [] := rfl

@[simp] theorem markPieces_false : markPieces false = [] := rfl

@[simp] theorem typeArgumentPieces_nil (f : Name) : typeArgumentPieces f [] = [] := rfl

@[simp] theorem typeParameterPieces_nil (f : Name) : typeParameterPieces f [] = [] := rfl

@[simp] theorem assertionPieces_none : assertionPieces none = [] := rfl

@[simp] theorem keptText_annotationPieces (rule : ErasureRule) (t : Option TypeExpr) :
    keptText (annotationPieces rule t) = [] := by
  cases t <;> rfl

@[simp] theorem keptText_markPieces (optional : Bool) : keptText (markPieces optional) = [] := by
  cases optional <;> rfl

@[simp] theorem keptText_typeArgumentPieces (f : Name) (ts : List TypeExpr) :
    keptText (typeArgumentPieces f ts) = [] := by
  cases ts <;> rfl

@[simp] theorem keptText_typeParameterPieces (f : Name) (ps : List TypeParameter) :
    keptText (typeParameterPieces f ps) = [] := by
  cases ps <;> rfl

@[simp] theorem keptText_assertionPieces (a : Option (AssertionWord × TypeExpr)) :
    keptText (assertionPieces a) = [] := by
  rcases a with _ | ⟨k, t⟩ <;> rfl

/-- Items of which the kept parts are other items are kept as these, separators included. -/
theorem keptText_commaPieces {items items' : List (List Piece)}
    (h : items.map keptText = items'.map wholeText) :
    keptText (commaPieces items) = wholeText (commaPieces items') := by
  induction items generalizing items' with
  | nil =>
    obtain rfl : items' = [] := by simpa using h.symm
    rfl
  | cons item items ih =>
    obtain ⟨item', rest', rfl, hitem, hrest⟩ := List.map_eq_cons_iff.mp h.symm
    cases items with
    | nil =>
      obtain rfl : rest' = [] := by simpa using hrest
      simpa [commaPieces] using hitem.symm
    | cons next items =>
      obtain ⟨next', items', rfl, -, -⟩ := List.map_eq_cons_iff.mp hrest
      simp [commaPieces, hitem, ih hrest.symm]

theorem Parameter.keptText_pieces (p : Parameter) :
    keptText p.pieces = wholeText p.untyped.pieces := by
  simp [Parameter.pieces, Parameter.untyped]

theorem keptText_signaturePieces (ps : List Parameter) (t : Option TypeExpr) :
    keptText (signaturePieces ps t)
      = wholeText (signaturePieces (ps.map Parameter.untyped) none) := by
  have hitems : (ps.map Parameter.pieces).map keptText
      = ((ps.map Parameter.untyped).map Parameter.pieces).map wholeText := by
    simp [Parameter.keptText_pieces]
  simp [signaturePieces, keptText_commaPieces hitems]

mutual

theorem Expr.keptText_pieces : (E : Expr) → keptText E.pieces = wholeText E.untyped.pieces
  | .name _ | .integer _ | .string _ => rfl
  | .call f types arguments => by
    have harguments := keptText_commaPieces (Expr.keptText_piecesEach arguments)
    simp [Expr.pieces, Expr.untyped, harguments]
  | .round inside asserted => by
    simp [Expr.pieces, Expr.untyped, Expr.keptText_pieces inside]
  | .arrow parameters result body => by
    simp [Expr.pieces, Expr.untyped, keptText_signaturePieces, Expr.keptText_pieces body]

theorem Expr.keptText_piecesEach : (Es : List Expr) →
    (Expr.piecesEach Es).map keptText = (Expr.piecesEach (Expr.untypedEach Es)).map wholeText
  | [] => rfl
  | E :: Es => by
    simp [Expr.piecesEach, Expr.untypedEach, Expr.keptText_pieces E, Expr.keptText_piecesEach Es]

end

mutual

theorem Stmt.keptText_pieces : (s : Stmt) → keptText s.pieces = wholeText s.untyped.pieces
  | .variable word x type value => by
    simp [Stmt.pieces, Stmt.untyped, value.keptText_pieces]
  | .return value => by simp [Stmt.pieces, Stmt.untyped, value.keptText_pieces]
  | .expression value => by simp [Stmt.pieces, Stmt.untyped, value.keptText_pieces]
  | .function f types parameters result body => by
    simp [Stmt.pieces, Stmt.untyped, keptText_signaturePieces,
      Stmt.keptText_blockPieces body]

theorem Stmt.keptText_blockPieces : (ss : List Stmt) →
    keptText (Stmt.blockPieces ss) = wholeText (Stmt.blockPieces (Stmt.untypedEach ss))
  | [] => rfl
  | s :: ss => by
    simp [Stmt.blockPieces, Stmt.untypedEach, Stmt.keptText_pieces s, Stmt.keptText_blockPieces ss]

end

/-- **What is kept of a program is the text of the untyped program.** -/
theorem Program.keptText_blockPieces (p : Program) :
    keptText (Stmt.blockPieces p) = p.untyped.text :=
  Stmt.keptText_blockPieces p

end LivePreview.Erasure
