/-
Markup with code in it.

A tree of this file is an element, an element that closes itself or a fragment, with
attributes, text and inserted code down to any depth.  Inserted code is a name, a string or
markup again, and what is inserted may be asserted to have a type.  As for programs, the
tree is printed as pieces: the assertions are erased and all else is kept.

Attributes and children are lists that are built in the same block of types as the trees,
so a function on trees is one recursion with a case for each way to go on.
-/
import LivePreview.Proofs.Erasure.Removal

namespace LivePreview.Erasure

open Script
open Eraser (AssertionWord assertion isTagNameChar)

/-! ### Trees -/

/-- The name of a tag. -/
structure TagName where
  text : Text
  starts : text.head?.any isAsciiLetter = true
  isName : text.all isTagNameChar = true
  not_reserved : isReserved text = false
deriving DecidableEq

/-- The name of an attribute. -/
structure AttributeName where
  text : Text
  starts : startsIdent text = true
  isName : text.all isTagNameChar = true
deriving DecidableEq

/-- The value of an attribute between quotes, which may hold anything but its quote. -/
@[ext] structure AttributeText where
  quote : Char
  body : Text
  isQuote : isQuote quote = true
  isPlain : ∀ c ∈ body, c ≠ quote

instance : DecidableEq AttributeText := fun _ _ => decidable_of_iff _ AttributeText.ext_iff.symm

/-- The text between quotes, with its quotes. -/
def AttributeText.text (v : AttributeText) : Text := v.quote :: v.body ++ [v.quote]

/-- Text among the children of an element. -/
structure PlainText where
  text : Text
  isPlain : ∀ c ∈ text, c ≠ '<' ∧ c ≠ '{'
deriving DecidableEq

mutual

/-- Markup. -/
inductive Markup where
  | element (tag : TagName) (attributes : Attributes) (content : Content)
  /-- an element that closes itself -/
  | void (tag : TagName) (attributes : Attributes)
  | fragment (content : Content)

/-- The attributes of a tag. -/
inductive Attributes where
  | done
  | bare (name : AttributeName) (others : Attributes)
  | quoted (name : AttributeName) (value : AttributeText) (others : Attributes)
  | braced (name : AttributeName) (value : Insert) (others : Attributes)

/-- What stands between two tags. -/
inductive Content where
  | done
  | text (s : PlainText) (others : Content)
  | braced (value : Insert) (others : Content)
  | child (m : Markup) (others : Content)

/-- Code between braces, with the type that it is asserted to have. -/
inductive Insert where
  | name (x : Name) (type : Option TypeExpr)
  | string (q : QuotedText) (type : Option TypeExpr)
  | markup (m : Markup) (type : Option TypeExpr)

end

/-! ### Texts -/

/-- The text of a closing tag. -/
def closingTag (name : Text) : Text := '<' :: '/' :: name ++ ['>']

/-- The piece that an assertion behind inserted code is. -/
def assertedPieces : Option TypeExpr → List Piece
  | none => []
  | some t => [.erased .asAssertion (assertion .as t)]

mutual

/-- The pieces of markup. -/
def Markup.pieces : Markup → List Piece
  | .element tag attributes content =>
    .kept ('<' :: tag.text) :: attributes.pieces ++ .kept ['>'] :: content.pieces
      ++ [.kept (closingTag tag.text)]
  | .void tag attributes => .kept ('<' :: tag.text) :: attributes.pieces ++ [.kept ['/', '>']]
  | .fragment content =>
    .kept ['<', '>'] :: content.pieces ++ [.kept (closingTag [])]

/-- The pieces of attributes, each with a space in front. -/
def Attributes.pieces : Attributes → List Piece
  | .done => []
  | .bare name others => .kept (' ' :: name.text) :: others.pieces
  | .quoted name value others =>
    .kept (' ' :: name.text ++ ['=']) :: .kept value.text :: others.pieces
  | .braced name value others =>
    .kept (' ' :: name.text ++ ['=']) :: .kept ['{'] :: value.pieces
      ++ .kept ['\x7d'] :: others.pieces

/-- The pieces of what stands between two tags. -/
def Content.pieces : Content → List Piece
  | .done => []
  | .text s others => .kept s.text :: others.pieces
  | .braced value others => .kept ['{'] :: value.pieces ++ .kept ['\x7d'] :: others.pieces
  | .child m others => m.pieces ++ others.pieces

/-- The pieces of inserted code. -/
def Insert.pieces : Insert → List Piece
  | .name x type => .kept x.text :: assertedPieces type
  | .string q type => .kept q.text :: assertedPieces type
  | .markup m type => m.pieces ++ assertedPieces type

end

namespace Markup

/-- The text of markup, with its assertions. -/
def text (m : Markup) : Text := wholeText m.pieces

/-- The number of assertions in markup. -/
def assertions (m : Markup) : Nat :=
  (m.pieces.filter fun piece => piece.rule?.isSome).length

end Markup

/-! ### Trees without assertions -/

mutual

/-- The markup without assertions. -/
def Markup.untyped : Markup → Markup
  | .element tag attributes content => .element tag attributes.untyped content.untyped
  | .void tag attributes => .void tag attributes.untyped
  | .fragment content => .fragment content.untyped

/-- The attributes without assertions. -/
def Attributes.untyped : Attributes → Attributes
  | .done => .done
  | .bare name others => .bare name others.untyped
  | .quoted name value others => .quoted name value others.untyped
  | .braced name value others => .braced name value.untyped others.untyped

/-- What stands between two tags, without assertions. -/
def Content.untyped : Content → Content
  | .done => .done
  | .text s others => .text s others.untyped
  | .braced value others => .braced value.untyped others.untyped
  | .child m others => .child m.untyped others.untyped

/-- The inserted code without assertions. -/
def Insert.untyped : Insert → Insert
  | .name x _ => .name x none
  | .string q _ => .string q none
  | .markup m _ => .markup m.untyped none

end

@[simp] theorem assertedPieces_none : assertedPieces none = [] := rfl

@[simp] theorem keptText_assertedPieces (type : Option TypeExpr) :
    keptText (assertedPieces type) = [] := by
  cases type <;> rfl

mutual

/-- **What is kept of markup is the text of the markup without assertions.** -/
theorem Markup.keptText_pieces : (m : Markup) → keptText m.pieces = wholeText m.untyped.pieces
  | .element tag attributes content => by
    simp [Markup.pieces, Markup.untyped, attributes.keptText_pieces, content.keptText_pieces]
  | .void tag attributes => by simp [Markup.pieces, Markup.untyped, attributes.keptText_pieces]
  | .fragment content => by simp [Markup.pieces, Markup.untyped, content.keptText_pieces]

theorem Attributes.keptText_pieces :
    (a : Attributes) → keptText a.pieces = wholeText a.untyped.pieces
  | .done => rfl
  | .bare name others => by
    simp [Attributes.pieces, Attributes.untyped, others.keptText_pieces]
  | .quoted name value others => by
    simp [Attributes.pieces, Attributes.untyped, others.keptText_pieces]
  | .braced name value others => by
    simp [Attributes.pieces, Attributes.untyped, value.keptText_pieces, others.keptText_pieces]

theorem Content.keptText_pieces : (c : Content) → keptText c.pieces = wholeText c.untyped.pieces
  | .done => rfl
  | .text s others => by simp [Content.pieces, Content.untyped, others.keptText_pieces]
  | .braced value others => by
    simp [Content.pieces, Content.untyped, value.keptText_pieces, others.keptText_pieces]
  | .child m others => by
    simp [Content.pieces, Content.untyped, m.keptText_pieces, others.keptText_pieces]

theorem Insert.keptText_pieces : (i : Insert) → keptText i.pieces = wholeText i.untyped.pieces
  | .name x type => by simp [Insert.pieces, Insert.untyped]
  | .string q type => by simp [Insert.pieces, Insert.untyped]
  | .markup m type => by simp [Insert.pieces, Insert.untyped, m.keptText_pieces]

end

/-! ### Assertions are all that is erased -/

theorem mem_removals_assertedPieces {type : Option TypeExpr} {rule : ErasureRule}
    (h : rule ∈ removals (assertedPieces type)) : rule = .asAssertion := by
  cases type with
  | none => cases h
  | some t => simpa [assertedPieces] using h

mutual

theorem Markup.eq_of_mem_removals : (m : Markup) → ∀ rule ∈ removals m.pieces, rule = .asAssertion
  | .element tag attributes content => by
    intro rule h
    simp only [Markup.pieces, removals_append, removals_kept, removals_nil, List.append_nil,
      List.cons_append, List.mem_append] at h
    rcases h with h | h
    · exact attributes.eq_of_mem_removals rule h
    · exact content.eq_of_mem_removals rule h
  | .void tag attributes => by
    intro rule h
    exact attributes.eq_of_mem_removals rule (by simpa [Markup.pieces] using h)
  | .fragment content => by
    intro rule h
    exact content.eq_of_mem_removals rule (by simpa [Markup.pieces] using h)

theorem Attributes.eq_of_mem_removals :
    (a : Attributes) → ∀ rule ∈ removals a.pieces, rule = .asAssertion
  | .done => by simp [Attributes.pieces]
  | .bare name others => others.eq_of_mem_removals
  | .quoted name value others => others.eq_of_mem_removals
  | .braced name value others => by
    intro rule h
    simp only [Attributes.pieces, removals_append, removals_kept, List.cons_append,
      List.mem_append] at h
    rcases h with h | h
    · exact value.eq_of_mem_removals rule h
    · exact others.eq_of_mem_removals rule h

theorem Content.eq_of_mem_removals :
    (c : Content) → ∀ rule ∈ removals c.pieces, rule = .asAssertion
  | .done => by simp [Content.pieces]
  | .text s others => others.eq_of_mem_removals
  | .braced value others => by
    intro rule h
    simp only [Content.pieces, removals_append, removals_kept, List.cons_append,
      List.mem_append] at h
    rcases h with h | h
    · exact value.eq_of_mem_removals rule h
    · exact others.eq_of_mem_removals rule h
  | .child m others => by
    intro rule h
    simp only [Content.pieces, removals_append, List.mem_append] at h
    rcases h with h | h
    · exact m.eq_of_mem_removals rule h
    · exact others.eq_of_mem_removals rule h

theorem Insert.eq_of_mem_removals : (i : Insert) → ∀ rule ∈ removals i.pieces, rule = .asAssertion
  | .name x type => fun _ h => mem_removals_assertedPieces h
  | .string q type => fun _ h => mem_removals_assertedPieces h
  | .markup m type => by
    intro rule h
    simp only [Insert.pieces, removals_append, List.mem_append] at h
    rcases h with h | h
    · exact m.eq_of_mem_removals rule h
    · exact mem_removals_assertedPieces h

end

end LivePreview.Erasure
