/-
What the eraser looks for ahead of where it stands.

The eraser asks for the end of a word, of a literal, of a group, of a type or of a whole
declaration before it decides what to keep.  `Lookahead` lists these questions.  Every answer is
an end piece of the text that was asked about, so whatever lies in between is a slice of it.
-/
import LivePreview.Proofs.Script.TypeEnd
import LivePreview.Erasure.Step

namespace LivePreview.Erasure

open Script EnumObject

/-! ### Declarations -/

theorem suffix_skipSemicolon (s : Text) : skipSemicolon s <:+ s := by
  have hs := Text.suffix_skipInline s
  unfold skipSemicolon
  split
  · rename_i rest hrest
    rw [hrest] at hs
    exact Text.suffix_of_cons hs
  · exact List.suffix_rfl

theorem suffix_statementRestFrom (start : Text) (n : Nat) (here : Text) :
    statementRestFrom start n here <:+ here := by
  induction n generalizing here with
  | zero =>
    unfold statementRestFrom
    exact List.suffix_rfl
  | succ n ih =>
    cases here with
    | nil => exact List.suffix_rfl
    | cons c s =>
      have htail := List.suffix_cons c s
      unfold statementRestFrom
      split_ifs
      · split
        · rename_i rest hrest
          exact (ih rest).trans (suffix_afterGroup? hrest)
        · exact List.nil_suffix
      · exact (ih _).trans ((suffix_stringRest c s).trans htail)
      · exact (ih _).trans (suffix_skipTemplate (c :: s))
      · exact htail
      · dsimp only
        split_ifs
        · exact (ih s).trans htail
        · exact List.suffix_rfl
      · exact (ih s).trans htail

theorem suffix_interfaceRest? {name rest : Text} (h : interfaceRest? name = some rest) :
    rest <:+ name := by
  simp only [interfaceRest?, Option.ite_none_right_eq_some] at h
  obtain ⟨-, h⟩ := h
  obtain ⟨closed, hclosed, rfl⟩ := Option.map_eq_some_iff.mp h
  exact (suffix_skipSemicolon closed).trans
    ((suffix_afterGroup? hclosed).trans (List.dropWhile_suffix _))

/-- The type of an alias starts behind its equals sign. -/
theorem suffix_aliasRest? {name rest : Text} (h : aliasRest? name = some rest) :
    rest <:+ name := by
  have hnamed := (Text.suffix_skipBlanks (skipIdent name)).trans (suffix_skipIdent name)
  simp only [aliasRest?] at h
  split at h
  · rename_i value hdeclared
    have hvalue : '=' :: value <:+ name := by
      refine List.IsSuffix.trans ?_ hnamed
      split at hdeclared
      · obtain ⟨list, hlist, hblanks⟩ := Option.map_eq_some_iff.mp hdeclared
        rw [← hblanks]
        exact (Text.suffix_skipBlanks list).trans
          ((suffix_tail_afterTypeParameters? hlist).trans (List.tail_suffix _))
      · rw [Option.some.inj hdeclared]
    have hstatement := suffix_statementRestFrom value value.length value
    split at h
    · cases h
    · cases h
      refine (suffix_skipSemicolon _).trans (List.IsSuffix.trans ?_ (Text.suffix_of_cons hvalue))
      split
      · rename_i closed hclosed
        split
        · exact suffix_afterType? hclosed
        · exact hstatement
      · exact hstatement
  · cases h

/-! ### Bindings, expressions and markup -/

theorem suffix_afterPattern? {s rest : Text} (h : afterPattern? s = some rest) : rest <:+ s := by
  cases s with
  | nil => cases h
  | cons c s =>
    simp only [afterPattern?] at h
    split at h
    · exact suffix_afterGroup? h
    · split at h
      · cases h
        exact suffix_skipIdent (c :: s)
      · cases h

theorem suffix_afterThisType? {s rest : Text} (h : Eraser.afterThisType? s = some rest) :
    rest <:+ s := by
  unfold Eraser.afterThisType? at h
  split at h
  · rename_i t
    obtain ⟨type, htype, rfl⟩ := Option.map_eq_some_iff.mp h
    have htype := (suffix_afterType? htype).trans (List.suffix_cons ':' t)
    have hblanks := (Text.suffix_skipBlanks type).trans htype
    split
    · rename_i next hnext
      rw [hnext] at hblanks
      exact (Text.suffix_skipBlanks next).trans (Text.suffix_of_cons hblanks)
    · exact htype
  · cases h

theorem suffix_regexRest? {inClass : Bool} {s rest : Text} (h : regexRest? inClass s = some rest) :
    rest <:+ s := by
  fun_induction regexRest? inClass s with
  | case1 | case3 => cases h
  | case2 inClass c s ih =>
    exact (ih h).trans ((List.suffix_cons c s).trans (List.suffix_cons _ _))
  | case6 =>
    cases h
    exact (List.dropWhile_suffix _).trans (List.suffix_cons _ _)
  | _ =>
    rename_i ih
    exact (ih h).trans (List.suffix_cons _ _)

theorem suffix_tail_afterArrowParameters? {s rest : Text}
    (h : afterArrowParameters? s = some rest) : rest <:+ s.tail :=
  suffix_tail_afterTypeParameters? (Option.filter_eq_some_iff.mp h).1

theorem suffix_behind (mark : Char) (s : Text) : Eraser.behind mark s <:+ s :=
  (List.drop_suffix 1 _).trans (List.dropWhile_suffix _)

theorem suffix_tail_skipPiece (s : Text) : skipPiece s <:+ s.tail := by
  cases s with
  | nil => exact List.suffix_rfl
  | cons c s =>
    simp only [skipPiece]
    split
    · cases hclosed : afterGroup? (c :: s) with
      | none => exact List.nil_suffix
      | some rest => exact suffix_tail_afterGroup? hclosed
    · cases hliteral : afterLiteral? (c :: s) with
      | none => exact List.suffix_rfl
      | some rest => exact suffix_tail_afterLiteral? hliteral

/-! ### All of them -/

/-- What the eraser looks for the end of. -/
inductive Lookahead where
  | blanks
  | inlineBlanks
  | line
  | blockComment
  | word
  | dottedName
  | string (quote : Char)
  | template
  | regex
  | literal
  | group
  /-- everything that a reader of groups and literals is inside of -/
  | inside (within : List Within)
  /-- a form of the type grammar, with a bound on the depth of the calls -/
  | form (bound : Nat) (f : TypeForm)
  | type
  | typeArguments
  | typeParameters
  | arrowParameters
  | thisType
  | pattern
  | semicolon
  /-- a statement that began at `start`, with a bound on the number of pieces -/
  | statement (bound : Nat) (start : Text)
  | interface
  | typeAlias
  | tagName
  /-- the next `mark` -/
  | mark (mark : Char)
  /-- a piece of the body of an enum -/
  | piece

/-- What remains behind that, if it stands at the front of the text. -/
def Lookahead.rest? : Lookahead → Text → Option Text
  | blanks, s => some (Text.skipBlanks s)
  | inlineBlanks, s => some (Text.skipInline s)
  | line, s => some (Text.skipLine s)
  | blockComment, s => some (blockRest s)
  | word, s => some (skipIdent s)
  | dottedName, s => afterDotted? s
  | string quote, s => some (stringRest quote s)
  | template, s => some (skipTemplate s)
  | regex, s => regexRest? false s
  | literal, s => afterLiteral? s
  | group, s => afterGroup? s
  | inside within, s => leave within s
  | form bound f, s => extent bound f s
  | type, s => afterType? s
  | typeArguments, s => afterTypeArguments? s
  | typeParameters, s => afterTypeParameters? s
  | arrowParameters, s => afterArrowParameters? s
  | thisType, s => Eraser.afterThisType? s
  | pattern, s => afterPattern? s
  | semicolon, s => some (skipSemicolon s)
  | statement bound start, s => some (statementRestFrom start bound s)
  | interface, s => interfaceRest? s
  | typeAlias, s => aliasRest? s
  | tagName, s => some (s.dropWhile Eraser.isTagNameChar)
  | mark c, s => some (Eraser.behind c s)
  | piece, s => some (skipPiece s)

/-- **Whatever the eraser looks for, it finds an end piece of the text.** -/
theorem Lookahead.suffix {l : Lookahead} {s rest : Text} (h : l.rest? s = some rest) :
    rest <:+ s := by
  cases l with
  | blanks => exact Option.some.inj h ▸ Text.suffix_skipBlanks s
  | inlineBlanks => exact Option.some.inj h ▸ Text.suffix_skipInline s
  | line => exact Option.some.inj h ▸ List.dropWhile_suffix _
  | blockComment => exact Option.some.inj h ▸ suffix_blockRest s
  | word => exact Option.some.inj h ▸ suffix_skipIdent s
  | dottedName => exact suffix_afterDotted? h
  | string quote => exact Option.some.inj h ▸ suffix_stringRest quote s
  | template => exact Option.some.inj h ▸ suffix_skipTemplate s
  | regex => exact suffix_regexRest? h
  | literal => exact (suffix_tail_afterLiteral? h).trans (List.tail_suffix s)
  | group => exact suffix_afterGroup? h
  | inside within => exact suffix_leave h
  | form bound f => exact leavesEnd_extent bound h
  | type => exact suffix_afterType? h
  | typeArguments => exact (suffix_tail_afterTypeArguments? h).trans (List.tail_suffix s)
  | typeParameters => exact (suffix_tail_afterTypeParameters? h).trans (List.tail_suffix s)
  | arrowParameters => exact (suffix_tail_afterArrowParameters? h).trans (List.tail_suffix s)
  | thisType => exact suffix_afterThisType? h
  | pattern => exact suffix_afterPattern? h
  | semicolon => exact Option.some.inj h ▸ suffix_skipSemicolon s
  | statement bound start => exact Option.some.inj h ▸ suffix_statementRestFrom start bound s
  | interface => exact suffix_interfaceRest? h
  | typeAlias => exact suffix_aliasRest? h
  | tagName => exact Option.some.inj h ▸ List.dropWhile_suffix _
  | mark c => exact Option.some.inj h ▸ suffix_behind c s
  | piece => exact Option.some.inj h ▸ (suffix_tail_skipPiece s).trans (List.tail_suffix s)

end LivePreview.Erasure
