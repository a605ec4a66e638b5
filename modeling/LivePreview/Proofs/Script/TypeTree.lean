/-
Types as trees, and where their printed texts end.

A tree is printed with single spaces, and with brackets around a part that would otherwise be read
as more or as less than it is.  So each kind of tree has a level, the higher the less it is bound
together, and a part that stands where only lower levels may stand gets brackets.  A tree that has
brackets of its own (`enclosed`) keeps them, so every text of the grammar with single spaces is the
text of a tree.

`TypeTree.typeText` puts the printed texts into the grammar of texts, for which `TypeText.reads`
says where they are read to.  What is left is the place: the offset behind the text,
`endOffset?_typeTree`.
-/
import LivePreview.Proofs.Script.TokenText
import LivePreview.Proofs.Text.Place

namespace LivePreview.Script

open Text (Stops endOffset? byteSize)

/-! ### Trees -/

/-- A text in which all that opens is closed, so that brackets of this kind can stand around it. -/
structure Enclosed (b : Bracket) where
  body : Text
  balanced : leave [.group b] (body ++ [b.closing]) = some []

/-- The text with its brackets. -/
def Enclosed.group {b : Bracket} (e : Enclosed b) : BracketGroup := ⟨b, e.body, e.balanced⟩

/-- A name for a type: words joined by dots, the first neither reserved nor an operator.  `null`,
`void`, `this`, `true` and `false` are such names. -/
structure TypeName extends TypePath where
  isName : namesType first = true

/-- A word that can be the name of a declared type parameter. -/
structure ParameterName where
  text : Text
  isWord : IsWord text
  isPlain : parameterModifiers.contains text = false

/-- Operators in front of a type. -/
inductive TypeOperator where
  | keyOf
  | readOnly
  | unique
  | infer

/-- The word of an operator. -/
def TypeOperator.text : TypeOperator → Text
  | keyOf => "keyof".toList
  | readOnly => "readonly".toList
  | unique => "unique".toList
  | infer => "infer".toList

mutual

/-- Types. -/
inductive TypeTree where
  | name (x : TypeName)
  /-- a name with type arguments -/
  | applied (x : TypeName) (arguments : ArgumentTrees)
  | number (n : NumberType)
  | string (q : StringType)
  | template (t : TemplateType)
  /-- brackets or braces around any text that closes what it opens -/
  | group (g : BracketGroup)
  /-- a type in round brackets -/
  | enclosed (t : TypeTree)
  | typeOf (p : TypePath)
  /-- a type with one or more square brackets behind it -/
  | indexed (t : TypeTree) (index : Enclosed .square) (indices : List (Enclosed .square))
  | operator (w : TypeOperator) (t : TypeTree)
  | intersection (t u : TypeTree)
  | union (t u : TypeTree)
  | conditional (checked bound whenTrue whenFalse : TypeTree)
  | function (parameters : Enclosed .round) (result : TypeTree)
  | generic (declared : ParameterTrees) (parameters : Enclosed .round) (result : TypeTree)
  | predicate (x : TypeName) (plain : x.further = []) (t : TypeTree)

/-- One or more types; a comma may stand behind the last. -/
inductive ArgumentTrees where
  | last (t : TypeTree) (comma : Bool)
  | cons (t : TypeTree) (ts : ArgumentTrees)

/-- A declared type parameter. -/
inductive ParameterTree where
  | bare (x : ParameterName)
  | bounded (x : ParameterName) (bound : TypeTree)
  | defaulted (x : ParameterName) (default : TypeTree)
  | full (x : ParameterName) (bound default : TypeTree)

/-- One or more declared type parameters; a comma may stand behind the last. -/
inductive ParameterTrees where
  | last (p : ParameterTree) (comma : Bool)
  | cons (p : ParameterTree) (ps : ParameterTrees)

end

/-! ### Levels -/

/-- How loosely the parts of a type hold together. -/
inductive TypeLevel where
  | atom
  | operand
  | intersection
  | union
  | whole
deriving DecidableEq

/-- The levels in their order. -/
def TypeLevel.rank : TypeLevel → Nat
  | atom => 0
  | operand => 1
  | intersection => 2
  | union => 3
  | whole => 4

/-- The level of a tree.  A function, a conditional type and a predicate end with a whole type. -/
def TypeTree.level : TypeTree → TypeLevel
  | .name _ | .applied _ _ | .number _ | .string _ | .template _ | .group _ | .enclosed _
  | .typeOf _ => .atom
  | .indexed _ _ _ | .operator _ _ => .operand
  | .intersection _ _ => .intersection
  | .union _ _ => .union
  | .conditional _ _ _ _ | .function _ _ | .generic _ _ _ | .predicate _ _ _ => .whole

/-! ### Texts -/

/-- The text of a part of level `level`, where parts up to level `most` may stand. -/
def fenced (level most : TypeLevel) (s : Text) : Text :=
  if level.rank ≤ most.rank then s else '(' :: (s ++ [')'])

/-- What stands behind the last item of a list. -/
def listEnd (comma : Bool) : Text := if comma then [',', '>'] else ['>']

mutual

/-- The text of a type. -/
def TypeTree.text : TypeTree → Text
  | .name x => x.text
  | .applied x ts => x.text ++ '<' :: ts.text
  | .number n => n.text
  | .string q => q.text
  | .template t => t.text
  | .group g => g.text
  | .enclosed t => '(' :: (t.text ++ [')'])
  | .typeOf p => "typeof".toList ++ ' ' :: p.text
  | .indexed t i is =>
    fenced t.level .atom t.text ++ ((i :: is).map Enclosed.group).flatMap BracketGroup.text
  | .operator w t => w.text ++ ' ' :: fenced t.level .operand t.text
  | .intersection t u =>
    fenced t.level .operand t.text ++ ' ' :: '&' :: ' ' :: fenced u.level .intersection u.text
  | .union t u =>
    fenced t.level .intersection t.text ++ ' ' :: '|' :: ' ' :: fenced u.level .union u.text
  | .conditional t u v w =>
    fenced t.level .union t.text ++ (" extends ".toList ++ (fenced u.level .union u.text ++
      (" ? ".toList ++ (v.text ++ (" : ".toList ++ w.text)))))
  | .function e t => e.group.text ++ (" => ".toList ++ t.text)
  | .generic ps e t => '<' :: (ps.text ++ (e.group.text ++ (" => ".toList ++ t.text)))
  | .predicate x _ t => x.text ++ (" is ".toList ++ t.text)

/-- The text of type arguments behind the bracket that opens their list. -/
def ArgumentTrees.text : ArgumentTrees → Text
  | .last t comma => t.text ++ listEnd comma
  | .cons t ts => t.text ++ ',' :: ' ' :: ts.text

/-- The text of a declared type parameter. -/
def ParameterTree.text : ParameterTree → Text
  | .bare x => x.text
  | .bounded x t => x.text ++ (" extends ".toList ++ t.text)
  | .defaulted x t => x.text ++ (" = ".toList ++ t.text)
  | .full x t u => x.text ++ (" extends ".toList ++ (t.text ++ (" = ".toList ++ u.text)))

/-- The text of declared type parameters behind the bracket that opens their list. -/
def ParameterTrees.text : ParameterTrees → Text
  | .last p comma => p.text ++ listEnd comma
  | .cons p ps => p.text ++ ',' :: ' ' :: ps.text

end

/-! ### Printed texts are types -/

/-- The level of the grammar of texts. -/
def TypeLevel.kind : TypeLevel → TypeKind
  | atom => .atom
  | operand => .operand true
  | intersection => .row .intersection true
  | union => .row .union true
  | whole => .whole

section

variable {s : Text}

theorem TypeText.operand_of_atom (h : TypeText .atom s) : TypeText (.operand true) s := by
  simpa using h.indexed [] (List.forall_mem_nil _)

theorem TypeText.whole_of_union (h : TypeText (.row .union true) s) : TypeText .whole s :=
  h.plain.union

/-- A type of one level is a type of every higher level. -/
theorem TypeText.lift {l m : TypeLevel} (h : TypeText l.kind s) (hle : l.rank ≤ m.rank) :
    TypeText m.kind s := by
  have operand : TypeText .atom s → TypeText (.operand true) s := TypeText.operand_of_atom
  have intersection : TypeText (.operand true) s → TypeText (.row .intersection true) s :=
    fun h => .last (j := .intersection) h
  have union : TypeText (.row .intersection true) s → TypeText (.row .union true) s :=
    fun h => .last (j := .union) h.plain
  have whole : TypeText (.row .union true) s → TypeText .whole s := TypeText.whole_of_union
  cases l <;> cases m <;> first
    | exact h
    | exact absurd hle (by decide)
    | skip
  · exact operand h
  · exact intersection (operand h)
  · exact union (intersection (operand h))
  · exact whole (union (intersection (operand h)))
  · exact intersection h
  · exact union (intersection h)
  · exact whole (union (intersection h))
  · exact union h
  · exact whole (union h)
  · exact whole h

/-- A type in round brackets. -/
theorem TypeText.enclosed {k : TypeKind} (h : TypeText k s) : TypeText .atom ('(' :: (s ++ [')'])) :=
  .group (TokenText.of_typeText h).round

theorem TypeText.fenced {l : TypeLevel} (h : TypeText l.kind s) (most : TypeLevel) :
    TypeText most.kind (fenced l most s) := by
  unfold Script.fenced
  split
  · rename_i hle
    exact h.lift hle
  · exact TypeText.lift (l := .atom) h.enclosed (Nat.zero_le _)

theorem TypeText.toWhole {l : TypeLevel} (h : TypeText l.kind s) : TypeText .whole s :=
  h.lift (m := .whole) (by cases l <;> decide)

theorem TypeText.whole_of_callable (h : TypeText .callable s) : TypeText .whole s :=
  .union (.plain (.last (j := .union) (.plain (.last (j := .intersection) (.callable h)))))

end

/-- A word, a space and more text. -/
theorem stops_space (t : Text) : Stops isIdentChar ([' '] ++ t) := Text.stops_cons.mpr (by decide)

theorem TypeOperator.contains_text (w : TypeOperator) : typeOperators.contains w.text = true := by
  cases w <;> decide

/-- Parameters, an arrow and a type. -/
theorem TypeText.callable_arrow {t : Text} (ht : TypeText .whole t) (e : Enclosed .round) :
    TypeText .callable (e.group.text ++ (" => ".toList ++ t)) :=
  .function e.group rfl allBlank_space allBlank_space ht

/-! ### Lists -/

section

variable {any : Bool} {s : Text}

theorem allBlank_nil : AllBlank [] := List.forall_mem_nil _

theorem allBlank_cons {gap : Text} (hgap : AllBlank gap) : AllBlank (' ' :: gap) := by
  intro c hc
  rcases List.mem_cons.mp hc with rfl | hc
  · decide
  · exact hgap c hc

/-- A space may stand in front of a list. -/
theorem TypeText.arguments_space (h : TypeText (.arguments any) s) :
    TypeText (.arguments any) (' ' :: s) := by
  cases h with
  | argument hgap ht hgap' => exact .argument (allBlank_cons hgap) ht hgap'
  | furtherArguments hgap ht hgap' hts => exact .furtherArguments (allBlank_cons hgap) ht hgap' hts
  | noArgument hgap => exact .noArgument (allBlank_cons hgap)

theorem TypeText.parameters_space (h : TypeText (.parameters any) s) :
    TypeText (.parameters any) (' ' :: s) := by
  cases h with
  | parameter hgap r hx hplain hgap' hstop hb =>
    exact .parameter (allBlank_cons hgap) r hx hplain hgap' hstop hb
  | furtherParameters hgap r hx hplain hgap' hstop hb hps =>
    exact .furtherParameters (allBlank_cons hgap) r hx hplain hgap' hstop hb hps
  | noParameter hgap => exact .noParameter (allBlank_cons hgap)

theorem TypeText.arguments_last (h : TypeText .whole s) (comma : Bool) :
    TypeText (.arguments any) (s ++ listEnd comma) := by
  cases comma with
  | false => exact .argument allBlank_nil h allBlank_nil
  | true =>
    exact .furtherArguments allBlank_nil h allBlank_nil (.noArgument allBlank_nil)

end

/-- No modifier in front of a declared parameter. -/
def ModifierRow.empty : ModifierRow := ⟨[], List.nil_sublist _, nofun⟩

/-- The text of a declared parameter is its name, and what `TypeText` has behind a name. -/
def IsParameter (s : Text) : Prop :=
  ∃ (x : ParameterName) (gap b : Text), AllBlank gap ∧ Stops isIdentChar (gap ++ b) ∧
    TypeText .bounded b ∧ s = x.text ++ (gap ++ b)

section

variable {any : Bool} {s ps : Text}

theorem IsParameter.parameters_cons (h : IsParameter s) (hps : TypeText (.parameters true) ps) :
    TypeText (.parameters any) (s ++ ',' :: ps) := by
  obtain ⟨x, gap, b, hgap, hstop, hb, rfl⟩ := h
  have hlist : TypeText (.parameters any) _ :=
    .furtherParameters allBlank_nil .empty x.isWord x.isPlain hgap hstop hb hps
  simpa [ModifierRow.text, ModifierRow.empty, modifierText] using hlist

theorem IsParameter.parameters_last (h : IsParameter s) (comma : Bool) :
    TypeText (.parameters any) (s ++ listEnd comma) := by
  cases comma with
  | false =>
    obtain ⟨x, gap, b, hgap, hstop, hb, rfl⟩ := h
    have hlist : TypeText (.parameters any) _ :=
      .parameter allBlank_nil .empty x.isWord x.isPlain hgap hstop hb
    simpa [ModifierRow.text, ModifierRow.empty, modifierText, listEnd] using hlist
  | true => exact h.parameters_cons (.noParameter allBlank_nil)

variable {t d : Text}

/-- A default, with the space in front of it. -/
theorem TypeText.bounded_default (h : TypeText .whole t) : TypeText .bounded ('=' :: ' ' :: t) := by
  have hdefault := TypeText.default allBlank_space h allBlank_nil
  simpa using hdefault.noBound

theorem TypeText.bounded_bound (h : TypeText .whole t) :
    TypeText .bounded ("extends".toList ++ ' ' :: t) := by
  have hbound := TypeText.bound allBlank_space (stops_space _) h allBlank_nil .noDefault
  simpa using hbound

theorem TypeText.bounded_both (h : TypeText .whole t) (hd : TypeText .whole d) :
    TypeText .bounded ("extends".toList ++ ' ' :: (t ++ " = ".toList ++ d)) := by
  have hdefault := TypeText.default allBlank_space hd allBlank_nil
  have hbound := TypeText.bound allBlank_space (stops_space _) h allBlank_space hdefault
  simpa using hbound

end

mutual

/-- **The text of a tree is a type.** -/
theorem TypeTree.typeText : (t : TypeTree) → TypeText t.level.kind t.text
  | .name x => .name x.toTypePath x.isName
  | .applied x ts => .applied x.toTypePath x.isName ts.typeText
  | .number n => .number n
  | .string q => .string q
  | .template t => .template t
  | .group g => .group g
  | .enclosed t => t.typeText.enclosed
  | .typeOf p => .typeOf p allBlank_space nofun
  | .indexed t i is => by
    refine .indexed (t.typeText.fenced .atom) _ fun g hg => ?_
    obtain ⟨e, -, rfl⟩ := List.mem_map.mp hg
    rfl
  | .operator w t =>
    .operator w.contains_text allBlank_space (stops_space _)
      (t.typeText.fenced .operand)
  | .intersection t u =>
    .next (j := .intersection) (t.typeText.fenced .operand)
      allBlank_space allBlank_space (u.typeText.fenced .intersection)
  | .union t u =>
    .next (j := .union) (t.typeText.fenced .intersection).plain
      allBlank_space allBlank_space (u.typeText.fenced .union)
  | .conditional t u v w => by
    have hapart : Apart (fenced t.level .union t.text) ([' '] ++ "extends".toList) :=
      .of_stops (Text.stops_cons.mpr (by decide))
    have hgaps : ∀ gap ∈ List.replicate 6 [' '], AllBlank gap := by
      intro gap hgap
      exact List.eq_of_mem_replicate hgap ▸ allBlank_space
    exact .conditional (t.typeText.fenced .union).plain (u.typeText.fenced .union).plain
      v.typeText.toWhole w.typeText.toWhole hgaps hapart (stops_space _)
  | .function e t => (t.typeText.toWhole.callable_arrow e).whole_of_callable
  | .generic ps e t => by
    have hfunction := t.typeText.toWhole.callable_arrow e
    have hgeneric := TypeText.generic ps.typeText allBlank_nil hfunction
    exact hgeneric.whole_of_callable
  | .predicate x plain t => by
    have htext : x.text = x.first := by simp [TypePath.text, plain, dottedWords]
    have hinline : ∀ c ∈ [' '], isInline c = true := by simp [isInline]
    show TypeText .whole (x.text ++ (" is ".toList ++ t.text))
    rw [htext]
    exact .whole_of_callable <|
      .predicate x.first_isWord x.isName hinline nofun allBlank_space (stops_space _)
        t.typeText.toWhole

theorem ArgumentTrees.typeText {any : Bool} :
    (ts : ArgumentTrees) → TypeText (.arguments any) ts.text
  | .last t comma => t.typeText.toWhole.arguments_last comma
  | .cons t ts =>
    .furtherArguments allBlank_nil t.typeText.toWhole allBlank_nil
      (ts.typeText.arguments_space)

theorem ParameterTree.isParameter : (p : ParameterTree) → IsParameter p.text
  | .bare x => ⟨x, [], [], nofun, Text.stops_nil _, .noBound .noDefault, (List.append_nil _).symm⟩
  | .bounded x t =>
    ⟨x, [' '], _, allBlank_space, stops_space _, t.typeText.toWhole.bounded_bound, rfl⟩
  | .defaulted x t =>
    ⟨x, [' '], _, allBlank_space, stops_space _, t.typeText.toWhole.bounded_default, rfl⟩
  | .full x t u =>
    ⟨x, [' '], _, allBlank_space, stops_space _,
      t.typeText.toWhole.bounded_both u.typeText.toWhole, by simp [ParameterTree.text]⟩

theorem ParameterTrees.typeText {any : Bool} :
    (ps : ParameterTrees) → TypeText (.parameters any) ps.text
  | .last p comma => p.isParameter.parameters_last comma
  | .cons p ps => p.isParameter.parameters_cons ps.typeText.parameters_space

end

/-! ### The end of a printed type -/

/-- True of the characters that a type, or the last token of a type, can go on with. -/
def goesOnType (c : Char) : Bool :=
  isBlank c || isPathChar c || ['<', '=', '[', '|', '&'].contains c

theorem apart_of_stops {t rest : Text} (h : Stops goesOnType rest) : Apart t rest := by
  refine .of_stops (Text.stops_mono (fun c hc => ?_) h)
  simp only [goesOnName, Bool.or_eq_true, beq_iff_eq] at hc
  rcases hc with hc | rfl
  · simp [goesOnType, hc]
  · decide

theorem endsWhole_of_stops {s : Text} (h : Stops goesOnType s) : EndsWhole s := by
  have stops : ∀ {p : Char → Bool}, (∀ c, p c = true → goesOnType c = true) → Stops p s :=
    fun hp => Text.stops_mono hp h
  have hpass : Text.skipBlanks s = s :=
    Text.skipBlanks_of_stops (stops fun c hc => by simp [goesOnType, hc])
  have hword : ∀ w, afterKeyword? w s = none := fun w =>
    afterKeyword?_of_stops (stops fun c hc => by
      simp [goesOnType, isPathChar, isIdentChar_of_start hc])
  have ne : ∀ {c : Char} {u : Text}, goesOnType c = true → s ≠ c :: u := by
    rintro c u hc rfl
    rw [Text.stops_cons.mp h] at hc
    cases hc
  refine ⟨⟨⟨afterKeyword?_skipInline (hpass.symm ▸ hword _), fun u => ?_⟩, ?_⟩, fun j => ?_, ?_⟩
  · rw [hpass]
    exact ne (by decide)
  · cases s with
    | nil => rfl
    | cons c s =>
      have hc : c ≠ '[' := by
        rintro rfl
        exact ne (c := '[') (by decide) rfl
      simpa [startsWithChar] using hc
  · refine rest?_more_of_ne ?_
    rw [hpass]
    refine stops fun c hc => ?_
    obtain rfl : c = j.sign := by simpa using hc
    cases j <;> decide
  · rw [hpass]
    exact hword _

/-- True of the characters that close what a type stands in. -/
def closesType (c : Char) : Bool := [',', ';', ')', ']', '\x7d', '>'].contains c

/-- The end of the text, or a character that closes what a type stands in. -/
def BehindType (s : Text) : Prop := ∀ c ∈ s.head?, closesType c = true

theorem BehindType.stops {s : Text} (h : BehindType s) : Stops goesOnType s := by
  intro c hc
  have hmem : c ∈ [',', ';', ')', ']', '\x7d', '>'] := by simpa [closesType] using h c hc
  fin_cases hmem <;> decide

section

variable {rest : Text}

theorem TypeTree.afterType?_text (t : TypeTree) (h : BehindType rest) :
    afterType? (t.text ++ rest) = some rest :=
  t.typeText.toWhole.reads rest (apart_of_stops h.stops) (endsWhole_of_stops h.stops)

theorem ArgumentTrees.afterTypeArguments?_text (ts : ArgumentTrees) (rest : Text) :
    afterTypeArguments? ('<' :: ts.text ++ rest) = some rest :=
  ts.typeText.afterTypeArguments?_append rest

theorem ParameterTrees.afterTypeParameters?_text (ps : ParameterTrees) (rest : Text) :
    afterTypeParameters? ('<' :: ps.text ++ rest) = some rest :=
  ps.typeText.afterTypeParameters?_append rest

end

/-- **A printed type is read to its end and no further**, at any place and with anything behind it
that closes what it stands in.  So are the lists of type arguments and of declared parameters, with
anything behind them. -/
theorem endOffset?_typeTree (front rest : Text) :
    (∀ t : TypeTree, BehindType rest →
      endOffset? afterType? (byteSize front) (front ++ (t.text ++ rest))
        = some (byteSize (front ++ t.text))) ∧
    (∀ ts : ArgumentTrees,
      endOffset? afterTypeArguments? (byteSize front) (front ++ ('<' :: ts.text ++ rest))
        = some (byteSize (front ++ '<' :: ts.text))) ∧
    (∀ ps : ParameterTrees,
      endOffset? afterTypeParameters? (byteSize front) (front ++ ('<' :: ps.text ++ rest))
        = some (byteSize (front ++ '<' :: ps.text))) := by
  refine ⟨fun t h => ?_, fun ts => ?_, fun ps => ?_⟩
  · exact Text.endOffset?_append (t.afterType?_text h) front
  · exact Text.endOffset?_append (ts.afterTypeArguments?_text rest) front
  · exact Text.endOffset?_append (ps.afterTypeParameters?_text rest) front

/-- A name without dots. -/
def TypeName.plain (w : Text) (hword : IsWord w) (hname : namesType w = true) : TypeName :=
  ⟨⟨w, [], hword, nofun⟩, hname⟩

/-- `List<(x: T) => x is string>[] | null` -/
def TypeTree.guards : TypeTree :=
  let name (w : Text) (hword : IsWord w) (hname : namesType w = true) : TypeTree :=
    .name (.plain w hword hname)
  let list := TypeName.plain "List".toList (isWord_of_all rfl (by decide)) (by decide)
  let x := TypeName.plain "x".toList (isWord_of_all rfl (by decide)) (by decide)
  let guard := TypeTree.function ⟨"x: T".toList, by decide +kernel⟩
    (.predicate x rfl (name "string".toList (isWord_of_all rfl (by decide)) (by decide)))
  .union (.indexed (.applied list (.last guard false)) ⟨[], rfl⟩ [])
    (name "null".toList (isWord_of_all rfl (by decide)) (by decide))

theorem endOffset?_typeTree_guards :
    TypeTree.guards.text = "List<(x: T) => x is string>[] | null".toList ∧
    BehindType "; f();".toList ∧
    endOffset? afterType? 8 ("let é: ".toList ++ (TypeTree.guards.text ++ "; f();".toList))
      = some 44 := by
  have hbehind : BehindType "; f();".toList := by simp [BehindType, closesType]
  exact ⟨rfl, hbehind, (endOffset?_typeTree "let é: ".toList _).1 _ hbehind⟩

end LivePreview.Script
