/-
The texts of the type grammar, and where their readers end.

`TypeText` says which texts are types, in every layout: blanks may stand wherever two tokens meet,
and a bracket group, a string or a template holds any text that the reader of such a thing gets
through.  It has one constructor for each form, and its index is the level of the form.

A type that is closed ends with a token of its own.  A function type, a constructor type and a
predicate are not closed: they end with another type, which takes all that can be part of it.  So
the level of a type tells what must not follow it, `TypeKind.Ends`, and behind a function type that
is more than behind a name.  `TypeText.reads` is the induction over the grammar: where nothing
follows that the type could go on with, it is read to its end.

The reader is greedy, and nothing but the text behind a token tells it where the token ends.
`Apart` keeps the characters away that a name or a number would go on with.
-/
import LivePreview.Proofs.Script.TypeParameter

namespace LivePreview.Script

open Text (Stops)

/-! ### Tokens -/

/-- True of the words that name a type where a type may start. -/
def namesType (w : Text) : Bool :=
  !typeOperators.contains w && w != "abstract".toList && w != "asserts".toList &&
    (!isReserved w || typeWords.contains w)

/-- Words joined by dots. -/
structure TypePath where
  first : Text
  further : List Text := []
  first_isWord : IsWord first
  further_isWord : ∀ w ∈ further, IsWord w

/-- The text of words joined by dots. -/
def TypePath.text (p : TypePath) : Text := p.first ++ dottedWords p.further

/-- Brackets around a text in which all that opens is closed. -/
structure BracketGroup where
  bracket : Bracket
  body : Text
  balanced : leave [.group bracket] (body ++ [bracket.closing]) = some []

/-- The text of brackets. -/
def BracketGroup.text (g : BracketGroup) : Text := g.bracket.opening :: (g.body ++ [g.bracket.closing])

/-- A string that is ended by its quote. -/
structure StringType where
  quote : Char
  body : Text
  isQuote : isQuote quote = true
  closed : leave [.quoted quote] (body ++ [quote]) = some []

/-- The text of a string, with its quotes. -/
def StringType.text (q : StringType) : Text := q.quote :: (q.body ++ [q.quote])

/-- A template that is ended by its backtick. -/
structure TemplateType where
  body : Text
  closed : leave [.template] (body ++ ['\x60']) = some []

/-- The text of a template, with its backticks. -/
def TemplateType.text (t : TemplateType) : Text := '\x60' :: (t.body ++ ['\x60'])

/-- True of the characters of a number. -/
def isNumberChar (c : Char) : Bool := isAsciiDigit c || c == '.'

/-- A number, with or without a sign. -/
structure NumberType where
  digits : Text
  negative : Bool
  ne_nil : digits ≠ []
  chars : ∀ c ∈ digits, isNumberChar c = true
  /-- a number without a sign starts with a digit -/
  head : negative = false → ∃ c, digits.head? = some c ∧ isAsciiDigit c = true

/-- The text of a number. -/
def NumberType.text (n : NumberType) : Text := (if n.negative then ['-'] else []) ++ n.digits

/-- The modifiers in front of a declared parameter, each with the blanks behind it. -/
structure ModifierRow where
  modifiers : List (Text × Text) := []
  order : (modifiers.map Prod.fst).Sublist parameterModifiers
  blank : ∀ m ∈ modifiers, m.2 ≠ [] ∧ AllBlank m.2

/-- The text of modifiers, each with its blanks. -/
def modifierText (ms : List (Text × Text)) : Text := ms.flatMap fun m => m.1 ++ m.2

/-- The text of modifiers. -/
def ModifierRow.text (r : ModifierRow) : Text := modifierText r.modifiers

/-- True of the characters of names and numbers. -/
def isPathChar (c : Char) : Bool := isIdentChar c || c == '.'

/-- True of the characters that a name or a number would go on with, its arguments included. -/
def goesOnName (c : Char) : Bool := isPathChar c || c == '<'

/-- The text behind `t` does not go on with the last token of `t`. -/
def Apart (t rest : Text) : Prop := ∀ c ∈ t.getLast?, isPathChar c = true → Stops goesOnName rest

/-! ### Types -/

/-- The levels of the grammar.  The flag of a level tells that all its types are closed. -/
inductive TypeKind where
  /-- a type that ends with a token of its own, and that brackets may follow -/
  | atom
  /-- a type that ends with another type: a function, a constructor or a predicate -/
  | callable
  /-- a type with brackets behind it or operators in front -/
  | operand (closed : Bool)
  /-- types joined by a sign -/
  | row (j : Joint) (closed : Bool)
  /-- joined types, where a sign may stand in front -/
  | joined (j : Joint) (closed : Bool)
  /-- a whole type -/
  | whole
  /-- types up to a closing angle bracket; the flag tells that one was read already -/
  | arguments (any : Bool)
  /-- the default of a declared parameter, or nothing -/
  | default
  /-- the bound and the default of a declared parameter -/
  | bounded
  /-- declared parameters up to a closing angle bracket -/
  | parameters (any : Bool)

/-- What a joined type joins. -/
def Joint.kind : Joint → Bool → TypeKind
  | union, closed => .joined .intersection closed
  | intersection, closed => .operand closed

/-- The texts of the type grammar. -/
inductive TypeText : TypeKind → Text → Prop
  | name (p : TypePath) (hname : namesType p.first = true) : TypeText .atom p.text
  | applied (p : TypePath) (hname : namesType p.first = true) {ts : Text}
      (hts : TypeText (.arguments false) ts) : TypeText .atom (p.text ++ '<' :: ts)
  | typeOf {gap : Text} (p : TypePath) (hgap : AllBlank gap) (hne : gap ≠ []) :
      TypeText .atom ("typeof".toList ++ (gap ++ p.text))
  | asserted {gap x : Text} (hgap : AllBlank gap) (hne : gap ≠ []) (hx : IsWord x) :
      TypeText .atom ("asserts".toList ++ (gap ++ x))
  | number (n : NumberType) : TypeText .atom n.text
  | string (q : StringType) : TypeText .atom q.text
  | template (t : TemplateType) : TypeText .atom t.text
  | group (g : BracketGroup) : TypeText .atom g.text
  | function {gap gap' t : Text} (g : BracketGroup) (hround : g.bracket = .round)
      (hgap : AllBlank gap) (hgap' : AllBlank gap') (ht : TypeText .whole t) :
      TypeText .callable (g.text ++ (gap ++ '=' :: '>' :: (gap' ++ t)))
  | generic {ps gap t : Text} (hps : TypeText (.parameters false) ps) (hgap : AllBlank gap)
      (ht : TypeText .callable t) : TypeText .callable ('<' :: (ps ++ (gap ++ t)))
  | construct {w gap t : Text} (hw : w = "new".toList ∨ w = "abstract".toList)
      (hgap : AllBlank gap) (hstop : Stops isIdentChar (gap ++ t)) (ht : TypeText .callable t) :
      TypeText .callable (w ++ (gap ++ t))
  | predicate {x gap gap' t : Text} (hx : IsWord x) (hname : namesType x = true)
      (hgap : ∀ c ∈ gap, isInline c = true) (hne : gap ≠ []) (hgap' : AllBlank gap')
      (hstop : Stops isIdentChar (gap' ++ t)) (ht : TypeText .whole t) :
      TypeText .callable (x ++ (gap ++ ("is".toList ++ (gap' ++ t))))
  | assertion {front x gap gap' t : Text} (hfront : AllBlank front) (hfrontne : front ≠ [])
      (hx : IsWord x) (hgap : ∀ c ∈ gap, isInline c = true) (hne : gap ≠ [])
      (hgap' : AllBlank gap') (hstop : Stops isIdentChar (gap' ++ t)) (ht : TypeText .whole t) :
      TypeText .callable
        ("asserts".toList ++ (front ++ (x ++ (gap ++ ("is".toList ++ (gap' ++ t))))))
  | indexed {t : Text} (ht : TypeText .atom t) (gs : List BracketGroup)
      (hsquare : ∀ g ∈ gs, g.bracket = .square) :
      TypeText (.operand true) (t ++ gs.flatMap BracketGroup.text)
  | operator {w gap t : Text} {closed : Bool} (hw : typeOperators.contains w = true)
      (hgap : AllBlank gap) (hstop : Stops isIdentChar (gap ++ t))
      (ht : TypeText (.operand closed) t) : TypeText (.operand closed) (w ++ (gap ++ t))
  | callable {t : Text} (ht : TypeText .callable t) : TypeText (.operand false) t
  | last {j : Joint} {closed : Bool} {t : Text} (ht : TypeText (j.kind closed) t) :
      TypeText (.row j closed) t
  | next {j : Joint} {closed : Bool} {t gap gap' u : Text} (ht : TypeText (j.kind true) t)
      (hgap : AllBlank gap) (hgap' : AllBlank gap') (hu : TypeText (.row j closed) u) :
      TypeText (.row j closed) (t ++ (gap ++ j.sign :: (gap' ++ u)))
  | plain {j : Joint} {closed : Bool} {t : Text} (ht : TypeText (.row j closed) t) :
      TypeText (.joined j closed) t
  | signed {j : Joint} {closed : Bool} {gap t : Text} (hgap : AllBlank gap)
      (ht : TypeText (.row j closed) t) : TypeText (.joined j closed) (j.sign :: (gap ++ t))
  | union {closed : Bool} {t : Text} (ht : TypeText (.joined .union closed) t) : TypeText .whole t
  | conditional {closed : Bool} {t u v w gap₁ gap₂ gap₃ gap₄ gap₅ gap₆ : Text}
      (ht : TypeText (.joined .union true) t) (hu : TypeText (.joined .union closed) u)
      (hv : TypeText .whole v) (hw : TypeText .whole w)
      (hgaps : ∀ gap ∈ [gap₁, gap₂, gap₃, gap₄, gap₅, gap₆], AllBlank gap)
      (hapart : Apart t (gap₁ ++ "extends".toList)) (hstop : Stops isIdentChar (gap₂ ++ u)) :
      TypeText .whole (t ++ (gap₁ ++ ("extends".toList ++ (gap₂ ++ (u ++
        (gap₃ ++ '?' :: (gap₄ ++ (v ++ (gap₅ ++ ':' :: (gap₆ ++ w))))))))))
  | argument {any : Bool} {gap t gap' : Text} (hgap : AllBlank gap) (ht : TypeText .whole t)
      (hgap' : AllBlank gap') : TypeText (.arguments any) (gap ++ (t ++ (gap' ++ ['>'])))
  | furtherArguments {any : Bool} {gap t gap' ts : Text} (hgap : AllBlank gap)
      (ht : TypeText .whole t) (hgap' : AllBlank gap') (hts : TypeText (.arguments true) ts) :
      TypeText (.arguments any) (gap ++ (t ++ (gap' ++ ',' :: ts)))
  | noArgument {gap : Text} (hgap : AllBlank gap) : TypeText (.arguments true) (gap ++ ['>'])
  | noDefault : TypeText .default []
  | default {gap t gap' : Text} (hgap : AllBlank gap) (ht : TypeText .whole t)
      (hgap' : AllBlank gap') : TypeText .default ('=' :: (gap ++ (t ++ gap')))
  | noBound {d : Text} (hd : TypeText .default d) : TypeText .bounded d
  | bound {gap t gap' d : Text} (hgap : AllBlank gap) (hstop : Stops isIdentChar (gap ++ t))
      (ht : TypeText .whole t) (hgap' : AllBlank gap') (hd : TypeText .default d) :
      TypeText .bounded ("extends".toList ++ (gap ++ (t ++ (gap' ++ d))))
  | parameter {any : Bool} {gap x gap' b : Text} (hgap : AllBlank gap) (r : ModifierRow)
      (hx : IsWord x) (hplain : parameterModifiers.contains x = false) (hgap' : AllBlank gap')
      (hstop : Stops isIdentChar (gap' ++ b)) (hb : TypeText .bounded b) :
      TypeText (.parameters any) (gap ++ (r.text ++ (x ++ (gap' ++ (b ++ ['>'])))))
  | furtherParameters {any : Bool} {gap x gap' b ps : Text} (hgap : AllBlank gap)
      (r : ModifierRow) (hx : IsWord x) (hplain : parameterModifiers.contains x = false)
      (hgap' : AllBlank gap') (hstop : Stops isIdentChar (gap' ++ b)) (hb : TypeText .bounded b)
      (hps : TypeText (.parameters true) ps) :
      TypeText (.parameters any) (gap ++ (r.text ++ (x ++ (gap' ++ (b ++ ',' :: ps)))))
  | noParameter {gap : Text} (hgap : AllBlank gap) : TypeText (.parameters true) (gap ++ ['>'])

/-! ### Where a token ends -/

theorem stops_append {p : Char → Bool} {s rest : Text} (hs : Stops p s) (hrest : Stops p rest) :
    Stops p (s ++ rest) := by
  cases s with
  | nil => exact hrest
  | cons c s => exact hs

theorem stops_append_of_ne_nil {p : Char → Bool} {s : Text} (hs : Stops p s) (hne : s ≠ [])
    (rest : Text) : Stops p (s ++ rest) := by
  cases s with
  | nil => exact absurd rfl hne
  | cons c s => exact hs

namespace Apart

variable {t u rest : Text}

theorem of_stops (h : Stops goesOnName rest) : Apart t rest := fun _ _ _ => h

/-- Only the end of the text in front counts. -/
theorem of_suffix (h : Apart t rest) (hu : u <:+ t) : Apart u rest := by
  obtain ⟨front, rfl⟩ := hu
  intro c hc hgoes
  refine h c ?_ hgoes
  rw [List.getLast?_append, Option.mem_def.mp hc]
  rfl

theorem stops (h : Apart t rest) {c : Char} (hlast : t.getLast? = some c)
    (hc : isPathChar c = true) : Stops goesOnName rest := h c hlast hc

theorem append (h : Apart t rest) (hne : rest ≠ []) (more : Text) : Apart t (rest ++ more) :=
  fun c hc hgoes => stops_append_of_ne_nil (h c hc hgoes) hne more

end Apart

theorem stops_isPathChar {s : Text} (h : Stops goesOnName s) : Stops isPathChar s :=
  Text.stops_mono (fun c hc => by simp [goesOnName, hc]) h

theorem stops_isIdentChar {s : Text} (h : Stops isPathChar s) : Stops isIdentChar s :=
  Text.stops_mono (fun c hc => by simp [isPathChar, hc]) h

/-! ### Blanks in front -/

/-- Blanks keep apart what is on both sides of them. -/
theorem AllBlank.stops {gap : Text} (hgap : AllBlank gap) (hne : gap ≠ []) {p : Char → Bool}
    (hp : ∀ c, p c = true → isBlank c = false) (s : Text) : Stops p (gap ++ s) := by
  obtain ⟨c, gap, rfl⟩ := List.exists_cons_of_ne_nil hne
  have hc : isBlank c = true := hgap c (List.mem_cons_self ..)
  refine Text.stops_cons.mpr ?_
  by_contra h
  rw [hp c (by simpa using h)] at hc
  cases hc

theorem AllBlank.stops_append {gap s : Text} (hgap : AllBlank gap) {p : Char → Bool}
    (hp : ∀ c, p c = true → isBlank c = false) (hs : Stops p s) : Stops p (gap ++ s) := by
  cases gap with
  | nil => exact hs
  | cons c gap => exact hgap.stops (List.cons_ne_nil c gap) hp s

/-- A text is its blanks and what is behind them. -/
theorem exists_blanks (s : Text) : ∃ gap, AllBlank gap ∧ s = gap ++ Text.skipBlanks s :=
  ⟨s.takeWhile isBlank, fun _ hc => List.mem_takeWhile_imp hc,
    (List.takeWhile_append_dropWhile).symm⟩

theorem rest?_part_skipBlanks (j : Joint) (s : Text) :
    rest? j.part (Text.skipBlanks s) = rest? j.part s := by
  obtain ⟨gap, hgap, hs⟩ := exists_blanks s
  conv_rhs => rw [hs]
  exact (rest?_part_append hgap _ j).symm

/-! ### Signs -/

/-- No type starts with such a sign. -/
theorem rest?_primary_sign {c : Char} (hc : c ∈ ['|', '&', '=', '>']) (s : Text) :
    rest? .primary (c :: s) = none := by
  rw [rest?_eq]
  fin_cases hc <;> rfl

theorem rest?_operand_sign {c : Char} (hc : c ∈ ['|', '&', '=', '>']) (s : Text) :
    rest? .operand (c :: s) = none := by
  rw [rest?_operand_eq, rest?_primary_sign hc, Option.bind_none]

theorem rest?_intersection_sign {c : Char} (hc : c ∈ ['|', '=', '>']) (s : Text) :
    rest? (.joined .intersection) (c :: s) = none := by
  have hskip : skipSign .intersection (c :: s) = c :: s := by fin_cases hc <;> rfl
  have hmem : c ∈ ['|', '&', '=', '>'] := by
    fin_cases hc <;> simp
  have hpart : Joint.intersection.part = .operand := rfl
  rw [rest?_joined_eq, hskip, hpart, rest?_operand_sign hmem, Option.bind_none]

/-- What is joined does not start with the sign that joins, nor with `=`. -/
theorem rest?_part_sign (j : Joint) {c : Char} (hc : c ∈ [j.sign, '=', '>']) (s : Text) :
    rest? j.part (c :: s) = none := by
  cases j with
  | union => exact rest?_intersection_sign hc s
  | intersection =>
    refine rest?_operand_sign ?_ s
    fin_cases hc <;> simp [Joint.sign]

theorem rest?_whole_sign {c : Char} (hc : c ∈ ['=', '>']) (s : Text) :
    rest? .whole (c :: s) = none := by
  have hskip : skipSign .union (c :: s) = c :: s := by fin_cases hc <;> rfl
  have hmem : c ∈ [Joint.union.sign, '=', '>'] := by fin_cases hc <;> simp
  have hunion : rest? (.joined .union) (c :: s) = none := by
    rw [rest?_joined_eq, hskip, rest?_part_sign .union hmem, Option.bind_none]
  rw [rest?_eq, formRest?, wholeRest?, hunion]

/-- Where no sign stands in front, there is none to be taken off. -/
theorem skipSign_of_stops {j : Joint} {s : Text} (h : Stops (· == j.sign) (Text.skipBlanks s)) :
    skipSign j s = Text.skipBlanks s := by
  unfold skipSign
  split
  · rename_i c u hu
    rw [hu] at h ⊢
    have hne : c ≠ j.sign := by simpa using h
    simp [hne]
  · rename_i hnil
    exact hnil.symm

section Row

variable {j : Joint} {s rest : Text} (h : (rest? j.part s).bind (rest? (.more j)) = some rest)

include h

/-- What can be read as joined types does not start with the sign. -/
theorem startsWithChar_of_row {c : Char} (hc : c ∈ [j.sign, '=', '>']) :
    startsWithChar c s = false := by
  cases s with
  | nil => rfl
  | cons d s =>
    by_contra hd
    obtain rfl : d = c := by simpa [startsWithChar] using hd
    rw [rest?_part_sign j hc] at h
    cases h

theorem rest?_joined_of_row : rest? (.joined j) s = some rest := by
  have hrow : (rest? j.part (Text.skipBlanks s)).bind (rest? (.more j)) = some rest := by
    rw [rest?_part_skipBlanks, h]
  have hsign := startsWithChar_of_row hrow (List.mem_cons_self ..)
  have hstop : Stops (· == j.sign) (Text.skipBlanks s) := by
    intro c hc
    simpa [startsWithChar, Option.mem_def.mp hc] using hsign
  rw [rest?_joined_eq, skipSign_of_stops hstop, hrow]

theorem rest?_joined_sign : rest? (.joined j) (j.sign :: s) = some rest := by
  have hsign := startsWithChar_of_row h (List.mem_cons_self ..)
  have hskip : skipSign j (j.sign :: s) = s := by
    rw [skipSign, Text.skipBlanks_cons (by cases j <;> rfl)]
    simp [hsign]
  rw [rest?_joined_eq, hskip, h]

theorem rest?_more_sign {gap : Text} (hgap : AllBlank gap) :
    rest? (.more j) (gap ++ j.sign :: s) = some rest := by
  have hsign := startsWithChar_of_row h (List.mem_cons_self ..)
  have hequals := startsWithChar_of_row h (c := '=') (by simp)
  have hpass : Text.skipBlanks (gap ++ j.sign :: s) = j.sign :: s := by
    rw [skipBlanks_append hgap, Text.skipBlanks_cons (by cases j <;> rfl)]
  rw [rest?_eq, formRest?, moreRest?, hpass]
  simpa [hsign, hequals] using h

end Row

/-! ### What must not follow -/

/-- The text behind a name or brackets makes no predicate and no function type of them. -/
structure EndsAtom (s : Text) : Prop where
  word : afterKeyword? "is".toList (Text.skipInline s) = none
  arrow : ∀ u, Text.skipBlanks s ≠ '=' :: '>' :: u

/-- No further brackets follow. -/
structure EndsOperand (s : Text) : Prop extends EndsAtom s where
  bracket : startsWithChar '[' s = false

/-- No further joined type follows. -/
structure EndsRow (j : Joint) (s : Text) : Prop extends EndsOperand s where
  intersection : rest? (.more .intersection) s = some s
  union : j = .union → rest? (.more .union) s = some s

/-- Nothing follows that a type could go on with. -/
structure EndsWhole (s : Text) : Prop extends EndsOperand s where
  sign : ∀ j : Joint, rest? (.more j) s = some s
  bound : afterKeyword? "extends".toList (Text.skipBlanks s) = none

theorem EndsWhole.endsRow {s : Text} (h : EndsWhole s) (j : Joint) : EndsRow j s :=
  { h with intersection := h.sign .intersection, union := fun _ => h.sign .union }

/-- A word that is not behind all blanks is not behind the inline blanks. -/
theorem afterKeyword?_skipInline {w s : Text} (h : afterKeyword? w (Text.skipBlanks s) = none) :
    afterKeyword? w (Text.skipInline s) = none := by
  by_cases hstart : Stops isIdentStart (Text.skipInline s)
  · exact afterKeyword?_of_stops hstart
  · have hpass : Text.skipBlanks (Text.skipInline s) = Text.skipInline s := by
      cases hs : Text.skipInline s with
      | nil => rfl
      | cons c t =>
        rw [hs] at hstart
        have hc : isIdentStart c = true := by simpa using hstart
        exact Text.skipBlanks_cons (isBlank_eq_false_of_identChar (isIdentChar_of_start hc))
    rw [← hpass, Text.skipBlanks_skipInline, h]

section Sign

variable {gap s : Text} {c : Char} (hgap : AllBlank gap)

include hgap

theorem startsWithChar_append {d : Char} (hd : isBlank d = false) (h : startsWithChar d s = false) :
    startsWithChar d (gap ++ s) = false := by
  cases gap with
  | nil => exact h
  | cons b gap =>
    have hb : isBlank b = true := hgap b (List.mem_cons_self ..)
    have hne : b ≠ d := by
      rintro rfl
      rw [hd] at hb
      cases hb
    simp [startsWithChar, hne]

theorem EndsOperand.of_sign (hc : c ∈ [';', '/', ',', '>', ':', '?', '|', '&']) :
    EndsOperand (gap ++ c :: s) := by
  have hsign : isBlank c = false ∧ isIdentStart c = false ∧ c ≠ '=' ∧ c ≠ '[' := by
    fin_cases hc <;> decide
  obtain ⟨hblank, hident, hequals, hbracket⟩ := hsign
  have hpass : Text.skipBlanks (gap ++ c :: s) = c :: s := by
    rw [skipBlanks_append hgap, Text.skipBlanks_cons hblank]
  refine ⟨⟨afterKeyword?_skipInline ?_, fun u hu => ?_⟩,
    startsWithChar_append hgap (by decide) (by simpa [startsWithChar] using hbracket)⟩
  · rw [hpass]
    exact afterKeyword?_of_stops (Text.stops_cons.mpr hident)
  · rw [hpass] at hu
    exact hequals (List.cons.inj hu).1

theorem rest?_more_of_sign {j : Joint} (hblank : isBlank c = false) (hc : c ≠ j.sign) :
    rest? (.more j) (gap ++ c :: s) = some (gap ++ c :: s) := by
  refine rest?_more_of_ne ?_
  rw [skipBlanks_append hgap, Text.skipBlanks_cons hblank]
  exact Text.stops_cons.mpr (by simpa using hc)

theorem EndsWhole.of_sign (hc : c ∈ [';', '/', ',', '>', ':', '?']) : EndsWhole (gap ++ c :: s) := by
  have hsign : isBlank c = false ∧ isIdentStart c = false ∧ ∀ j : Joint, c ≠ j.sign := by
    fin_cases hc <;> exact ⟨by decide, by decide, fun j => by cases j <;> decide⟩
  obtain ⟨hblank, hident, hjoint⟩ := hsign
  have hmem : c ∈ [';', '/', ',', '>', ':', '?', '|', '&'] := by
    fin_cases hc <;> simp
  refine ⟨.of_sign hgap hmem, fun j => rest?_more_of_sign hgap hblank (hjoint j), ?_⟩
  rw [skipBlanks_append hgap, Text.skipBlanks_cons hblank]
  exact afterKeyword?_of_stops (Text.stops_cons.mpr hident)

/-- The default of a parameter is behind its bound. -/
theorem EndsWhole.of_equals (h : startsWithChar '>' s = false) : EndsWhole (gap ++ '=' :: s) := by
  have hpass : Text.skipBlanks (gap ++ '=' :: s) = '=' :: s := by
    rw [skipBlanks_append hgap, Text.skipBlanks_cons (by decide)]
  have hword : ∀ w, afterKeyword? w (Text.skipBlanks (gap ++ '=' :: s)) = none := by
    intro w
    rw [hpass]
    exact afterKeyword?_of_stops (Text.stops_cons.mpr (by decide))
  refine ⟨⟨⟨afterKeyword?_skipInline (hword _), fun u hu => ?_⟩,
    startsWithChar_append hgap (by decide) rfl⟩, fun j => ?_, hword _⟩
  · rw [hpass] at hu
    rw [(List.cons.inj hu).2] at h
    cases h
  · exact rest?_more_of_sign hgap (by decide) (by cases j <;> decide)

end Sign

/-- A conditional type begins behind joined types. -/
theorem EndsRow.of_extends {gap s : Text} (hgap : AllBlank gap) (hstop : Stops isIdentChar s) :
    EndsRow .union (gap ++ ("extends".toList ++ s)) := by
  have hpass : Text.skipBlanks (gap ++ ("extends".toList ++ s)) = "extends".toList ++ s := by
    rw [skipBlanks_append hgap, Text.skipBlanks_of_stops TypeParameter.isWord_extends.stops_isBlank]
  have hword : afterKeyword? "is".toList (Text.skipBlanks (gap ++ ("extends".toList ++ s))) = none := by
    rw [hpass, afterKeyword?, TypeParameter.isWord_extends.word?_append hstop]
    exact if_neg (by decide)
  have hmore : ∀ j : Joint, rest? (.more j) (gap ++ ("extends".toList ++ s))
      = some (gap ++ ("extends".toList ++ s)) := by
    intro j
    refine rest?_more_of_sign hgap (c := 'e') (by decide) ?_
    cases j <;> decide
  refine ⟨⟨⟨afterKeyword?_skipInline hword, fun u hu => ?_⟩,
    startsWithChar_append hgap (by decide) rfl⟩, hmore _, fun _ => hmore _⟩
  rw [hpass] at hu
  cases hu

/-! ### The levels of the grammar -/

/-- What must hold of the text behind a type. -/
def TypeKind.Ends : TypeKind → Text → Prop
  | .atom, s => EndsAtom s
  | .operand true, s => EndsOperand s
  | .row j true, s | .joined j true, s => EndsRow j s
  | .callable, s | .operand false, s | .row _ false, s | .joined _ false, s | .whole, s => EndsWhole s
  | .default, s | .bounded, s => TypeParameter.Closes s
  | .arguments _, _ | .parameters _, _ => True

/-- The reader of a level. -/
def TypeKind.read : TypeKind → Text → Option Text
  | .atom, s | .callable, s => rest? .primary s
  | .operand _, s => rest? .operand s
  | .row j _, s => (rest? j.part s).bind (rest? (.more j))
  | .joined j _, s => rest? (.joined j) s
  | .whole, s => rest? .whole s
  | .arguments any, s => rest? (.arguments any) s
  | .default, s => defaultRest? rest? s
  | .bounded, s => (boundRest? rest? s).bind (defaultRest? rest?)
  | .parameters any, s => rest? (.parameters any) s

/-- The text is read to its end wherever nothing follows that it could go on with. -/
def TypeKind.Reads (k : TypeKind) (t : Text) : Prop :=
  ∀ rest, Apart t rest → k.Ends rest → k.read (t ++ rest) = some rest

/-- Where nothing goes on with a whole type, nothing goes on with a type of a lower level. -/
theorem EndsWhole.ends_joined {s : Text} (h : EndsWhole s) (j : Joint) (closed : Bool) :
    (TypeKind.joined j closed).Ends s := by
  cases closed with
  | false => exact h
  | true => exact h.endsRow j

theorem Joint.read_kind (j : Joint) (closed : Bool) (s : Text) :
    (j.kind closed).read s = rest? j.part s := by
  cases j <;> rfl

theorem TypeKind.ends_joined (j : Joint) (closed : Bool) (s : Text) :
    (TypeKind.joined j closed).Ends s = (TypeKind.row j closed).Ends s := by
  cases closed <;> rfl

/-- What ends a row ends its last type. -/
theorem TypeKind.ends_last {j : Joint} {closed : Bool} {s : Text}
    (h : (TypeKind.row j closed).Ends s) : (j.kind closed).Ends s ∧ rest? (.more j) s = some s := by
  cases closed with
  | false =>
    have h : EndsWhole s := h
    exact ⟨by cases j <;> exact h, h.sign j⟩
  | true =>
    have h : EndsRow j s := h
    cases j with
    | union => exact ⟨⟨h.toEndsOperand, h.intersection, nofun⟩, h.union rfl⟩
    | intersection => exact ⟨h.toEndsOperand, h.intersection⟩

/-- The sign of a row ends the type in front of it. -/
theorem Joint.ends_sign (j : Joint) {gap : Text} (hgap : AllBlank gap) (s : Text) :
    (j.kind true).Ends (gap ++ j.sign :: s) := by
  cases j with
  | union =>
    refine ⟨.of_sign hgap (by simp [Joint.sign]), ?_, nofun⟩
    exact rest?_more_of_sign hgap (by decide) (by decide)
  | intersection => exact .of_sign hgap (by simp [Joint.sign])

/-! ### The ends of a type -/

theorem isBlank_eq_false_of_goesOnName {c : Char} (h : goesOnName c = true) : isBlank c = false := by
  simp only [goesOnName, isPathChar, Bool.or_eq_true, beq_iff_eq] at h
  rcases h with (h | rfl) | rfl
  · exact isBlank_eq_false_of_identChar h
  · decide
  · decide

theorem apart_blanks {t gap : Text} (hgap : AllBlank gap) {c : Char} (hc : goesOnName c = false)
    (s : Text) : Apart t (gap ++ c :: s) :=
  .of_stops (hgap.stops_append (fun _ => isBlank_eq_false_of_goesOnName) (Text.stops_cons.mpr hc))

/-- A type has a character. -/
theorem TypeText.ne_nil {k : TypeKind} {t : Text} (h : TypeText k t) (hdefault : k ≠ .default)
    (hbounded : k ≠ .bounded) : t ≠ [] := by
  induction h with
  | name p hname => simp [TypePath.text, p.first_isWord.ne_nil]
  | number n => simp [NumberType.text, n.ne_nil]
  | string q => simp [StringType.text]
  | template t => simp [TemplateType.text]
  | group g => simp [BracketGroup.text]
  | function g => simp [BracketGroup.text]
  | construct hw => rcases hw with rfl | rfl <;> simp
  | predicate hx => simp [hx.ne_nil]
  | indexed ht gs hsquare ih => simp [ih nofun nofun]
  | operator hw hgap hstop ht ih => simp [ih nofun nofun]
  | callable ht ih | plain ht ih | union ht ih => exact ih nofun nofun
  | last ht ih =>
    rename_i j closed t
    exact ih (by cases j <;> nofun) (by cases j <;> nofun)
  | noDefault => exact absurd rfl hdefault
  | default => exact absurd rfl hdefault
  | noBound => exact absurd rfl hbounded
  | _ => simp

/-- A list of declared parameters ends with its bracket. -/
theorem TypeText.getLast?_parameters {any : Bool} {ps : Text}
    (h : TypeText (.parameters any) ps) : ps.getLast? = some '>' := by
  generalize hk : TypeKind.parameters any = k at h
  induction h generalizing any with
  | parameter => simp [List.getLast?_append]
  | furtherParameters _ _ _ _ _ _ _ _ _ ih => simp [List.getLast?_append, List.getLast?_cons, ih rfl]
  | noParameter => simp [List.getLast?_append]
  | _ => cases hk

theorem TypeText.apart_parameters {any : Bool} {ps : Text} (h : TypeText (.parameters any) ps)
    (rest : Text) : Apart ps rest := by
  intro c hc hpath
  obtain rfl : '>' = c := by simpa [h.getLast?_parameters] using hc
  exact absurd hpath (by decide)

/-- A list of type arguments ends with its bracket. -/
theorem TypeText.getLast?_arguments {any : Bool} {ts : Text}
    (h : TypeText (.arguments any) ts) : ts.getLast? = some '>' := by
  generalize hk : TypeKind.arguments any = k at h
  induction h generalizing any with
  | argument => simp [List.getLast?_append]
  | furtherArguments _ _ _ _ _ ih => simp [List.getLast?_append, List.getLast?_cons, ih rfl]
  | noArgument => simp [List.getLast?_append]
  | _ => cases hk

theorem TypeText.apart_arguments {any : Bool} {ts : Text} (h : TypeText (.arguments any) ts)
    (rest : Text) : Apart ts rest := by
  intro c hc hpath
  obtain rfl : '>' = c := by simpa [h.getLast?_arguments] using hc
  exact absurd hpath (by decide)

/-- A word stays apart from the type behind it, whatever is behind the type. -/
theorem TypeText.stops_append {k : TypeKind} {t : Text} (h : TypeText k t) (hdefault : k ≠ .default)
    (hbounded : k ≠ .bounded) {p : Char → Bool} {gap : Text} (hstop : Stops p (gap ++ t))
    (rest : Text) : Stops p (gap ++ (t ++ rest)) := by
  have hne : gap ++ t ≠ [] := by simp [h.ne_nil hdefault hbounded]
  rw [← List.append_assoc]
  exact stops_append_of_ne_nil hstop hne rest

end LivePreview.Script
