/-
Declared type parameters, and lists that could be either.

Behind the name of a function the eraser first looks for a list of types and only then
for declared parameters.  A printed list of parameters may well be read as a list of
types, where no parameter has a bound or a default; then it is the same piece of text.
Where one has, the list of types breaks off at that parameter, and the second reader is
asked.  So either way the list is read to its closing bracket.
-/
import LivePreview.Proofs.Script.TypeSyntax

namespace LivePreview.Script

open Text (Stops)

/-! ### Parameters and their texts -/

/-- A declared type parameter. -/
structure TypeParameter where
  name : Name
  bound : Option TypeExpr := none
  default : Option TypeExpr := none

namespace TypeParameter

/-- The text of the bound. -/
def boundText (p : TypeParameter) : Text :=
  match p.bound with
  | some t => " extends ".toList ++ t.text
  | none => []

/-- The text of the default. -/
def defaultText (p : TypeParameter) : Text :=
  match p.default with
  | some t => " = ".toList ++ t.text
  | none => []

/-- The text of a declared parameter. -/
def text (p : TypeParameter) : Text := p.name.text ++ (p.boundText ++ p.defaultText)

/-- The text of declared parameters, between angle brackets. -/
def listText (ps : List TypeParameter) : Text := '<' :: commaSeparated (ps.map text) ++ ['>']

/-- The text of a list of declared parameters goes on behind one of them. -/
def Closes (s : Text) : Prop := Stops (fun c => !(c == ',' || c == '>')) s ∧ s ≠ []

theorem closes_comma (s : Text) : Closes (',' :: s) := by simp [Closes]

theorem closes_angle (s : Text) : Closes ('>' :: s) := by simp [Closes]

variable {behind : Text}

theorem Closes.cases {s : Text} (h : Closes s) : (∃ t, s = ',' :: t) ∨ ∃ t, s = '>' :: t := by
  obtain ⟨hstop, hne⟩ := h
  cases s with
  | nil => exact absurd rfl hne
  | cons c s =>
    rw [Text.stops_cons] at hstop
    simp only [Bool.not_eq_false', Bool.or_eq_true, beq_iff_eq] at hstop
    rcases hstop with rfl | rfl
    · exact Or.inl ⟨s, rfl⟩
    · exact Or.inr ⟨s, rfl⟩

theorem Closes.endsType (h : Closes behind) : EndsType behind := by
  obtain ⟨s, rfl⟩ | ⟨s, rfl⟩ := h.cases <;> exact endsType_sign (by decide) (by decide)

theorem Closes.skipBlanks (h : Closes behind) : Text.skipBlanks behind = behind := by
  obtain ⟨s, rfl⟩ | ⟨s, rfl⟩ := h.cases <;> exact Text.skipBlanks_cons (by decide)

theorem Closes.stops_identChar (h : Closes behind) : Stops isIdentChar behind := by
  obtain ⟨s, rfl⟩ | ⟨s, rfl⟩ := h.cases <;> exact Text.stops_cons.mpr (by decide)

/-- Behind a bound or a name stands a default or what closes the parameter. -/
theorem endsType_defaultText (p : TypeParameter) (h : Closes behind) :
    EndsType (p.defaultText ++ behind) := by
  unfold defaultText
  split
  · exact Text.stops_cons.mpr (by decide)
  · exact h.endsType

theorem stops_tail (p : TypeParameter) (h : Closes behind) :
    Stops isIdentChar (p.boundText ++ (p.defaultText ++ behind)) := by
  unfold boundText defaultText
  split
  · exact Text.stops_cons.mpr (by decide)
  · split
    · exact Text.stops_cons.mpr (by decide)
    · exact h.stops_identChar

theorem defaultRest?_text (p : TypeParameter) (h : Closes behind) :
    defaultRest? rest? (Text.skipBlanks (p.defaultText ++ behind)) = some behind := by
  unfold defaultText
  split
  · rename_i t ht
    have hpass : Text.skipBlanks (" = ".toList ++ t.text ++ behind)
        = '=' :: ' ' :: (t.text ++ behind) := by
      simp [Text.skipBlanks_cons (show isBlank '=' = false by decide)]
    rw [hpass]
    simp only [defaultRest?, rest?_whole_space, t.rest?_whole_text h.endsType, Option.map_some,
      h.skipBlanks]
    rfl
  · rw [List.nil_append, h.skipBlanks]
    obtain ⟨s, rfl⟩ | ⟨s, rfl⟩ := h.cases <;> rfl

theorem isWord_extends : IsWord "extends".toList := isWord_of_all (by decide) (by decide)

/-- The keyword in front of a bound is found. -/
theorem afterKeyword?_extends {s : Text} (h : Stops isIdentChar s) :
    afterKeyword? "extends".toList ("extends".toList ++ s) = some s := by
  rw [afterKeyword?, if_pos (isWord_extends.word?_append h), isWord_extends.skipIdent_append h]

/-- The text of a bound, without the blank in front of it. -/
theorem skipBlanks_extends (s : Text) :
    Text.skipBlanks (" extends ".toList ++ s) = "extends".toList ++ ' ' :: s := by
  simp [Text.skipBlanks_cons (show isBlank 'e' = false by decide)]

theorem boundRest?_text (p : TypeParameter) (h : Closes behind) :
    boundRest? rest? (Text.skipBlanks (p.boundText ++ (p.defaultText ++ behind)))
      = some (Text.skipBlanks (p.defaultText ++ behind)) := by
  have hend := p.endsType_defaultText h
  unfold boundText
  split
  · rename_i t ht
    rw [List.append_assoc, skipBlanks_extends, boundRest?,
      afterKeyword?_extends (Text.stops_cons.mpr (by decide))]
    simp only [rest?_whole_space, t.rest?_whole_text hend, Option.map_some]
  · have hword : Stops isIdentStart (Text.skipBlanks (p.defaultText ++ behind)) :=
      Text.stops_mono (fun c hc => by simp [continuesType, isIdentChar_of_start hc]) hend
    rw [List.nil_append, boundRest?, afterKeyword?_of_stops hword]

/-- No modifier stands in front of a name. -/
theorem skipModifiers_name (x : Name) {rest : Text} (h : Stops isIdentChar rest) :
    parameterModifiers.foldl skipModifier (x.text ++ rest) = x.text ++ rest := by
  have hskip : ∀ w : String, isReserved w.toList || contextualWords.contains w.toList →
      skipModifier (x.text ++ rest) w.toList = x.text ++ rest := by
    intro w hw
    have hne : ¬some x.text = some w.toList := by simpa using x.ne_of_special hw
    rw [skipModifier, afterKeyword?, x.isWord.word?_append h, if_neg hne]
  simp only [parameterModifiers, List.map_cons, List.map_nil, List.foldl_cons, List.foldl_nil,
    hskip "const" (by decide), hskip "in" (by decide), hskip "out" (by decide)]

theorem rest?_parameters_eq (p : TypeParameter) (any : Bool) (h : Closes behind) :
    rest? (.parameters any) (p.text ++ behind) = listRest? rest? (.parameters true) behind := by
  have htext : p.text ++ behind = p.name.text ++ (p.boundText ++ (p.defaultText ++ behind)) := by
    simp [text]
  have hstop := p.stops_tail h
  have hpass : Text.skipBlanks (p.name.text ++ (p.boundText ++ (p.defaultText ++ behind)))
      = p.name.text ++ (p.boundText ++ (p.defaultText ++ behind)) :=
    Text.skipBlanks_of_stops p.name.isWord.stops_isBlank
  have hopen : startsWithChar '>' (p.name.text ++ (p.boundText ++ (p.defaultText ++ behind)))
      = false := by
    obtain ⟨c, s, hs, hc⟩ := p.name.isWord.head
    have hne : c ≠ '>' := by
      rintro rfl
      exact absurd hc (by decide)
    simp [hs, startsWithChar, hne]
  rw [htext, rest?_eq]
  simp only [formRest?, parametersRest?, hpass, hopen, Bool.and_false, Bool.false_eq_true, if_false,
    skipModifiers_name p.name hstop, p.name.isWord.startsIdent, Bool.not_true,
    p.name.isWord.skipIdent_append hstop, p.boundRest?_text h, Option.bind_some,
    p.defaultRest?_text h]

theorem rest?_parameters_text (ps : List TypeParameter) (hne : ps ≠ []) (any : Bool)
    (rest : Text) :
    rest? (.parameters any) (commaSeparated (ps.map text) ++ '>' :: rest) = some rest := by
  induction ps generalizing any with
  | nil => exact absurd rfl hne
  | cons p ps ih =>
    cases ps with
    | nil =>
      rw [List.map_singleton, commaSeparated_singleton, p.rest?_parameters_eq any (closes_angle _),
        listRest?]
    | cons q qs =>
      have htext : commaSeparated ((p :: q :: qs).map text) ++ '>' :: rest
          = p.text ++ (',' :: ' ' :: (commaSeparated ((q :: qs).map text) ++ '>' :: rest)) := by
        simp [commaSeparated_cons_cons]
      rw [htext, p.rest?_parameters_eq any (closes_comma _), listRest?, rest?_parameters_space]
      exact ih (by simp) true

/-! ### Parameters read as types -/

/-- A parameter without bound and default is also a type. -/
def isType (p : TypeParameter) : Bool := p.bound.isNone && p.default.isNone

/-- The name of a parameter, read as a type. -/
def asType (p : TypeParameter) : TypeExpr := .named ⟨p.name, []⟩ []

theorem asType_text (p : TypeParameter) : p.asType.text = p.name.text := by
  simp [asType, TypeExpr.text, DottedName.text, dotted]

theorem text_of_isType {p : TypeParameter} (h : p.isType = true) : p.text = p.asType.text := by
  simp only [isType, Bool.and_eq_true, Option.isNone_iff_eq_none] at h
  simp [text, boundText, defaultText, h, asType_text]

/-- In front of a bound, a type ends with the name: what follows is no conditional type. -/
theorem rest?_whole_bound {x : TypeExpr} {t : TypeExpr} {behind : Text} (hend : EndsType behind)
    (hmark : Stops (· == '?') (Text.skipBlanks behind)) :
    rest? .whole (x.text ++ (" extends ".toList ++ (t.text ++ behind)))
      = some (" extends ".toList ++ (t.text ++ behind)) := by
  have hpass := skipBlanks_extends (t.text ++ behind)
  have hname : EndsName (" extends ".toList ++ (t.text ++ behind)) := by
    refine ⟨Text.stops_cons.mpr (by decide), ?_⟩
    have hword : word? ("extends".toList ++ ' ' :: (t.text ++ behind)) = some "extends".toList :=
      isWord_extends.word?_append (Text.stops_cons.mpr (by decide))
    have hskip : Text.skipInline (" extends ".toList ++ (t.text ++ behind))
        = "extends".toList ++ ' ' :: (t.text ++ behind) := rfl
    rw [hskip, afterKeyword?, hword]
    exact if_neg (by decide)
  have hunion : rest? (.joined .union) (x.text ++ (" extends ".toList ++ (t.text ++ behind)))
      = some (" extends ".toList ++ (t.text ++ behind)) := by
    rw [rest?_union_of_operand (x.rest?_operand_text hname)]
    refine afterOperand?_of_stops rfl fun j => ?_
    rw [hpass]
    cases j <;> exact Text.stops_cons.mpr (by decide)
  have hbound : rest? (.joined .union) (' ' :: (t.text ++ behind)) = some behind := by
    rw [rest?_joined_space, rest?_union_of_operand (t.rest?_operand_text hend.endsName),
      afterOperand?_of_endsType hend]
  rw [rest?_eq, formRest?, wholeRest?, hunion]
  simp only [hpass, afterKeyword?_extends (Text.stops_cons.mpr (show isIdentChar ' ' = false by
    decide)), Option.bind_some, hbound]
  split
  · rename_i heq
    rw [heq] at hmark
    exact absurd hmark (by simp)
  · rfl

/-- A parameter that is no type breaks a list of types off. -/
theorem rest?_arguments_eq (p : TypeParameter) (any : Bool) (h : Closes behind) :
    rest? (.arguments any) (p.text ++ behind)
      = if p.isType then listRest? rest? (.arguments true) behind else none := by
  by_cases hp : p.isType = true
  · rw [if_pos hp, text_of_isType hp, p.asType.rest?_arguments_eq,
      p.asType.rest?_whole_text h.endsType, Option.bind_some, h.skipBlanks]
  · have htext : p.text ++ behind
        = p.asType.text ++ (p.boundText ++ (p.defaultText ++ behind)) := by
      simp [text, asType_text]
    rw [if_neg hp, htext, p.asType.rest?_arguments_eq]
    have hend := p.endsType_defaultText h
    have hmark : Stops (· == '?') (Text.skipBlanks (p.defaultText ++ behind)) := by
      unfold defaultText
      split
      · exact Text.stops_cons.mpr (by decide)
      · rw [List.nil_append, h.skipBlanks]
        obtain ⟨s, rfl⟩ | ⟨s, rfl⟩ := h.cases <;> exact Text.stops_cons.mpr (by decide)
    cases hbound : p.bound with
    | some t =>
      have htext : p.boundText ++ (p.defaultText ++ behind)
          = " extends ".toList ++ (t.text ++ (p.defaultText ++ behind)) := by
        rw [boundText, hbound, List.append_assoc]
      rw [htext, rest?_whole_bound hend hmark, Option.bind_some, skipBlanks_extends]
      rfl
    | none =>
      cases hdefault : p.default with
      | none => exact absurd (by simp [isType, hbound, hdefault]) hp
      | some t =>
        have htext : p.boundText ++ (p.defaultText ++ behind)
            = " = ".toList ++ (t.text ++ behind) := by
          simp [boundText, defaultText, hbound, hdefault]
        have hstop : EndsType (" = ".toList ++ (t.text ++ behind)) :=
          Text.stops_cons.mpr (by decide)
        rw [htext, p.asType.rest?_whole_text hstop]
        rfl

/-- Read as a list of types, printed parameters are read to their end or not at all. -/
theorem rest?_arguments_text (ps : List TypeParameter) (hne : ps ≠ []) (any : Bool)
    (rest : Text) :
    rest? (.arguments any) (commaSeparated (ps.map text) ++ '>' :: rest)
      = if ps.all isType then some rest else none := by
  induction ps generalizing any with
  | nil => exact absurd rfl hne
  | cons p ps ih =>
    cases ps with
    | nil =>
      rw [List.map_singleton, commaSeparated_singleton, p.rest?_arguments_eq any (closes_angle _)]
      simp [listRest?]
    | cons q qs =>
      have htext : commaSeparated ((p :: q :: qs).map text) ++ '>' :: rest
          = p.text ++ (',' :: ' ' :: (commaSeparated ((q :: qs).map text) ++ '>' :: rest)) := by
        simp [commaSeparated_cons_cons]
      rw [htext, p.rest?_arguments_eq any (closes_comma _), listRest?, Script.rest?_arguments_space,
        ih (by simp) true]
      by_cases hp : p.isType = true
      · simp [hp]
      · simp [hp]

/-- **Declared parameters are read to their closing bracket**, whichever list is looked for
first. -/
theorem arguments_or_parameters_listText (ps : List TypeParameter) (hne : ps ≠ [])
    (rest : Text) :
    (afterTypeArguments? (listText ps ++ rest)).or (afterTypeParameters? (listText ps ++ rest))
      = some rest := by
  have htext : listText ps ++ rest = '<' :: (commaSeparated (ps.map text) ++ '>' :: rest) := by
    simp [listText]
  rw [htext, afterTypeArguments?_cons, afterTypeParameters?_cons,
    rest?_arguments_text ps hne false rest, rest?_parameters_text ps hne false rest]
  by_cases h : ps.all isType = true
  · rw [if_pos h, Option.some_or]
  · rw [if_neg h, Option.none_or]

end TypeParameter

end LivePreview.Script
