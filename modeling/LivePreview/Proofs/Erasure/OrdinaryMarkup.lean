/-
Markup that cannot be mistaken for type parameters.

Between the brackets of type parameters a name stands first, which a modifier may precede,
and then a bound, a default, a comma or the closing bracket.  Behind the name of a tag stands
a blank, a slash or the closing bracket, and behind a blank the name of an attribute.  So the
reader of parameters gives up at once, or it takes the whole tag for one parameter, and
then round brackets have to follow.  The exceptions are the tag `out`, which is a modifier
too, and the attribute `extends`.
-/
import LivePreview.Proofs.Erasure.MarkupErasure

namespace LivePreview.Script

open Text (Stops)

/-! ### Words in front of more text -/

variable {s t : Text}

theorem word?_append_of_stops (hs : startsIdent s = true) (ht : Stops isIdentChar t) :
    word? (s ++ t) = word? s := by
  cases s with
  | nil => exact absurd hs (by decide)
  | cons c s =>
    have hident : ident (c :: s ++ t) = ident (c :: s) := by
      simp only [List.cons_append, ident, Text.takeWhile_append_of_stops ht]
    rw [word?, hident, word?]

theorem skipIdent_append_of_stops (hs : startsIdent s = true) (ht : Stops isIdentChar t) :
    skipIdent (s ++ t) = skipIdent s ++ t := by
  cases s with
  | nil => exact absurd hs (by decide)
  | cons c s =>
    have hc : isIdentStart c = true := hs
    simp only [List.cons_append, skipIdent, hc, if_true, Text.dropWhile_append_of_stops ht]

end LivePreview.Script

namespace LivePreview.Erasure

open Script Eraser
open Text (Stops)

/-! ### Ordinary markup -/

mutual

/-- No tag is `out`, the name of no attribute starts with the word `extends`, and what is in
an element does not start with a round bracket. -/
def Markup.Ordinary : Markup → Prop
  | .element tag attributes content =>
    tag.text ≠ "out".toList ∧ attributes.Ordinary ∧
      Stops (· == '(') (Text.skipBlanks (wholeText content.pieces)) ∧ content.Ordinary
  | .void tag attributes => tag.text ≠ "out".toList ∧ attributes.Ordinary
  | .fragment content => content.Ordinary

/-- The same of markup in attributes, and of the attributes. -/
def Attributes.Ordinary : Attributes → Prop
  | .done => True
  | .bare name others => word? name.text ≠ some "extends".toList ∧ others.Ordinary
  | .quoted name _ others => word? name.text ≠ some "extends".toList ∧ others.Ordinary
  | .braced name value others =>
    word? name.text ≠ some "extends".toList ∧ value.Ordinary ∧ others.Ordinary

/-- The same of markup between tags. -/
def Content.Ordinary : Content → Prop
  | .done => True
  | .text _ others => others.Ordinary
  | .braced value others => value.Ordinary ∧ others.Ordinary
  | .child m others => m.Ordinary ∧ others.Ordinary

/-- The same of inserted markup. -/
def Insert.Ordinary : Insert → Prop
  | .name _ _ => True
  | .string _ _ => True
  | .markup m _ => m.Ordinary

end

/-! ### Reading a tag as a parameter -/

section

variable {s rest : Text}

theorem TagName.startsIdent (tag : TagName) (s : Text) : startsIdent (tag.text ++ s) = true := by
  have hstarts := tag.starts
  cases htag : tag.text with
  | nil =>
    rw [htag] at hstarts
    exact absurd hstarts (by decide)
  | cons c w =>
    rw [htag] at hstarts
    have hc : isAsciiLetter c = true := hstarts
    show isIdentStart c = true
    simp [isIdentStart, hc]

theorem stops_isBlank_of_startsIdent (h : startsIdent s = true) : Stops isBlank s := by
  cases s with
  | nil => exact Text.stops_nil _
  | cons c s => exact Text.stops_cons.mpr (isBlank_eq_false_of_identChar (isIdentChar_of_start h))

/-- What stands behind the word that a tag starts with belongs to its name and is no part of a
word, unless the name is that word. -/
theorem TagName.skipIdent_cases (tag : TagName) :
    word? tag.text = some tag.text ∧ skipIdent tag.text = [] ∨
      ∃ c t, skipIdent tag.text = c :: t ∧ (c = '.' ∨ c = ':' ∨ c = '-') := by
  have hstarts := tag.startsIdent []
  rw [List.append_nil] at hstarts
  cases htag : tag.text with
  | nil =>
    rw [htag] at hstarts
    exact absurd hstarts (by decide)
  | cons d w =>
    rw [htag] at hstarts
    have hd : isIdentStart d = true := hstarts
    have hskip : skipIdent (d :: w) = w.dropWhile isIdentChar := by simp [skipIdent, hd]
    rw [hskip]
    cases hrest : w.dropWhile isIdentChar with
    | nil =>
      left
      have hall : ∀ c ∈ w, isIdentChar c = true := List.dropWhile_eq_nil_iff.mp hrest
      have hword : IsWord (d :: w) := ⟨hd, hall⟩
      have happend : word? (d :: w ++ []) = some (d :: w) := hword.word?_append (Text.stops_nil _)
      rw [List.append_nil] at happend
      exact ⟨happend, rfl⟩
    | cons c t =>
      right
      refine ⟨c, t, rfl, ?_⟩
      have hstop := Text.stops_dropWhile isIdentChar w
      rw [hrest, Text.stops_cons] at hstop
      have hmem : c ∈ tag.text := by
        rw [htag]
        refine List.mem_cons_of_mem _ ?_
        have : c ∈ w.dropWhile isIdentChar := by simp [hrest]
        exact (List.dropWhile_sublist _).subset this
      have hname := List.all_eq_true.mp tag.isName c hmem
      simp only [isTagNameChar, hstop, Bool.false_or, Bool.or_eq_true, beq_iff_eq] at hname
      tauto

/-- A word in front of a name is no modifier unless it is the whole name. -/
theorem TagName.skipModifier_eq (tag : TagName) {w : Text} (hne : tag.text ≠ w)
    (hs : Stops isIdentChar s) : skipModifier (tag.text ++ s) w = tag.text ++ s := by
  have hstarts := tag.startsIdent []
  rw [List.append_nil] at hstarts
  rw [skipModifier, afterKeyword?, word?_append_of_stops hstarts hs,
    skipIdent_append_of_stops hstarts hs]
  obtain ⟨hword, -⟩ | ⟨c, t, hskip, hc⟩ := tag.skipIdent_cases
  · have hkeyword : ¬word? tag.text = some w := by simpa [hword] using hne
    rw [if_neg hkeyword]
  · by_cases hkeyword : word? tag.text = some w
    · have hblank : isBlank c = false := by rcases hc with rfl | rfl | rfl <;> decide
      have hident : isIdentStart c = false := by rcases hc with rfl | rfl | rfl <;> decide
      rw [if_pos hkeyword, hskip]
      simp [Text.skipBlanks_cons hblank, Script.startsIdent, hident]
    · rw [if_neg hkeyword]

theorem TagName.skipModifiers_eq (tag : TagName) (hout : tag.text ≠ "out".toList)
    (hs : Stops isIdentChar s) :
    parameterModifiers.foldl skipModifier (tag.text ++ s) = tag.text ++ s := by
  have hne : ∀ w, isReserved w = true → tag.text ≠ w := by
    rintro w hw rfl
    rw [tag.not_reserved] at hw
    exact Bool.noConfusion hw
  simp only [parameterModifiers, List.map_cons, List.map_nil, List.foldl_cons, List.foldl_nil,
    tag.skipModifier_eq (hne "const".toList (by decide)) hs,
    tag.skipModifier_eq (hne "in".toList (by decide)) hs, tag.skipModifier_eq hout hs]

/-- What a list of parameters goes on with behind a name where there is no bound and no
default. -/
theorem parameter_rest {c : Char} (hkeyword : afterKeyword? "extends".toList (c :: s) = none)
    (hdefault : c ≠ '=') :
    ((boundRest? rest? (c :: s)).bind (defaultRest? rest?)).bind
        (listRest? rest? (.parameters true))
      = listRest? rest? (.parameters true) (c :: s) := by
  have hrest : defaultRest? rest? (c :: s) = some (c :: s) := by
    unfold defaultRest?
    split
    · rename_i heq
      exact absurd (List.cons.inj heq).1 hdefault
    · rfl
  rw [boundRest?, hkeyword, Option.bind_some, hrest, Option.bind_some]

theorem listRest?_eq_none {c : Char} (hcomma : c ≠ ',') (hclose : c ≠ '>') :
    listRest? rest? (.parameters true) (c :: s) = none := by
  unfold listRest?
  split
  · rename_i heq
    exact absurd (List.cons.inj heq).1 hcomma
  · rename_i heq
    exact absurd (List.cons.inj heq).1 hclose
  · rfl

/-- What stands behind the name of a tag is the end of the tag, or a blank and the name of an
attribute. -/
theorem Attributes.text_cases (a : Attributes) (ha : a.Ordinary) {close : Char}
    (hclose : close = '>' ∨ close = '/') :
    wholeText a.pieces ++ close :: s = close :: s ∨
      ∃ (name : AttributeName) (t : Text), wholeText a.pieces ++ close :: s = ' ' :: (name.text ++ t)
        ∧ word? name.text ≠ some "extends".toList ∧ Stops isIdentChar t := by
  have hbare : ∀ others : Attributes, Stops isIdentChar (wholeText others.pieces ++ close :: s) := by
    intro others
    have hstop : isIdentChar close = false := by rcases hclose with rfl | rfl <;> decide
    cases others with
    | done => exact Text.stops_cons.mpr hstop
    | bare name others => exact Text.stops_cons.mpr (by decide)
    | quoted name value others => exact Text.stops_cons.mpr (by decide)
    | braced name value others => exact Text.stops_cons.mpr (by decide)
  cases a with
  | done => exact Or.inl rfl
  | bare name others =>
    exact Or.inr ⟨name, _, by simp [Attributes.pieces], ha.1, hbare others⟩
  | quoted name value others =>
    exact Or.inr ⟨name, '=' :: (value.text ++ (wholeText others.pieces ++ close :: s)),
      by simp [Attributes.pieces], ha.1, Text.stops_cons.mpr (by decide)⟩
  | braced name value others =>
    exact Or.inr ⟨name, '=' :: '{' :: (wholeText value.pieces ++
      '\x7d' :: (wholeText others.pieces ++ close :: s)), by simp [Attributes.pieces], ha.1,
      Text.stops_cons.mpr (by decide)⟩

/-- Read as type parameters, a tag is one parameter up to its closing bracket or nothing. -/
theorem TagName.rest?_parameters (tag : TagName) (hout : tag.text ≠ "out".toList)
    {a : Attributes} (ha : a.Ordinary) {close : Char} (hclose : close = '>' ∨ close = '/')
    {r : Text} (h : rest? (.parameters false) (tag.text ++ (wholeText a.pieces ++ close :: s))
      = some r) : close = '>' ∧ r = s := by
  have hstop : Stops isIdentChar (wholeText a.pieces ++ close :: s) := by
    obtain hend | ⟨name, t, htext, -⟩ := a.text_cases (s := s) ha hclose
    · rw [hend]
      rcases hclose with rfl | rfl <;> exact Text.stops_cons.mpr (by decide)
    · rw [htext]
      exact Text.stops_cons.mpr (by decide)
  have hstarts := tag.startsIdent []
  rw [List.append_nil] at hstarts
  have hpass := Text.skipBlanks_of_stops (stops_isBlank_of_startsIdent
    (tag.startsIdent (wholeText a.pieces ++ close :: s)))
  rw [rest?_eq] at h
  simp only [formRest?, parametersRest?, hpass, Bool.false_and, Bool.false_eq_true, if_false,
    tag.skipModifiers_eq hout hstop, tag.startsIdent, Bool.not_true,
    skipIdent_append_of_stops hstarts hstop] at h
  obtain ⟨-, hskip⟩ | ⟨c, t, hskip, hc⟩ := tag.skipIdent_cases
  · rw [hskip, List.nil_append] at h
    obtain hend | ⟨name, t, htext, hextends, ht⟩ := a.text_cases (s := s) ha hclose
    · rw [hend] at h
      rcases hclose with rfl | rfl
      · rw [Text.skipBlanks_cons (by decide), parameter_rest
          (afterKeyword?_of_stops (Text.stops_cons.mpr (by decide))) (by decide)] at h
        exact ⟨rfl, (Option.some.inj h).symm⟩
      · rw [Text.skipBlanks_cons (by decide), parameter_rest
          (afterKeyword?_of_stops (Text.stops_cons.mpr (by decide))) (by decide),
          listRest?_eq_none (by decide) (by decide)] at h
        cases h
    · obtain ⟨d, w, hname⟩ : ∃ d w, name.text = d :: w := by
        cases hname : name.text with
        | nil =>
          have hnil := name.starts
          rw [hname] at hnil
          exact absurd hnil (by decide)
        | cons d w => exact ⟨d, w, rfl⟩
      have hd : isIdentStart d = true := by
        have hd := name.starts
        rw [hname] at hd
        exact hd
      have hne : ∀ c, isIdentStart c = false → d ≠ c := by
        rintro c hc rfl
        rw [hd] at hc
        exact Bool.noConfusion hc
      have hkeyword : afterKeyword? "extends".toList (name.text ++ t) = none := by
        rw [afterKeyword?, word?_append_of_stops name.starts ht, if_neg hextends]
      rw [hname, List.cons_append] at hkeyword
      rw [htext, Text.skipBlanks_space, hname, List.cons_append,
        Text.skipBlanks_cons (isBlank_eq_false_of_identChar (isIdentChar_of_start hd)),
        parameter_rest hkeyword (hne '=' (by decide)),
        listRest?_eq_none (hne ',' (by decide)) (hne '>' (by decide))] at h
      cases h
  · have hblank : isBlank c = false := by rcases hc with rfl | rfl | rfl <;> decide
    have hword : isIdentStart c = false := by rcases hc with rfl | rfl | rfl <;> decide
    have hne : c ≠ '=' ∧ c ≠ ',' ∧ c ≠ '>' := by rcases hc with rfl | rfl | rfl <;> decide
    rw [hskip, List.cons_append, Text.skipBlanks_cons hblank,
      parameter_rest (afterKeyword?_of_stops (Text.stops_cons.mpr hword)) hne.1,
      listRest?_eq_none hne.2.1 hne.2.2] at h
    cases h

theorem stops_skipBlanks_append {p : Char → Bool} (hs : Stops p (Text.skipBlanks s))
    (ht : Stops p (Text.skipBlanks rest)) : Stops p (Text.skipBlanks (s ++ rest)) := by
  rw [Text.skipBlanks, List.dropWhile_append]
  split
  · exact ht
  · rename_i hne
    have hs : Stops p (s.dropWhile isBlank) := hs
    cases hdrop : s.dropWhile isBlank with
    | nil => exact absurd (by rw [hdrop]; rfl) hne
    | cons c t =>
      rw [hdrop] at hs
      exact Text.stops_cons.mpr (Text.stops_cons.mp hs)

/-- **Ordinary markup is not read as the type parameters of an arrow function.** -/
theorem Markup.afterArrowParameters?_eq_none (m : Markup) (h : m.Ordinary) (rest : Text) :
    afterArrowParameters? (m.text ++ rest) = none := by
  cases m with
  | element tag attributes content =>
    obtain ⟨hout, hattributes, hround, -⟩ := h
    have htext : (Markup.element tag attributes content).text ++ rest
        = '<' :: (tag.text ++ (wholeText attributes.pieces ++
          '>' :: (wholeText content.pieces ++ (closingTag tag.text ++ rest)))) := by
      simp [Markup.text, Markup.pieces]
    rw [htext]
    cases hread : afterTypeParameters? ('<' :: (tag.text ++ (wholeText attributes.pieces ++
        '>' :: (wholeText content.pieces ++ (closingTag tag.text ++ rest))))) with
    | none => rw [afterArrowParameters?, hread, Option.filter_none]
    | some r =>
      have hr := (tag.rest?_parameters hout hattributes (Or.inl rfl) hread).2
      have hstop : Stops (· == '(') (Text.skipBlanks r) := by
        rw [hr]
        refine stops_skipBlanks_append hround ?_
        rw [closingTag]
        exact Text.stops_cons.mpr (by decide)
      have hopen : startsWithChar '(' (Text.skipBlanks r) = false := by
        unfold startsWithChar
        cases hhead : (Text.skipBlanks r).head? with
        | none => rfl
        | some c => simpa using hstop c hhead
      rw [afterArrowParameters?, hread]
      simp [hopen]
  | void tag attributes =>
    obtain ⟨hout, hattributes⟩ := h
    have htext : (Markup.void tag attributes).text ++ rest
        = '<' :: (tag.text ++ (wholeText attributes.pieces ++ '/' :: '>' :: rest)) := by
      simp [Markup.text, Markup.pieces]
    rw [htext]
    cases hread : afterTypeParameters? ('<' :: (tag.text ++ (wholeText attributes.pieces ++
        '/' :: '>' :: rest))) with
    | none => rw [afterArrowParameters?, hread, Option.filter_none]
    | some r =>
      exact absurd (tag.rest?_parameters hout hattributes (Or.inr rfl) hread).1 (by decide)
  | fragment content =>
    have htext : (Markup.fragment content).text ++ rest
        = '<' :: '>' :: (wholeText content.pieces ++ (closingTag [] ++ rest)) := by
      simp [Markup.text, Markup.pieces]
    rw [htext, afterArrowParameters?, afterTypeParameters?_cons, rest?_eq]
    rfl

end

mutual

theorem Markup.insertsReadAsMarkup_of_ordinary :
    (m : Markup) → m.Ordinary → ∀ rest, m.InsertsReadAsMarkup rest
  | .element _ attributes content, h, _ =>
    ⟨attributes.readAsMarkup_of_ordinary h.2.1 _, content.readsAsMarkup_of_ordinary h.2.2.2 _⟩
  | .void _ attributes, h, _ => attributes.readAsMarkup_of_ordinary h.2 _
  | .fragment content, h, _ => content.readsAsMarkup_of_ordinary h _

theorem Attributes.readAsMarkup_of_ordinary :
    (a : Attributes) → a.Ordinary → ∀ rest, a.ReadAsMarkup rest
  | .done, _, _ => trivial
  | .bare _ others, h, rest => others.readAsMarkup_of_ordinary h.2 rest
  | .quoted _ _ others, h, rest => others.readAsMarkup_of_ordinary h.2 rest
  | .braced _ value others, h, rest =>
    ⟨value.readsAsMarkup_of_ordinary h.2.1 _, others.readAsMarkup_of_ordinary h.2.2 rest⟩

theorem Content.readsAsMarkup_of_ordinary :
    (c : Content) → c.Ordinary → ∀ rest, c.ReadsAsMarkup rest
  | .done, _, _ => trivial
  | .text _ others, h, rest => others.readsAsMarkup_of_ordinary h rest
  | .braced value others, h, rest =>
    ⟨value.readsAsMarkup_of_ordinary h.1 _, others.readsAsMarkup_of_ordinary h.2 rest⟩
  | .child m others, h, rest =>
    ⟨m.insertsReadAsMarkup_of_ordinary h.1 _, others.readsAsMarkup_of_ordinary h.2 rest⟩

theorem Insert.readsAsMarkup_of_ordinary :
    (i : Insert) → i.Ordinary → ∀ rest, i.ReadsAsMarkup rest
  | .name _ _, _, _ => trivial
  | .string _ _, _, _ => trivial
  | .markup m _, h, _ =>
    ⟨m.afterArrowParameters?_eq_none h _, m.insertsReadAsMarkup_of_ordinary h _⟩

end

/-- **Markup is never corrupted unless it can be mistaken for type parameters.**  Its
assertions and nothing else are removed, if and only if none of its parts that stand as
expressions can be read as the type parameters of an arrow function; and ordinary markup
cannot. -/
theorem Markup.eraseTypes_text (m : Markup) :
    (eraseTypes m.text = .ok ⟨m.untyped.text, ⟨List.replicate m.assertions .asAssertion⟩⟩
      ↔ m.ReadsAsMarkup []) ∧ (m.Ordinary → m.ReadsAsMarkup []) :=
  ⟨m.eraseTypes_eq_iff, fun h =>
    ⟨m.afterArrowParameters?_eq_none h [], m.insertsReadAsMarkup_of_ordinary h []⟩⟩

/-- An assertion in a paragraph. -/
theorem Markup.eraseTypes_paragraph :
    eraseTypes "<p id>\x7bx as T\x7d</p>".toList
      = .ok ⟨"<p id>\x7bx\x7d</p>".toList, ⟨[.asAssertion]⟩⟩ := by
  let x : Name := ⟨['x'], by decide, by decide⟩
  let T : TypeExpr := .named ⟨⟨['T'], by decide, by decide⟩, []⟩ []
  let m : Markup := .element ⟨['p'], by decide, by decide, by decide⟩
    (.bare ⟨['i', 'd'], by decide, by decide⟩ .done) (.braced (.name x (some T)) .done)
  have hordinary : m.Ordinary :=
    ⟨by decide, ⟨by decide, trivial⟩, Text.stops_cons.mpr (by decide), trivial, trivial⟩
  exact m.eraseTypes_text.1.mpr (m.eraseTypes_text.2 hordinary)

end LivePreview.Erasure
