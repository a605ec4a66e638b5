/-
Every type of the grammar is read to its end.

The reader chooses a form by the first character or word, and goes on as long as the text allows it.
So each form has its lemma here, first for what starts with a word or a sign, and then for what is
made of other types: if those are read to their ends, wherever nothing follows that they could go on
with, then so is the form.  The induction over the grammar puts them together.
-/
import LivePreview.Proofs.Script.TypeGrammar

namespace LivePreview.Script

open Text (Stops)

/-! ### Types that start with a word -/

namespace TypePath

variable (p : TypePath) {rest : Text}

theorem text_append (rest : Text) : p.text ++ rest = p.first ++ (dottedWords p.further ++ rest) :=
  List.append_assoc ..

theorem startsIdent : startsIdent (p.text ++ rest) = true := by
  rw [p.text_append]
  exact p.first_isWord.startsIdent

theorem dottedRest_text (hrest : Stops isPathChar rest) :
    dottedRest (p.text ++ rest).length (p.text ++ rest) = rest := by
  have hlength : p.further.length < (p.text ++ rest).length := by
    have h₁ := length_le_dottedWords p.further
    have h₂ := List.length_pos_iff.mpr p.first_isWord.ne_nil
    rw [p.text_append]
    simp only [List.length_append]
    omega
  generalize (p.text ++ rest).length = n at hlength
  rw [p.text_append]
  have hdot : Stops (· == '.') rest :=
    Text.stops_mono (fun c hc => by simp [isPathChar, show c = '.' by simpa using hc]) hrest
  exact dottedRest_words p.first_isWord p.further_isWord (stops_isIdentChar hrest) hdot hlength

/-- A path ends with a character of its last word. -/
theorem getLast?_text : ∃ c, p.text.getLast? = some c ∧ isIdentChar c = true := by
  obtain ⟨first, ws, hfirst, hws⟩ := p
  cases hlast : ws.getLast? with
  | none =>
    obtain rfl : ws = [] := List.getLast?_eq_none_iff.mp hlast
    simpa [text, dottedWords] using hfirst.getLast?
  | some w =>
    obtain ⟨front, rfl⟩ := List.getLast?_eq_some_iff.mp hlast
    obtain ⟨c, hc, hident⟩ := (hws w (by simp)).getLast?
    refine ⟨c, ?_, hident⟩
    have htext : text ⟨first, front ++ [w], hfirst, hws⟩
        = first ++ (dottedWords front ++ ['.']) ++ w := by simp [text, dottedWords]
    rw [htext, List.getLast?_append, hc]
    rfl

theorem stops_of_apart (h : Apart p.text rest) : Stops goesOnName rest := by
  obtain ⟨c, hlast, hc⟩ := p.getLast?_text
  exact h.stops hlast (by simp [isPathChar, hc])

theorem ident_text (hrest : Stops isPathChar rest) : ident (p.text ++ rest) = p.first := by
  have hstop : Stops isIdentChar (dottedWords p.further ++ rest) := by
    refine stops_append ?_ (stops_isIdentChar hrest)
    cases p.further with
    | nil => exact Text.stops_nil _
    | cons w ws => exact Text.stops_cons.mpr (by decide)
  rw [p.text_append, p.first_isWord.ident_append hstop]

end TypePath

theorem rest?_primary_word {s : Text} (h : startsIdent s = true) :
    rest? .primary s = wordRest? rest? s := by
  rw [rest?_eq, formRest?, primaryRest?_word h]

/-- A path that starts with a name is passed over, and then its arguments are looked for. -/
theorem rest?_primary_path (p : TypePath) (hname : namesType p.first = true) {behind : Text}
    (hbehind : Stops isPathChar behind) :
    rest? .primary (p.text ++ behind) = predicateRest? rest? (skipArguments rest? behind) := by
  have hne : p.first ≠ "typeof".toList ∧ p.first ≠ "new".toList ∧ p.first ≠ "abstract".toList ∧
      p.first ≠ "asserts".toList := by
    refine ⟨?_, ?_, ?_, ?_⟩ <;> intro hw <;> rw [hw] at hname <;> exact absurd hname (by decide)
  obtain ⟨htypeof, hnew, habstract, hasserts⟩ := hne
  simp only [namesType, Bool.and_eq_true, Bool.not_eq_true', Bool.or_eq_true] at hname
  obtain ⟨⟨⟨hop, -⟩, -⟩, hreserved⟩ := hname
  have hallowed : (isReserved p.first && !typeWords.contains p.first) = false := by
    rcases hreserved with h | h <;> rw [h] <;> simp
  rw [rest?_primary_word p.startsIdent]
  simp only [wordRest?, p.ident_text hbehind, p.dottedRest_text hbehind, htypeof, hnew, habstract,
    hasserts, hop, hallowed, if_false, Bool.false_eq_true, decide_false, Bool.or_self]

/-- A word of the grammar is told from the blanks and the type behind it. -/
theorem rest?_primary_keyword {w behind : Text} (hw : IsWord w) (hbehind : Stops isIdentChar behind) :
    rest? .primary (w ++ behind) = wordRest? rest? (w ++ behind) ∧
      ident (w ++ behind) = w ∧ skipIdent (w ++ behind) = behind :=
  ⟨rest?_primary_word hw.startsIdent, hw.ident_append hbehind, hw.skipIdent_append hbehind⟩

section Words

variable {rest : Text}

theorem skipArguments_of_stops (h : Stops goesOnName rest) : skipArguments rest? rest = rest := by
  unfold skipArguments
  split
  · exact absurd h (by simp [goesOnName])
  · rfl

theorem predicateRest?_of_ends (h : EndsAtom rest) : predicateRest? rest? rest = some rest := by
  rw [predicateRest?, h.word]

theorem rest?_primary_bare (p : TypePath) (hname : namesType p.first = true)
    (hapart : Apart p.text rest) (hends : EndsAtom rest) :
    rest? .primary (p.text ++ rest) = some rest := by
  have hstop := p.stops_of_apart hapart
  rw [rest?_primary_path p hname (stops_isPathChar hstop), skipArguments_of_stops hstop,
    predicateRest?_of_ends hends]

theorem rest?_primary_applied (p : TypePath) (hname : namesType p.first = true) {ts : Text}
    (hts : rest? (.arguments false) (ts ++ rest) = some rest) (hends : EndsAtom rest) :
    rest? .primary (p.text ++ '<' :: ts ++ rest) = some rest := by
  have htext : p.text ++ '<' :: ts ++ rest = p.text ++ '<' :: (ts ++ rest) := by simp
  have hlist : skipArguments rest? ('<' :: (ts ++ rest)) = rest := by
    rw [skipArguments, hts, Option.getD_some]
  rw [htext, rest?_primary_path p hname (Text.stops_cons.mpr (by decide)), hlist,
    predicateRest?_of_ends hends]

theorem rest?_primary_typeOf {gap : Text} (p : TypePath) (hgap : AllBlank gap) (hne : gap ≠ [])
    (hapart : Apart p.text rest) :
    rest? .primary ("typeof".toList ++ (gap ++ p.text) ++ rest) = some rest := by
  have hword : IsWord "typeof".toList := isWord_of_all (by decide) (by decide)
  have hpath := stops_isPathChar (p.stops_of_apart hapart)
  have hstop : Stops isIdentChar (gap ++ (p.text ++ rest)) :=
    hgap.stops hne (fun _ => isBlank_eq_false_of_identChar) _
  have hpass : Text.skipBlanks (gap ++ (p.text ++ rest)) = p.text ++ rest := by
    rw [skipBlanks_append hgap, p.text_append,
      Text.skipBlanks_of_stops p.first_isWord.stops_isBlank]
  obtain ⟨hread, hident, hskip⟩ := rest?_primary_keyword hword hstop
  have hdotted : afterDotted? (p.text ++ rest) = some rest := by
    rw [afterDotted?, if_pos p.startsIdent, p.dottedRest_text hpath]
  rw [List.append_assoc, List.append_assoc, hread, wordRest?]
  simp only [hident, hskip, hpass, hdotted, if_true]

/-- Behind `asserts` stands a word, and then what is looked for behind a name. -/
theorem rest?_primary_asserts {gap x : Text} (hgap : AllBlank gap) (hne : gap ≠ []) (hx : IsWord x)
    (hstop : Stops isIdentChar rest) :
    rest? .primary ("asserts".toList ++ (gap ++ (x ++ rest))) = predicateRest? rest? rest := by
  have hword : IsWord "asserts".toList := isWord_of_all (by decide) (by decide)
  have hpass : Text.skipBlanks (gap ++ (x ++ rest)) = x ++ rest := by
    rw [skipBlanks_append hgap, Text.skipBlanks_of_stops hx.stops_isBlank]
  obtain ⟨hread, hident, hskip⟩ := rest?_primary_keyword hword
    (hgap.stops hne (fun _ => isBlank_eq_false_of_identChar) (x ++ rest))
  rw [hread, wordRest?, hident, hskip, hpass, hx.skipIdent_append hstop]
  rfl

theorem rest?_primary_asserted {gap x : Text} (hgap : AllBlank gap) (hne : gap ≠ [])
    (hx : IsWord x) (hapart : Apart x rest) (hends : EndsAtom rest) :
    rest? .primary ("asserts".toList ++ (gap ++ x) ++ rest) = some rest := by
  obtain ⟨c, hlast, hc⟩ := hx.getLast?
  have hstop := hapart.stops hlast (by simp [isPathChar, hc])
  rw [List.append_assoc, List.append_assoc, rest?_primary_asserts hgap hne hx
    (stops_isIdentChar (stops_isPathChar hstop)), predicateRest?_of_ends hends]

/-- Behind `is` stands the type of a predicate. -/
theorem predicateRest?_is {gap gap' s : Text} (hgap : ∀ c ∈ gap, isInline c = true)
    (hgap' : AllBlank gap') (hstop : Stops isIdentChar (gap' ++ s)) :
    predicateRest? rest? (gap ++ ("is".toList ++ (gap' ++ s))) = rest? .whole s := by
  have hword : IsWord "is".toList := isWord_of_all (by decide) (by decide)
  have hpass : Text.skipInline (gap ++ ("is".toList ++ (gap' ++ s))) = "is".toList ++ (gap' ++ s) :=
    Text.dropWhile_append hgap (Text.stops_cons.mpr (by decide))
  rw [predicateRest?, hpass, afterKeyword?, if_pos (hword.word?_append hstop),
    hword.skipIdent_append hstop]
  exact rest?_whole_append hgap' s

/-- Behind a name, blanks and `is` stands the type of a predicate. -/
theorem rest?_primary_predicate {x gap gap' s : Text} (hx : IsWord x) (hname : namesType x = true)
    (hgap : ∀ c ∈ gap, isInline c = true) (hne : gap ≠ []) (hgap' : AllBlank gap')
    (hstop : Stops isIdentChar (gap' ++ s)) :
    rest? .primary (x ++ (gap ++ ("is".toList ++ (gap' ++ s)))) = rest? .whole s := by
  have hblank : AllBlank gap := fun c hc => Text.isBlank_of_isInline (hgap c hc)
  have hbehind : Stops goesOnName (gap ++ ("is".toList ++ (gap' ++ s))) :=
    hblank.stops hne (fun _ => isBlank_eq_false_of_goesOnName) _
  let p : TypePath := ⟨x, [], hx, fun _ h => absurd h List.not_mem_nil⟩
  have htext : p.text = x := List.append_nil x
  rw [← htext, rest?_primary_path p hname (stops_isPathChar hbehind),
    skipArguments_of_stops hbehind, predicateRest?_is hgap hgap' hstop]

theorem rest?_primary_assertion {front x gap gap' s : Text} (hfront : AllBlank front)
    (hfrontne : front ≠ []) (hx : IsWord x) (hgap : ∀ c ∈ gap, isInline c = true) (hne : gap ≠ [])
    (hgap' : AllBlank gap') (hstop : Stops isIdentChar (gap' ++ s)) :
    rest? .primary
        ("asserts".toList ++ (front ++ (x ++ (gap ++ ("is".toList ++ (gap' ++ s))))))
      = rest? .whole s := by
  have hblank : AllBlank gap := fun c hc => Text.isBlank_of_isInline (hgap c hc)
  have hbehind : Stops isIdentChar (gap ++ ("is".toList ++ (gap' ++ s))) :=
    hblank.stops hne (fun _ => isBlank_eq_false_of_identChar) _
  rw [rest?_primary_asserts hfront hfrontne hx hbehind, predicateRest?_is hgap hgap' hstop]

/-- `new` and `abstract` stand in front of a function type. -/
theorem rest?_primary_construct {w gap s : Text} (hw : w = "new".toList ∨ w = "abstract".toList)
    (hgap : AllBlank gap) (hstop : Stops isIdentChar (gap ++ s)) :
    rest? .primary (w ++ (gap ++ s)) = rest? .primary s := by
  have hword : IsWord w := by
    rcases hw with rfl | rfl <;> exact isWord_of_all (by decide) (by decide)
  obtain ⟨hread, hident, hskip⟩ := rest?_primary_keyword hword hstop
  rw [hread, wordRest?, hident, hskip, ← rest?_primary_append hgap s]
  rcases hw with rfl | rfl <;> rfl

/-- An operator stands in front of an operand. -/
theorem rest?_primary_operator {w gap s : Text} (hw : typeOperators.contains w = true)
    (hgap : AllBlank gap) (hstop : Stops isIdentChar (gap ++ s)) :
    rest? .primary (w ++ (gap ++ s)) = rest? .operand s := by
  have hmem : w ∈ typeOperators := by simpa using hw
  have hword : IsWord w := by
    simp only [typeOperators, List.map_cons, List.map_nil] at hmem
    fin_cases hmem <;> exact isWord_of_all (by decide) (by decide)
  have htypeof : w ≠ "typeof".toList := by
    rintro rfl
    exact absurd hw (by decide)
  obtain ⟨hread, hident, hskip⟩ := rest?_primary_keyword hword hstop
  rw [hread, wordRest?, hident, hskip, ← rest?_operand_append hgap s]
  simp only [htypeof, hw, if_true, if_false]

end Words

/-! ### Types that start with a sign -/

section Signs

variable {rest : Text}

theorem Bracket.opened?_opening (b : Bracket) : Bracket.opened? b.opening = some b := by
  cases b <;> rfl

theorem BracketGroup.afterGroup?_text (g : BracketGroup) (rest : Text) :
    afterGroup? (g.text ++ rest) = some rest := by
  have hgroup : afterGroup? g.text = some [] :=
    Option.bind_eq_some_iff.mpr ⟨g.bracket, g.bracket.opened?_opening, g.balanced⟩
  exact afterGroup?_append rest hgroup

theorem rest?_primary_group (g : BracketGroup) (hends : EndsAtom rest) :
    rest? .primary (g.text ++ rest) = some rest := by
  have hgroup := g.afterGroup?_text rest
  rw [rest?_eq, formRest?, primaryRest?]
  rw [BracketGroup.text] at hgroup ⊢
  cases hb : g.bracket with
  | round =>
    rw [hb] at hgroup
    show roundRest? rest? (Bracket.round.opening :: _) = some rest
    rw [roundRest?, show afterGroup? (Bracket.round.opening :: _) = some rest from hgroup]
    simp only
    split
    · rename_i u hu
      exact absurd hu (hends.arrow u)
    · rfl
  | square =>
    rw [hb] at hgroup
    exact hgroup
  | curly =>
    rw [hb] at hgroup
    exact hgroup

theorem rest?_primary_function {gap gap' s : Text} (g : BracketGroup) (hround : g.bracket = .round)
    (hgap : AllBlank gap) (hgap' : AllBlank gap') :
    rest? .primary (g.text ++ (gap ++ '=' :: '>' :: (gap' ++ s))) = rest? .whole s := by
  have hgroup := g.afterGroup?_text (gap ++ '=' :: '>' :: (gap' ++ s))
  have hpass : Text.skipBlanks (gap ++ '=' :: '>' :: (gap' ++ s)) = '=' :: '>' :: (gap' ++ s) := by
    rw [skipBlanks_append hgap, Text.skipBlanks_cons (by decide)]
  rw [rest?_eq, formRest?, primaryRest?]
  rw [BracketGroup.text, hround] at hgroup ⊢
  show roundRest? rest? (Bracket.round.opening :: _) = _
  rw [roundRest?, show afterGroup? (Bracket.round.opening :: _) = some _ from hgroup]
  simp only [hpass]
  exact rest?_whole_append hgap' s

theorem TemplateType.skipTemplate_text (t : TemplateType) (rest : Text) :
    skipTemplate (t.text ++ rest) = rest := by
  rw [TemplateType.text, List.cons_append, skipTemplate, leave_append rest t.closed]
  rfl

theorem rest?_primary_template (t : TemplateType) (rest : Text) :
    rest? .primary (t.text ++ rest) = some rest := by
  have hskip := t.skipTemplate_text rest
  rw [TemplateType.text, List.cons_append] at hskip ⊢
  rw [rest?_eq]
  exact congrArg some hskip

/-- A string that is left at its last character is ended there. -/
theorem stringRest_of_leave {quote : Char} (hquote : isQuote quote = true) {body : Text}
    (h : leave [.quoted quote] (body ++ [quote]) = some []) (rest : Text) :
    stringRest quote (body ++ quote :: rest) = rest := by
  have hne : quote ≠ '\\' ∧ quote ≠ '\n' := by
    constructor <;> rintro rfl <;> exact absurd hquote (by decide)
  induction body using stringRest.induct quote with
  | case1 =>
    rw [List.nil_append, stringRest]
    · exact if_pos rfl
    · exact fun _ _ h _ => hne.1 h
    · exact hne.2
  | case2 c s ih => exact ih h
  | case3 s => simp [leave] at h
  | case4 => simp [leave, hne] at h
  | case5 c s hescape hline hc ih =>
    have hslash : c ≠ '\\' := by
      rintro rfl
      cases s with
      | nil => simp [leave] at h
      | cons d s => exact hescape d s rfl rfl
    have hbody : leave [.quoted quote] (s ++ [quote]) = some [] := by
      rw [List.cons_append, leave, if_neg hslash, if_neg (by simp [hc, show c ≠ '\n' from hline])] at h
      exact h
    rw [List.cons_append, stringRest, if_neg hc, ih hbody]
    · exact fun _ _ h _ => hslash h
    · exact hline

theorem rest?_primary_string (q : StringType) (rest : Text) :
    rest? .primary (q.text ++ rest) = some rest := by
  have htext : q.text ++ rest = q.quote :: (q.body ++ [q.quote]) ++ rest := rfl
  have hafter : afterStringType? (q.text ++ rest) = some rest := by
    have hend : stringRest q.quote (q.body ++ [q.quote] ++ rest) = rest := by
      rw [List.append_assoc]
      exact stringRest_of_leave q.isQuote q.closed rest
    rw [htext, List.cons_append, afterStringType?]
    simp only [hend, Text.consumed_append, List.getLast?_append, List.getLast?_singleton,
      Option.some_or, if_true]
  have hquote := q.isQuote
  rw [rest?_eq, formRest?, primaryRest?, ← hafter, htext]
  simp only [Script.isQuote, Bool.or_eq_true, beq_iff_eq] at hquote
  rcases hquote with h | h <;> rw [h] <;> rfl

theorem NumberType.isPathChar_getLast (n : NumberType) :
    ∃ c, n.text.getLast? = some c ∧ isPathChar c = true := by
  obtain ⟨front, c, hdigits⟩ := n.digits.eq_nil_or_concat.resolve_left n.ne_nil
  have hc := n.chars c (by simp [hdigits])
  refine ⟨c, by simp [NumberType.text, hdigits, List.getLast?_append], ?_⟩
  simp only [isNumberChar, Bool.or_eq_true] at hc
  rcases hc with hc | hc
  · simp [isPathChar, isIdentChar, hc]
  · simp [isPathChar, hc]

/-- A number is read from its sign, or from its first digit. -/
theorem NumberType.cases (n : NumberType) :
    n.text = '-' :: n.digits ∨
      ∃ c t, n.text = c :: t ∧ n.digits = c :: t ∧ isAsciiDigit c = true := by
  obtain ⟨digits, negative, hne, hchars, hhead⟩ := n
  cases negative with
  | true => exact Or.inl rfl
  | false =>
    obtain ⟨c, hc, hdigit⟩ := hhead rfl
    obtain ⟨t, rfl⟩ := List.head?_eq_some_iff.mp hc
    exact Or.inr ⟨c, t, rfl, rfl, hdigit⟩

theorem rest?_primary_number (n : NumberType) (hapart : Apart n.text rest) :
    rest? .primary (n.text ++ rest) = some rest := by
  obtain ⟨c, hlast, hc⟩ := n.isPathChar_getLast
  have hstop : Stops isNumberChar rest := by
    refine Text.stops_mono (fun d hd => ?_) (stops_isPathChar (hapart.stops hlast hc))
    simp only [isNumberChar, Bool.or_eq_true] at hd
    rcases hd with hd | hd <;> simp [isPathChar, isIdentChar, hd]
  have hend : (n.digits ++ rest).dropWhile (fun c => isAsciiDigit c || c == '.') = rest :=
    Text.dropWhile_append n.chars hstop
  have hshort : rest.length < (n.digits ++ rest).length := by
    have := List.length_pos_iff.mpr n.ne_nil
    rw [List.length_append]
    omega
  rw [rest?_eq, formRest?, primaryRest?]
  obtain htext | ⟨d, t, htext, hdigits, hd⟩ := n.cases
  · rw [htext]
    show afterNumber? ('-' :: (n.digits ++ rest)) = some rest
    rw [afterNumber?]
    simp only [hend, hshort, if_true]
  · have hne : ∀ e, isAsciiDigit e = false → d ≠ e := by
      rintro e he rfl
      rw [hd] at he
      cases he
    have hblank : isBlank d = false := isBlank_eq_false_of_identChar (by simp [isIdentChar, hd])
    have hafter : afterNumber? (d :: (t ++ rest)) = some rest := by
      rw [hdigits] at hend hshort
      rw [List.cons_append] at hend hshort
      rw [afterNumber?]
      · simp only [hend, hshort, if_true]
      · exact fun _ heq => hne '-' (by decide) (List.cons.inj heq).1
    rw [htext, List.cons_append, Text.skipBlanks_cons hblank]
    simp [isQuote, hne '(' (by decide), hne '{' (by decide), hne '[' (by decide),
      hne '"' (by decide), hne '\'' (by decide), hne '\x60' (by decide), hne '<' (by decide), hd,
      hafter]

theorem rest?_primary_generic {ps gap s : Text} (hgap : AllBlank gap)
    (hps : rest? (.parameters false) (ps ++ (gap ++ s)) = some (gap ++ s)) :
    rest? .primary ('<' :: (ps ++ (gap ++ s))) = rest? .primary s := by
  have hread : rest? .primary ('<' :: (ps ++ (gap ++ s)))
      = (rest? (.parameters false) (ps ++ (gap ++ s))).bind (rest? .primary) := by
    rw [rest?_eq]
    rfl
  rw [hread, hps, Option.bind_some, rest?_primary_append hgap]

end Signs

/-! ### Brackets behind a type -/

theorem rest?_brackets_groups {gs : List BracketGroup} (hsquare : ∀ g ∈ gs, g.bracket = .square)
    {rest : Text} (hrest : startsWithChar '[' rest = false) :
    rest? .brackets (gs.flatMap BracketGroup.text ++ rest) = some rest := by
  induction gs with
  | nil => exact rest?_brackets_of_ne hrest
  | cons g gs ih =>
    have hg := hsquare g (List.mem_cons_self ..)
    have hgroup := g.afterGroup?_text (gs.flatMap BracketGroup.text ++ rest)
    have hopen : startsWithChar '[' (g.text ++ (gs.flatMap BracketGroup.text ++ rest)) = true := by
      rw [BracketGroup.text, hg]
      rfl
    rw [List.flatMap_cons, List.append_assoc, rest?_eq, formRest?, bracketsRest?, if_pos hopen,
      hgroup, Option.bind_some]
    exact ih fun g' hg' => hsquare g' (List.mem_cons_of_mem _ hg')

/-- A group of square brackets goes on no name, and makes no function type. -/
theorem endsAtom_groups {gs : List BracketGroup} (hsquare : ∀ g ∈ gs, g.bracket = .square)
    {rest : Text} (hends : EndsAtom rest) :
    EndsAtom (gs.flatMap BracketGroup.text ++ rest) := by
  cases gs with
  | nil => exact hends
  | cons g gs =>
    have hg := hsquare g (List.mem_cons_self ..)
    have htext : (g :: gs).flatMap BracketGroup.text ++ rest
        = '[' :: (g.body ++ [g.bracket.closing] ++ gs.flatMap BracketGroup.text ++ rest) := by
      simp [BracketGroup.text, hg, Bracket.opening]
    rw [htext]
    refine ⟨?_, fun u hu => ?_⟩
    · rw [Text.skipInline_cons (by decide)]
      exact afterKeyword?_of_stops (Text.stops_cons.mpr (by decide))
    · rw [Text.skipBlanks_cons (by decide)] at hu
      cases hu

theorem apart_groups {t : Text} {gs : List BracketGroup} (hsquare : ∀ g ∈ gs, g.bracket = .square)
    {rest : Text} (hapart : Apart (t ++ gs.flatMap BracketGroup.text) rest) :
    Apart t (gs.flatMap BracketGroup.text ++ rest) := by
  cases gs with
  | nil => simpa using hapart
  | cons g gs =>
    have hg := hsquare g (List.mem_cons_self ..)
    refine Apart.of_stops ?_
    rw [List.flatMap_cons, BracketGroup.text, hg]
    exact Text.stops_cons.mpr (by decide)

/-! ### Declared parameters -/

theorem stops_isBlank_of_startsIdent {s : Text} (h : startsIdent s = true) : Stops isBlank s := by
  cases s with
  | nil => cases h
  | cons c s => exact Text.stops_cons.mpr (isBlank_eq_false_of_identChar (isIdentChar_of_start h))

section Modifiers

variable {x s : Text} (hx : IsWord x) (hs : Stops isIdentChar s)

include hx hs

theorem exists_word_modifiers {ms : List (Text × Text)}
    (hms : ∀ m ∈ ms, IsWord m.1 ∧ m.2 ≠ [] ∧ AllBlank m.2) :
    ∃ w, word? (modifierText ms ++ (x ++ s)) = some w ∧ (w = x ∨ w ∈ ms.map Prod.fst) := by
  cases ms with
  | nil => exact ⟨x, hx.word?_append hs, Or.inl rfl⟩
  | cons m ms =>
    obtain ⟨hword, hne, hblank⟩ := hms m (List.mem_cons_self ..)
    have htext : modifierText (m :: ms) ++ (x ++ s)
        = m.1 ++ (m.2 ++ (modifierText ms ++ (x ++ s))) := by simp [modifierText]
    refine ⟨m.1, ?_, Or.inr (by simp)⟩
    rw [htext]
    exact hword.word?_append (hblank.stops hne (fun _ => isBlank_eq_false_of_identChar) _)

omit hs in
theorem startsIdent_modifiers {ms : List (Text × Text)}
    (hms : ∀ m ∈ ms, IsWord m.1 ∧ m.2 ≠ [] ∧ AllBlank m.2) :
    startsIdent (modifierText ms ++ (x ++ s)) = true := by
  cases ms with
  | nil => exact hx.startsIdent
  | cons m ms =>
    have htext : modifierText (m :: ms) ++ (x ++ s)
        = m.1 ++ (m.2 ++ (modifierText ms ++ (x ++ s))) := by simp [modifierText]
    rw [htext]
    exact (hms m (List.mem_cons_self ..)).1.startsIdent

/-- Modifiers that stand in the order in which they are looked for are passed over. -/
theorem foldl_skipModifier {words : List Text} {ms : List (Text × Text)}
    (hwords : words.Nodup) (hnot : x ∉ words) (horder : (ms.map Prod.fst).Sublist words)
    (hms : ∀ m ∈ ms, IsWord m.1 ∧ m.2 ≠ [] ∧ AllBlank m.2) :
    words.foldl skipModifier (modifierText ms ++ (x ++ s)) = x ++ s := by
  induction words generalizing ms with
  | nil =>
    obtain rfl : ms = [] := by simpa using horder
    rfl
  | cons word words ih =>
    obtain ⟨hword, hnodup⟩ := List.nodup_cons.mp hwords
    obtain ⟨hne, hrest⟩ := not_or.mp (fun h => hnot (List.mem_cons.mpr h))
    rw [List.foldl_cons]
    rcases List.sublist_cons_iff.mp horder with hothers | ⟨ws, hws, hothers⟩
    · -- the modifier that is looked for is not there
      have hpass : skipModifier (modifierText ms ++ (x ++ s)) word = modifierText ms ++ (x ++ s) := by
        obtain ⟨w, hw, hmem⟩ := exists_word_modifiers hx hs hms
        have hother : w ≠ word := by
          rintro rfl
          rcases hmem with rfl | hmem
          · exact hne rfl
          · exact hword (hothers.subset hmem)
        have hsome : ¬some w = some word := by simpa using hother
        rw [skipModifier, afterKeyword?, hw, if_neg hsome]
      rw [hpass]
      exact ih hnodup hrest hothers hms
    · cases ms with
      | nil => cases hws
      | cons m ms =>
        obtain ⟨rfl, rfl⟩ := List.cons.inj hws
        obtain ⟨hisWord, hgap, hblank⟩ := hms m (List.mem_cons_self ..)
        replace hms := fun m' hm' => hms m' (List.mem_cons_of_mem m hm')
        have hstart := startsIdent_modifiers hx (s := s) hms
        have htext : modifierText (m :: ms) ++ (x ++ s)
            = m.1 ++ (m.2 ++ (modifierText ms ++ (x ++ s))) := by simp [modifierText]
        have hstop : Stops isIdentChar (m.2 ++ (modifierText ms ++ (x ++ s))) :=
          hblank.stops hgap (fun _ => isBlank_eq_false_of_identChar) _
        have hname : Text.skipBlanks (m.2 ++ (modifierText ms ++ (x ++ s)))
            = modifierText ms ++ (x ++ s) := by
          rw [skipBlanks_append hblank, Text.skipBlanks_of_stops (stops_isBlank_of_startsIdent hstart)]
        rw [htext, skipModifier, afterKeyword?, if_pos (hisWord.word?_append hstop),
          hisWord.skipIdent_append hstop]
        simp only [hname, hstart, if_true]
        exact ih hnodup hrest hothers hms

end Modifiers

theorem ModifierRow.isModifier (r : ModifierRow) :
    ∀ m ∈ r.modifiers, IsWord m.1 ∧ m.2 ≠ [] ∧ AllBlank m.2 := by
  intro m hm
  have hword : ∀ w ∈ parameterModifiers, IsWord w := by
    intro w hw
    simp only [parameterModifiers, List.map_cons, List.map_nil] at hw
    fin_cases hw <;> exact isWord_of_all (by decide) (by decide)
  exact ⟨hword _ (r.order.subset (List.mem_map_of_mem hm)), r.blank m hm⟩

/-- A declared parameter is read up to the comma or the bracket that closes it. -/
theorem rest?_parameters_parameter {any : Bool} {gap x gap' b behind : Text} (hgap : AllBlank gap)
    (r : ModifierRow) (hx : IsWord x) (hplain : parameterModifiers.contains x = false)
    (hgap' : AllBlank gap') (hstop : Stops isIdentChar (gap' ++ b))
    (hbehind : TypeParameter.Closes behind) (hpass : Text.skipBlanks (b ++ behind) = b ++ behind)
    (hb : (boundRest? rest? (b ++ behind)).bind (defaultRest? rest?) = some behind) :
    rest? (.parameters any) (gap ++ (r.text ++ (x ++ (gap' ++ (b ++ behind)))))
      = listRest? rest? (.parameters true) behind := by
  have hs : Stops isIdentChar (gap' ++ (b ++ behind)) := by
    rw [← List.append_assoc]
    exact stops_append hstop hbehind.stops_identChar
  have hstart := startsIdent_modifiers hx (s := gap' ++ (b ++ behind)) r.isModifier
  have hmodifiers : parameterModifiers.foldl skipModifier
      (modifierText r.modifiers ++ (x ++ (gap' ++ (b ++ behind)))) = x ++ (gap' ++ (b ++ behind)) :=
    foldl_skipModifier hx hs (by decide) (by simpa using hplain) r.order r.isModifier
  have hopen : startsWithChar '>' (r.text ++ (x ++ (gap' ++ (b ++ behind)))) = false := by
    rw [ModifierRow.text]
    generalize modifierText r.modifiers ++ (x ++ (gap' ++ (b ++ behind))) = s at hstart
    cases s with
    | nil => rfl
    | cons c s =>
      have hc : c ≠ '>' := by
        rintro rfl
        exact absurd (show isIdentStart '>' = true from hstart) (by decide)
      simp [startsWithChar, hc]
  rw [rest?_parameters_append hgap, rest?_eq]
  rw [ModifierRow.text] at hopen ⊢
  simp only [formRest?, parametersRest?, Text.skipBlanks_of_stops (stops_isBlank_of_startsIdent hstart),
    hopen, hmodifiers, hx.startsIdent, hx.skipIdent_append hs, skipBlanks_append hgap', hpass, hb,
    Bool.and_false, Bool.not_true, Bool.false_eq_true, if_false, Option.bind_some]

theorem TypeText.skipBlanks_default {d rest : Text} (hd : TypeText .default d)
    (hrest : TypeParameter.Closes rest) : Text.skipBlanks (d ++ rest) = d ++ rest := by
  cases hd with
  | noDefault => exact hrest.skipBlanks
  | default => exact Text.skipBlanks_cons (by decide)

theorem TypeText.skipBlanks_bounded {b rest : Text} (hb : TypeText .bounded b)
    (hrest : TypeParameter.Closes rest) : Text.skipBlanks (b ++ rest) = b ++ rest := by
  cases hb with
  | noBound hd => exact hd.skipBlanks_default hrest
  | bound => exact Text.skipBlanks_cons (by decide)

/-! ### Whole types and lists -/

theorem rest?_operand_of_primary {s rest : Text} (h : rest? .primary s = some rest)
    (hends : EndsOperand rest) : rest? .operand s = some rest := by
  rw [rest?_operand_eq, h, Option.bind_some, rest?_brackets_of_ne hends.bracket]

theorem rest?_whole_of_union {s rest : Text} (h : rest? (.joined .union) s = some rest)
    (hends : EndsWhole rest) : rest? .whole s = some rest := by
  rw [rest?_eq, formRest?, wholeRest?, h]
  simp only [hends.bound, Option.bind_none]

/-- A conditional type is read to the end of its second branch. -/
theorem rest?_whole_conditional {s plain bound checked yes behind no : Text}
    (hplain : rest? (.joined .union) s = some plain)
    (hbound : afterKeyword? "extends".toList (Text.skipBlanks plain) = some bound)
    (hchecked : rest? (.joined .union) bound = some checked)
    (hmark : Text.skipBlanks checked = '?' :: yes) (hyes : rest? .whole yes = some behind)
    (hcolon : Text.skipBlanks behind = ':' :: no) : rest? .whole s = rest? .whole no := by
  rw [rest?_eq, formRest?, wholeRest?, hplain]
  simp only [hbound, Option.bind_some, hchecked, hmark, hyes, hcolon]

theorem startsWithChar_of_whole {s rest : Text} (h : rest? .whole s = some rest) {c : Char}
    (hc : c ∈ ['=', '>']) : startsWithChar c s = false := by
  cases s with
  | nil => rfl
  | cons d s =>
    by_contra hd
    obtain rfl : d = c := by simpa [startsWithChar] using hd
    rw [rest?_whole_sign hc] at h
    cases h

theorem rest?_whole_skipBlanks (s : Text) : rest? .whole (Text.skipBlanks s) = rest? .whole s := by
  obtain ⟨gap, hgap, hs⟩ := exists_blanks s
  conv_rhs => rw [hs]
  exact (rest?_whole_append hgap _).symm

/-- A list of types goes on behind one of them. -/
theorem rest?_arguments_argument {any : Bool} {gap s behind : Text} (hgap : AllBlank gap)
    (h : rest? .whole s = some behind) : rest? (.arguments any) (gap ++ s)
      = listRest? rest? (.arguments true) (Text.skipBlanks behind) := by
  have hwhole : rest? .whole (Text.skipBlanks s) = some behind := by rw [rest?_whole_skipBlanks, h]
  have hopen := startsWithChar_of_whole hwhole (c := '>') (by simp)
  rw [rest?_arguments_append hgap, rest?_eq]
  simp only [formRest?, argumentsRest?, hopen, hwhole, Bool.and_false, Bool.false_eq_true, if_false,
    Option.bind_some]

/-- A list that may be empty here ends with its bracket. -/
theorem rest?_arguments_end {gap : Text} (hgap : AllBlank gap) (rest : Text) :
    rest? (.arguments true) (gap ++ '>' :: rest) = some rest := by
  rw [rest?_arguments_append hgap, rest?_eq]
  rfl

theorem rest?_parameters_end {gap : Text} (hgap : AllBlank gap) (rest : Text) :
    rest? (.parameters true) (gap ++ '>' :: rest) = some rest := by
  rw [rest?_parameters_append hgap, rest?_eq]
  rfl

theorem defaultRest?_of_closes {rest : Text} (h : TypeParameter.Closes rest) :
    defaultRest? rest? rest = some rest := by
  obtain ⟨s, rfl⟩ | ⟨s, rfl⟩ := h.cases <;> rfl

section Bound

variable {d gap rest : Text} (hd : TypeText .default d) (hrest : TypeParameter.Closes rest)

include hd hrest

/-- Behind a bound stands the sign of a default, or what closes the parameter. -/
theorem TypeText.exists_sign_default :
    ∃ c s, d ++ rest = c :: s ∧ (c = '=' ∧ d ≠ [] ∨ c ∈ [',', '>']) := by
  cases hd with
  | noDefault =>
    obtain ⟨s, rfl⟩ | ⟨s, rfl⟩ := hrest.cases
    · exact ⟨',', s, rfl, Or.inr (by simp)⟩
    · exact ⟨'>', s, rfl, Or.inr (by simp)⟩
  | default => exact ⟨'=', _, rfl, Or.inl ⟨rfl, List.cons_ne_nil _ _⟩⟩

theorem TypeText.apart_default (hgap : AllBlank gap) (t : Text) : Apart t (gap ++ (d ++ rest)) := by
  obtain ⟨c, s, hs, hc⟩ := hd.exists_sign_default hrest
  rw [hs]
  refine apart_blanks hgap ?_ s
  rcases hc with ⟨rfl, -⟩ | hc
  · decide
  · fin_cases hc <;> decide

/-- Behind a bound nothing goes on with it. -/
theorem TypeText.endsWhole_default (hgap : AllBlank gap)
    (hread : defaultRest? rest? (d ++ rest) = some rest) : EndsWhole (gap ++ (d ++ rest)) := by
  obtain ⟨c, s, hs, hc⟩ := hd.exists_sign_default hrest
  rw [hs] at hread ⊢
  rcases hc with ⟨rfl, -⟩ | hc
  · refine .of_equals hgap ?_
    by_contra hopen
    have hopen : startsWithChar '>' s = true := by simpa using hopen
    have hsame : '=' :: s = rest := by simpa [defaultRest?, hopen] using hread
    obtain ⟨u, hu⟩ | ⟨u, hu⟩ := hrest.cases
    · rw [hu] at hsame
      cases hsame
    · rw [hu] at hsame
      cases hsame
  · exact .of_sign hgap (by fin_cases hc <;> simp)

end Bound

theorem boundRest?_of_no_word {s : Text} (h : Stops isIdentStart s) :
    boundRest? rest? s = some s := by
  rw [boundRest?, afterKeyword?_of_stops h]

/-! ### Each form is read to its end -/

namespace TypeKind.Reads

variable {t u d : Text} {gap gap' : Text} {closed any : Bool} {j : Joint}

theorem applied (p : TypePath) (hname : namesType p.first = true)
    (ih : (TypeKind.arguments false).Reads t) : TypeKind.atom.Reads (p.text ++ '<' :: t) := by
  intro rest hapart hends
  have hlist := ih rest (hapart.of_suffix ⟨p.text ++ ['<'], by simp⟩) trivial
  exact rest?_primary_applied p hname hlist hends

theorem function (g : BracketGroup) (hround : g.bracket = .round) (hgap : AllBlank gap)
    (hgap' : AllBlank gap') (ih : TypeKind.whole.Reads t) :
    TypeKind.callable.Reads (g.text ++ (gap ++ '=' :: '>' :: (gap' ++ t))) := by
  intro rest hapart hends
  have hresult := ih rest (hapart.of_suffix ⟨g.text ++ (gap ++ '=' :: '>' :: gap'), by simp⟩) hends
  have htext : g.text ++ (gap ++ '=' :: '>' :: (gap' ++ t)) ++ rest
      = g.text ++ (gap ++ '=' :: '>' :: (gap' ++ (t ++ rest))) := by simp
  show rest? .primary _ = some rest
  rw [htext, rest?_primary_function g hround hgap hgap']
  exact hresult

theorem generic {ps : Text} (hps : TypeText (.parameters false) ps) (hgap : AllBlank gap)
    (ihps : (TypeKind.parameters false).Reads ps) (ih : TypeKind.callable.Reads t) :
    TypeKind.callable.Reads ('<' :: (ps ++ (gap ++ t))) := by
  intro rest hapart hends
  have hfunction := ih rest (hapart.of_suffix ⟨'<' :: (ps ++ gap), by simp⟩) hends
  have hlist := ihps (gap ++ (t ++ rest)) (hps.apart_parameters _) trivial
  have htext : '<' :: (ps ++ (gap ++ t)) ++ rest = '<' :: (ps ++ (gap ++ (t ++ rest))) := by simp
  show rest? .primary _ = some rest
  rw [htext, rest?_primary_generic hgap hlist]
  exact hfunction

theorem construct {w : Text} (hw : w = "new".toList ∨ w = "abstract".toList) (hgap : AllBlank gap)
    (hstop : Stops isIdentChar (gap ++ t)) (ht : TypeText .callable t)
    (ih : TypeKind.callable.Reads t) : TypeKind.callable.Reads (w ++ (gap ++ t)) := by
  intro rest hapart hends
  have hfunction := ih rest (hapart.of_suffix ⟨w ++ gap, by simp⟩) hends
  have htext : w ++ (gap ++ t) ++ rest = w ++ (gap ++ (t ++ rest)) := by simp
  show rest? .primary _ = some rest
  rw [htext, rest?_primary_construct hw hgap (ht.stops_append nofun nofun hstop rest)]
  exact hfunction

theorem predicate {x : Text} (hx : IsWord x) (hname : namesType x = true)
    (hgap : ∀ c ∈ gap, isInline c = true) (hne : gap ≠ []) (hgap' : AllBlank gap')
    (hstop : Stops isIdentChar (gap' ++ t)) (ht : TypeText .whole t) (ih : TypeKind.whole.Reads t) :
    TypeKind.callable.Reads (x ++ (gap ++ ("is".toList ++ (gap' ++ t)))) := by
  intro rest hapart hends
  have htype := ih rest (hapart.of_suffix ⟨x ++ (gap ++ ("is".toList ++ gap')), by simp⟩) hends
  have htext : x ++ (gap ++ ("is".toList ++ (gap' ++ t))) ++ rest
      = x ++ (gap ++ ("is".toList ++ (gap' ++ (t ++ rest)))) := by simp
  show rest? .primary _ = some rest
  rw [htext, rest?_primary_predicate hx hname hgap hne hgap'
    (ht.stops_append nofun nofun hstop rest)]
  exact htype

theorem assertion {front x : Text} (hfront : AllBlank front) (hfrontne : front ≠ []) (hx : IsWord x)
    (hgap : ∀ c ∈ gap, isInline c = true) (hne : gap ≠ []) (hgap' : AllBlank gap')
    (hstop : Stops isIdentChar (gap' ++ t)) (ht : TypeText .whole t) (ih : TypeKind.whole.Reads t) :
    TypeKind.callable.Reads
      ("asserts".toList ++ (front ++ (x ++ (gap ++ ("is".toList ++ (gap' ++ t)))))) := by
  intro rest hapart hends
  have htype := ih rest (hapart.of_suffix
    ⟨"asserts".toList ++ (front ++ (x ++ (gap ++ ("is".toList ++ gap')))), by simp⟩) hends
  have htext : "asserts".toList ++ (front ++ (x ++ (gap ++ ("is".toList ++ (gap' ++ t))))) ++ rest
      = "asserts".toList ++ (front ++ (x ++ (gap ++ ("is".toList ++ (gap' ++ (t ++ rest)))))) := by
    simp
  show rest? .primary _ = some rest
  rw [htext, rest?_primary_assertion hfront hfrontne hx hgap hne hgap'
    (ht.stops_append nofun nofun hstop rest)]
  exact htype

theorem indexed {gs : List BracketGroup} (hsquare : ∀ g ∈ gs, g.bracket = .square)
    (ih : TypeKind.atom.Reads t) :
    (TypeKind.operand true).Reads (t ++ gs.flatMap BracketGroup.text) := by
  intro rest hapart hends
  have hends : EndsOperand rest := hends
  have hatom : rest? .primary (t ++ (gs.flatMap BracketGroup.text ++ rest)) = some _ :=
    ih _ (apart_groups hsquare hapart) (endsAtom_groups hsquare hends.toEndsAtom)
  show rest? .operand _ = some rest
  rw [List.append_assoc, rest?_operand_eq, hatom, Option.bind_some,
    rest?_brackets_groups hsquare hends.bracket]

theorem endsOperand {rest : Text} (h : (TypeKind.operand closed).Ends rest) : EndsOperand rest := by
  cases closed with
  | true => exact h
  | false => exact EndsWhole.toEndsOperand h

theorem operator {w : Text} (hw : typeOperators.contains w = true) (hgap : AllBlank gap)
    (hstop : Stops isIdentChar (gap ++ t)) (ht : TypeText (.operand closed) t)
    (ih : (TypeKind.operand closed).Reads t) :
    (TypeKind.operand closed).Reads (w ++ (gap ++ t)) := by
  intro rest hapart hends
  have hoperand := ih rest (hapart.of_suffix ⟨w ++ gap, by simp⟩) hends
  have htext : w ++ (gap ++ t) ++ rest = w ++ (gap ++ (t ++ rest)) := by simp
  refine rest?_operand_of_primary ?_ (endsOperand hends)
  rw [htext, rest?_primary_operator hw hgap (ht.stops_append nofun nofun hstop rest)]
  exact hoperand

theorem callable (ih : TypeKind.callable.Reads t) : (TypeKind.operand false).Reads t := by
  intro rest hapart hends
  exact rest?_operand_of_primary (ih rest hapart hends) (endsOperand hends)

theorem last (ih : (j.kind closed).Reads t) : (TypeKind.row j closed).Reads t := by
  intro rest hapart hends
  obtain ⟨hlast, hmore⟩ := TypeKind.ends_last hends
  have htype := ih rest hapart hlast
  rw [j.read_kind] at htype
  show (rest? j.part _).bind _ = some rest
  rw [htype, Option.bind_some, hmore]

theorem next (hgap : AllBlank gap) (hgap' : AllBlank gap') (iht : (j.kind true).Reads t)
    (ihu : (TypeKind.row j closed).Reads u) :
    (TypeKind.row j closed).Reads (t ++ (gap ++ j.sign :: (gap' ++ u))) := by
  intro rest hapart hends
  have hrow := ihu rest (hapart.of_suffix ⟨t ++ (gap ++ j.sign :: gap'), by simp⟩) hends
  have hrow : (rest? j.part (gap' ++ (u ++ rest))).bind (rest? (.more j)) = some rest := by
    rw [rest?_part_append hgap']
    exact hrow
  have hfirst := iht (gap ++ j.sign :: (gap' ++ (u ++ rest)))
    (apart_blanks hgap (by cases j <;> decide) _) (j.ends_sign hgap _)
  rw [j.read_kind] at hfirst
  have htext : t ++ (gap ++ j.sign :: (gap' ++ u)) ++ rest
      = t ++ (gap ++ j.sign :: (gap' ++ (u ++ rest))) := by simp
  show (rest? j.part _).bind _ = some rest
  rw [htext, hfirst, Option.bind_some, rest?_more_sign hrow hgap]

theorem plain (ih : (TypeKind.row j closed).Reads t) : (TypeKind.joined j closed).Reads t := by
  intro rest hapart hends
  rw [TypeKind.ends_joined] at hends
  exact rest?_joined_of_row (ih rest hapart hends)

theorem signed (hgap : AllBlank gap) (ih : (TypeKind.row j closed).Reads t) :
    (TypeKind.joined j closed).Reads (j.sign :: (gap ++ t)) := by
  intro rest hapart hends
  rw [TypeKind.ends_joined] at hends
  have hrow := ih rest (hapart.of_suffix ⟨j.sign :: gap, by simp⟩) hends
  have hrow : (rest? j.part (gap ++ (t ++ rest))).bind (rest? (.more j)) = some rest := by
    rw [rest?_part_append hgap]
    exact hrow
  have htext : j.sign :: (gap ++ t) ++ rest = j.sign :: (gap ++ (t ++ rest)) := by simp
  show rest? (.joined j) _ = some rest
  rw [htext, rest?_joined_sign hrow]

theorem union (ih : (TypeKind.joined .union closed).Reads t) : TypeKind.whole.Reads t := by
  intro rest hapart hends
  exact rest?_whole_of_union (ih rest hapart (EndsWhole.ends_joined hends .union closed)) hends

theorem conditional {v w gap₁ gap₂ gap₃ gap₄ gap₅ gap₆ : Text}
    (hgaps : ∀ gap ∈ [gap₁, gap₂, gap₃, gap₄, gap₅, gap₆], AllBlank gap)
    (hapart : Apart t (gap₁ ++ "extends".toList)) (hstop : Stops isIdentChar (gap₂ ++ u))
    (hu : TypeText (.joined .union closed) u) (iht : (TypeKind.joined .union true).Reads t)
    (ihu : (TypeKind.joined .union closed).Reads u) (ihv : TypeKind.whole.Reads v)
    (ihw : TypeKind.whole.Reads w) :
    TypeKind.whole.Reads (t ++ (gap₁ ++ ("extends".toList ++ (gap₂ ++ (u ++
      (gap₃ ++ '?' :: (gap₄ ++ (v ++ (gap₅ ++ ':' :: (gap₆ ++ w)))))))))) := by
  intro rest hend hends
  obtain ⟨hgap₁, hgap₂, hgap₃, hgap₄, hgap₅, hgap₆⟩ :
      AllBlank gap₁ ∧ AllBlank gap₂ ∧ AllBlank gap₃ ∧ AllBlank gap₄ ∧ AllBlank gap₅ ∧
        AllBlank gap₆ := by simpa using hgaps
  let no := gap₆ ++ (w ++ rest)
  let yes := gap₄ ++ (v ++ (gap₅ ++ ':' :: no))
  let bound := gap₂ ++ (u ++ (gap₃ ++ '?' :: yes))
  have hbound : Stops isIdentChar bound := hu.stops_append nofun nofun hstop _
  -- the type that is tested
  have hplain : rest? (.joined .union) (t ++ (gap₁ ++ ("extends".toList ++ bound)))
      = some (gap₁ ++ ("extends".toList ++ bound)) := by
    refine iht _ ?_ (EndsRow.of_extends hgap₁ hbound)
    rw [← List.append_assoc gap₁]
    exact hapart.append (by simp) bound
  have hword : Text.skipBlanks (gap₁ ++ ("extends".toList ++ bound)) = "extends".toList ++ bound := by
    rw [skipBlanks_append hgap₁,
      Text.skipBlanks_of_stops TypeParameter.isWord_extends.stops_isBlank]
  have hkeyword := TypeParameter.afterKeyword?_extends hbound
  rw [← hword] at hkeyword
  -- the type that it is tested for
  have hchecked : rest? (.joined .union) bound = some (gap₃ ++ '?' :: yes) := by
    rw [rest?_joined_append hgap₂]
    exact ihu _ (apart_blanks hgap₃ (by decide) _)
      (EndsWhole.ends_joined (.of_sign hgap₃ (by simp)) .union closed)
  have hmark : Text.skipBlanks (gap₃ ++ '?' :: yes) = '?' :: yes := by
    rw [skipBlanks_append hgap₃, Text.skipBlanks_cons (by decide)]
  -- the two branches
  have hyes : rest? .whole yes = some (gap₅ ++ ':' :: no) := by
    rw [rest?_whole_append hgap₄]
    exact ihv _ (apart_blanks hgap₅ (by decide) _) (EndsWhole.of_sign hgap₅ (by simp))
  have hcolon : Text.skipBlanks (gap₅ ++ ':' :: no) = ':' :: no := by
    rw [skipBlanks_append hgap₅, Text.skipBlanks_cons (by decide)]
  have hsuffix : w <:+ t ++ (gap₁ ++ ("extends".toList ++ (gap₂ ++ (u ++ (gap₃ ++ '?' ::
      (gap₄ ++ (v ++ (gap₅ ++ ':' :: (gap₆ ++ w))))))))) :=
    ⟨t ++ (gap₁ ++ ("extends".toList ++ (gap₂ ++ (u ++ (gap₃ ++ '?' ::
      (gap₄ ++ (v ++ (gap₅ ++ ':' :: gap₆)))))))), by simp⟩
  have hno : rest? .whole (w ++ rest) = some rest := ihw rest (hend.of_suffix hsuffix) hends
  have htext : t ++ (gap₁ ++ ("extends".toList ++ (gap₂ ++ (u ++ (gap₃ ++ '?' :: (gap₄ ++ (v ++
      (gap₅ ++ ':' :: (gap₆ ++ w))))))))) ++ rest
      = t ++ (gap₁ ++ ("extends".toList ++ bound)) := by simp [bound, yes, no]
  show rest? .whole _ = some rest
  rw [htext, rest?_whole_conditional hplain hkeyword hchecked hmark hyes hcolon,
    rest?_whole_append hgap₆, hno]

theorem argument (hgap : AllBlank gap) (hgap' : AllBlank gap') (ih : TypeKind.whole.Reads t) :
    (TypeKind.arguments any).Reads (gap ++ (t ++ (gap' ++ ['>']))) := by
  intro rest hapart hends
  have htype := ih (gap' ++ '>' :: rest) (apart_blanks hgap' (by decide) _)
    (EndsWhole.of_sign hgap' (by simp))
  have htext : gap ++ (t ++ (gap' ++ ['>'])) ++ rest = gap ++ (t ++ (gap' ++ '>' :: rest)) := by simp
  show rest? (.arguments any) _ = some rest
  rw [htext, rest?_arguments_argument hgap htype, skipBlanks_append hgap']
  rfl

theorem furtherArguments {ts : Text} (hgap : AllBlank gap) (hgap' : AllBlank gap')
    (iht : TypeKind.whole.Reads t) (ihts : (TypeKind.arguments true).Reads ts) :
    (TypeKind.arguments any).Reads (gap ++ (t ++ (gap' ++ ',' :: ts))) := by
  intro rest hapart hends
  have htype := iht (gap' ++ ',' :: (ts ++ rest)) (apart_blanks hgap' (by decide) _)
    (EndsWhole.of_sign hgap' (by simp))
  have htypes := ihts rest (hapart.of_suffix ⟨gap ++ (t ++ (gap' ++ [','])), by simp⟩) trivial
  have htext : gap ++ (t ++ (gap' ++ ',' :: ts)) ++ rest
      = gap ++ (t ++ (gap' ++ ',' :: (ts ++ rest))) := by simp
  show rest? (.arguments any) _ = some rest
  rw [htext, rest?_arguments_argument hgap htype, skipBlanks_append hgap']
  exact htypes

theorem noArgument (hgap : AllBlank gap) : (TypeKind.arguments true).Reads (gap ++ ['>']) := by
  intro rest hapart hends
  show rest? (.arguments true) _ = some rest
  rw [List.append_assoc]
  exact rest?_arguments_end hgap rest

theorem default (hgap : AllBlank gap) (hgap' : AllBlank gap') (ih : TypeKind.whole.Reads t) :
    TypeKind.default.Reads ('=' :: (gap ++ (t ++ gap'))) := by
  intro rest hapart hends
  have hends : TypeParameter.Closes rest := hends
  have htype : rest? .whole (t ++ (gap' ++ rest)) = some (gap' ++ rest) :=
    ih _ (TypeText.apart_default .noDefault hends hgap' t)
      (TypeText.endsWhole_default .noDefault hends hgap' (defaultRest?_of_closes hends))
  have hvalue : rest? .whole (gap ++ (t ++ (gap' ++ rest))) = some (gap' ++ rest) := by
    rw [rest?_whole_append hgap, htype]
  have hopen := startsWithChar_of_whole hvalue (c := '>') (by simp)
  have htext : '=' :: (gap ++ (t ++ gap')) ++ rest = '=' :: (gap ++ (t ++ (gap' ++ rest))) := by simp
  rw [htext]
  show defaultRest? rest? ('=' :: (gap ++ (t ++ (gap' ++ rest)))) = some rest
  simp only [defaultRest?, hopen, hvalue, Bool.false_eq_true, if_false, Option.map_some,
    skipBlanks_append hgap', hends.skipBlanks]

theorem noBound (hd : TypeText .default d) (ih : TypeKind.default.Reads d) :
    TypeKind.bounded.Reads d := by
  intro rest hapart hends
  have hdefault : defaultRest? rest? (d ++ rest) = some rest := ih rest hapart hends
  obtain ⟨c, s, hs, hc⟩ := hd.exists_sign_default hends
  have hstop : Stops isIdentStart (d ++ rest) := by
    rw [hs]
    rcases hc with ⟨rfl, -⟩ | hc
    · exact Text.stops_cons.mpr (by decide)
    · fin_cases hc <;> exact Text.stops_cons.mpr (by decide)
  show (boundRest? rest? (d ++ rest)).bind _ = some rest
  rw [boundRest?_of_no_word hstop, Option.bind_some, hdefault]

theorem bound (hgap : AllBlank gap) (hstop : Stops isIdentChar (gap ++ t)) (ht : TypeText .whole t)
    (hgap' : AllBlank gap') (hd : TypeText .default d) (iht : TypeKind.whole.Reads t)
    (ihd : TypeKind.default.Reads d) :
    TypeKind.bounded.Reads ("extends".toList ++ (gap ++ (t ++ (gap' ++ d)))) := by
  intro rest hapart hends
  have hends : TypeParameter.Closes rest := hends
  have hdefault : defaultRest? rest? (d ++ rest) = some rest :=
    ihd rest (hapart.of_suffix ⟨"extends".toList ++ (gap ++ (t ++ gap')), by simp⟩) hends
  have htype : rest? .whole (t ++ (gap' ++ (d ++ rest))) = some (gap' ++ (d ++ rest)) :=
    iht _ (hd.apart_default hends hgap' t) (hd.endsWhole_default hends hgap' hdefault)
  have htext : "extends".toList ++ (gap ++ (t ++ (gap' ++ d))) ++ rest
      = "extends".toList ++ (gap ++ (t ++ (gap' ++ (d ++ rest)))) := by simp
  have hword := TypeParameter.afterKeyword?_extends
    (ht.stops_append nofun nofun hstop (gap' ++ (d ++ rest)))
  show (boundRest? rest? _).bind _ = some rest
  rw [htext, boundRest?, hword]
  simp only [rest?_whole_append hgap, htype, Option.map_some, Option.bind_some,
    skipBlanks_append hgap', hd.skipBlanks_default hends]
  exact hdefault

section Parameter

variable {x b : Text} (hgap : AllBlank gap) (r : ModifierRow) (hx : IsWord x)
  (hplain : parameterModifiers.contains x = false) (hgap' : AllBlank gap')
  (hstop : Stops isIdentChar (gap' ++ b)) (hb : TypeText .bounded b) (ihb : TypeKind.bounded.Reads b)

include hgap hx hplain hgap' hstop hb ihb

theorem parameter :
    (TypeKind.parameters any).Reads (gap ++ (r.text ++ (x ++ (gap' ++ (b ++ ['>']))))) := by
  intro rest hapart hends
  have hcloses := TypeParameter.closes_angle rest
  have hbounded := ihb ('>' :: rest) (.of_stops (Text.stops_cons.mpr (by decide))) hcloses
  have htext : gap ++ (r.text ++ (x ++ (gap' ++ (b ++ ['>'])))) ++ rest
      = gap ++ (r.text ++ (x ++ (gap' ++ (b ++ '>' :: rest)))) := by simp
  show rest? (.parameters any) _ = some rest
  rw [htext, rest?_parameters_parameter hgap r hx hplain hgap' hstop hcloses
    (hb.skipBlanks_bounded hcloses) hbounded]
  rfl

theorem furtherParameters {ps : Text} (hps : TypeText (.parameters true) ps)
    (ihps : (TypeKind.parameters true).Reads ps) :
    (TypeKind.parameters any).Reads (gap ++ (r.text ++ (x ++ (gap' ++ (b ++ ',' :: ps))))) := by
  intro rest hapart hends
  have hcloses := TypeParameter.closes_comma (ps ++ rest)
  have hbounded := ihb (',' :: (ps ++ rest)) (.of_stops (Text.stops_cons.mpr (by decide))) hcloses
  have hothers := ihps rest (hps.apart_parameters rest) trivial
  have htext : gap ++ (r.text ++ (x ++ (gap' ++ (b ++ ',' :: ps)))) ++ rest
      = gap ++ (r.text ++ (x ++ (gap' ++ (b ++ ',' :: (ps ++ rest))))) := by simp
  show rest? (.parameters any) _ = some rest
  rw [htext, rest?_parameters_parameter hgap r hx hplain hgap' hstop hcloses
    (hb.skipBlanks_bounded hcloses) hbounded]
  exact hothers

end Parameter

theorem noParameter (hgap : AllBlank gap) : (TypeKind.parameters true).Reads (gap ++ ['>']) := by
  intro rest hapart hends
  show rest? (.parameters true) _ = some rest
  rw [List.append_assoc]
  exact rest?_parameters_end hgap rest

end TypeKind.Reads

/-! ### Every type is read to its end -/

/-- **Every type is read to its end**, where nothing follows that it could go on with. -/
theorem TypeText.reads {k : TypeKind} {t : Text} (h : TypeText k t) : k.Reads t := by
  induction h with
  | name p hname => exact fun rest hapart hends => rest?_primary_bare p hname hapart hends
  | applied p hname hts ih => exact .applied p hname ih
  | typeOf p hgap hne =>
    intro rest hapart hends
    exact rest?_primary_typeOf p hgap hne (hapart.of_suffix ⟨_, List.append_assoc ..⟩)
  | asserted hgap hne hx =>
    intro rest hapart hends
    exact rest?_primary_asserted hgap hne hx (hapart.of_suffix ⟨_, List.append_assoc ..⟩) hends
  | number n => exact fun rest hapart _ => rest?_primary_number n hapart
  | string q => exact fun rest _ _ => rest?_primary_string q rest
  | template t => exact fun rest _ _ => rest?_primary_template t rest
  | group g => exact fun rest _ hends => rest?_primary_group g hends
  | function g hround hgap hgap' ht ih => exact .function g hround hgap hgap' ih
  | generic hps hgap ht ihps iht => exact .generic hps hgap ihps iht
  | construct hw hgap hstop ht ih => exact .construct hw hgap hstop ht ih
  | predicate hx hname hgap hne hgap' hstop ht ih =>
    exact .predicate hx hname hgap hne hgap' hstop ht ih
  | assertion hfront hfrontne hx hgap hne hgap' hstop ht ih =>
    exact .assertion hfront hfrontne hx hgap hne hgap' hstop ht ih
  | indexed ht gs hsquare ih => exact .indexed hsquare ih
  | operator hw hgap hstop ht ih => exact .operator hw hgap hstop ht ih
  | callable ht ih => exact .callable ih
  | last ht ih => exact .last ih
  | next ht hgap hgap' hu iht ihu => exact .next hgap hgap' iht ihu
  | plain ht ih => exact .plain ih
  | signed hgap ht ih => exact .signed hgap ih
  | union ht ih => exact .union ih
  | conditional ht hu hv hw hgaps hapart hstop iht ihu ihv ihw =>
    exact .conditional hgaps hapart hstop hu iht ihu ihv ihw
  | argument hgap ht hgap' ih => exact .argument hgap hgap' ih
  | furtherArguments hgap ht hgap' hts iht ihts => exact .furtherArguments hgap hgap' iht ihts
  | noArgument hgap => exact .noArgument hgap
  | noDefault => exact fun rest _ hends => defaultRest?_of_closes hends
  | default hgap ht hgap' ih => exact .default hgap hgap' ih
  | noBound hd ih => exact .noBound hd ih
  | bound hgap hstop ht hgap' hd iht ihd => exact .bound hgap hstop ht hgap' hd iht ihd
  | parameter hgap r hx hplain hgap' hstop hb ih =>
    exact .parameter hgap r hx hplain hgap' hstop hb ih
  | furtherParameters hgap r hx hplain hgap' hstop hb hps ihb ihps =>
    exact .furtherParameters hgap r hx hplain hgap' hstop hb ihb hps ihps
  | noParameter hgap => exact .noParameter hgap

theorem TypeText.afterType?_append {t rest : Text} (h : TypeText .whole t) (hapart : Apart t rest)
    (hends : EndsWhole rest) {gap : Text} (hgap : AllBlank gap) :
    afterType? (gap ++ (t ++ rest)) = some rest := by
  rw [afterType?_eq, rest?_whole_append hgap]
  exact h.reads rest hapart hends

theorem TypeText.afterTypeParameters?_append {ps : Text} (h : TypeText (.parameters false) ps)
    (rest : Text) : afterTypeParameters? ('<' :: (ps ++ rest)) = some rest := by
  rw [afterTypeParameters?_cons]
  exact h.reads rest (h.apart_parameters rest) trivial

theorem TypeText.afterTypeArguments?_append {ts : Text} (h : TypeText (.arguments false) ts)
    (rest : Text) : afterTypeArguments? ('<' :: (ts ++ rest)) = some rest := by
  rw [afterTypeArguments?_cons]
  exact h.reads rest (h.apart_arguments rest) trivial

end LivePreview.Script
