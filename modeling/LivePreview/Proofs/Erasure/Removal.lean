/-
What the eraser does with the pieces that it removes.

A sign or word that opens type syntax is handled in one step, which removes the syntax to
its end.  Each lemma names what has to be known where the step is taken: the bracket that
is open, the token in front, and what stands behind the removed piece.  Blanks in front of
`as` were kept by an earlier step and are taken back, so the removed piece includes them.
-/
import LivePreview.Proofs.Erasure.Token

namespace LivePreview.Erasure.Eraser

open Script
open Text (Stops)

variable {e : Eraser} {m : CodeMode} {s rest : Text}

/-- A piece that is removed. -/
theorem reaches_erased {c : Char} {t : Text} {rule : ErasureRule} {p : Previous}
    (h : e.rest = c :: (t ++ rest))
    (hstep : e.stepCode m c (t ++ rest) = .ok ((e.erase rule rest).inCode m p)) :
    Reaches (e.enter (.code m))
      ((e.past [.erased rule (c :: t)] rest).enter (.code (m.next p))) := by
  refine reaches_past h (List.cons_ne_nil _ _) ?_
  rw [step_code h, hstep, erase_eq (r := c :: t) rule h, inCode]

/-! ### Parameters -/

/-- What can stand behind the mark of an optional parameter. -/
def FollowsMark (s : Text) : Prop := ∃ c t, s = c :: t ∧ (c = ':' ∨ c = ',' ∨ c = ')')

theorem FollowsMark.stops {s : Text} (h : FollowsMark s) : Stops isIdentChar s := by
  obtain ⟨c, t, rfl, rfl | rfl | rfl⟩ := h <;> exact Text.stops_cons.mpr (by decide)

theorem reaches_optionalMark {w : Text} (h : e.rest = '?' :: rest)
    (hkind : m.top.kind.takesTypes = true) (hword : m.previous = .word w)
    (hrest : FollowsMark rest) :
    Reaches (e.enter (.code m))
      ((e.past [.erased .optionalMark ['?']] rest).enter (.code (m.next (.word w)))) := by
  refine reaches_erased (t := []) h ?_
  have : e.stepCode m '?' rest = .ok (e.stepQuestion m rest) := rfl
  rw [List.nil_append, this]
  obtain ⟨c, t, rfl, rfl | rfl | rfl⟩ := hrest
  all_goals
    simp [stepQuestion, hkind, hword, Previous.isWord, startsWithChar,
      Text.skipBlanks_cons (show isBlank ':' = false by decide),
      Text.skipBlanks_cons (show isBlank ',' = false by decide),
      Text.skipBlanks_cons (show isBlank ')' = false by decide)]

/-- The text of a type behind a name, with its colon. -/
def typeSuffix (t : TypeExpr) : Text := ':' :: ' ' :: t.text

theorem typeSuffix_append (t : TypeExpr) (rest : Text) :
    typeSuffix t ++ rest = ':' :: ' ' :: (t.text ++ rest) := rfl

theorem reaches_parameterType {b : Bool} {w : Text} (t : TypeExpr)
    (h : e.rest = typeSuffix t ++ rest) (hkind : m.top.kind = .round b)
    (hternaries : m.top.ternaries = 0) (hword : m.previous = .word w) (hrest : EndsType rest) :
    Reaches (e.enter (.code m))
      ((e.past [.erased .parameterType (typeSuffix t)] rest).enter
        (.code (m.next (.word w)))) := by
  refine reaches_erased h ?_
  have : e.stepCode m ':' (' ' :: t.text ++ rest)
      = .ok (e.stepColon m (' ' :: (t.text ++ rest))) := rfl
  rw [this, stepColon, hternaries, hkind, hword]
  simp only [FrameKind.takesTypes, t.afterType?_space hrest]
  rfl

/-! ### Closing brackets -/

theorem stepRoundEnd_eq {b : Bool} {s : Text} (hkind : m.top.kind = .round b) :
    e.stepRoundEnd m s
      = ((e.keep s).eraseReturnType m.top m.pop.top).inCode m.pop .value := by
  simp only [stepRoundEnd, hkind]

theorem eraseReturnType_of_stops {closed outer : Frame}
    (h : Stops (· == ':') (Text.skipBlanks e.rest)) : e.eraseReturnType closed outer = e := by
  rw [eraseReturnType]
  split
  · rename_i heq
    rw [heq] at h
    exact absurd h (by simp)
  · rfl

/-- A closing bracket without a return type behind it. -/
theorem reaches_close_round {b : Bool} (h : e.rest = ')' :: rest)
    (hkind : m.top.kind = .round b) (hrest : Stops (· == ':') (Text.skipBlanks rest)) :
    Reaches (e.enter (.code m))
      ((e.past [.kept [')']] rest).enter (.code (m.pop.next .value))) := by
  refine reaches_past h (List.cons_ne_nil _ _) ?_
  have : e.stepCode m ')' rest = .ok (e.stepRoundEnd m rest) := rfl
  rw [step_code h, this, stepRoundEnd_eq hkind, keep_cons h,
    eraseReturnType_of_stops hrest]
  rfl

/-- What can stand behind the return type of a function: an arrow, or the body if the
brackets list the parameters of a function. -/
def FollowsReturnType (kind : FrameKind) (s : Text) : Prop :=
  (∃ t, s = ' ' :: '=' :: '>' :: t) ∨ (kind = .round true ∧ ∃ t, s = ' ' :: '{' :: t)

theorem FollowsReturnType.endsType {kind : FrameKind} {s : Text} (h : FollowsReturnType kind s) :
    EndsType s := by
  obtain ⟨t, rfl⟩ | ⟨-, t, rfl⟩ := h <;> exact Text.stops_cons.mpr (by decide)

/-- Up to its colon nothing is kept, and then the type is removed. -/
theorem erase_typeSuffix {ps : List Piece} (t : TypeExpr) (rest : Text) (rule : ErasureRule)
    (hkept : EndsVisibly (keptText ps)) :
    (((e.past ps (typeSuffix t ++ rest)).keep (':' :: ' ' :: (t.text ++ rest))).trimOut).erase
        rule rest
      = e.past (ps ++ [.erased rule (typeSuffix t)]) rest := by
  have hrest : (e.past ps (typeSuffix t ++ rest)).rest = [] ++ (typeSuffix t ++ rest) := rfl
  rw [← typeSuffix_append, keep_eq hrest, past_past]
  exact erase_trimOut_past _ _ _ (by simp) hkept

theorem eraseReturnType_eq {ps : List Piece} {closed outer : Frame} (t : TypeExpr)
    (hternaries : outer.ternaries = 0) (hkept : EndsVisibly (keptText ps))
    (hrest : FollowsReturnType closed.kind rest) :
    (e.past ps (typeSuffix t ++ rest)).eraseReturnType closed outer
      = e.past (ps ++ [.erased .returnType (typeSuffix t)]) rest := by
  have hpass : Text.skipBlanks (typeSuffix t ++ rest) = ':' :: ' ' :: (t.text ++ rest) :=
    Text.skipBlanks_cons (by decide)
  have herase := erase_typeSuffix (e := e) t rest .returnType hkept
  simp only [eraseReturnType, past_rest, hpass, hternaries, t.afterType?_space hrest.endsType]
  rw [if_neg (by decide)]
  obtain ⟨s, rfl⟩ | ⟨hkind, s, rfl⟩ := hrest
  · simpa [Text.skipBlanks_cons (show isBlank '=' = false by decide)] using herase
  · simpa [Text.skipBlanks_cons (show isBlank '{' = false by decide), hkind] using herase

/-- A closing bracket with a return type behind it. -/
theorem reaches_close_round_returnType {b : Bool} (t : TypeExpr)
    (h : e.rest = ')' :: (typeSuffix t ++ rest)) (hkind : m.top.kind = .round b)
    (hternaries : m.pop.top.ternaries = 0) (hrest : FollowsReturnType m.top.kind rest) :
    Reaches (e.enter (.code m))
      ((e.past [.kept [')'], .erased .returnType (typeSuffix t)] rest).enter
        (.code (m.pop.next .value))) := by
  have hstep : (e.enter (.code m)).step
      = .ok ((e.past [.kept [')'], .erased .returnType (typeSuffix t)] rest).enter
        (.code (m.pop.next .value))) := by
    have : e.stepCode m ')' (typeSuffix t ++ rest)
        = .ok (e.stepRoundEnd m (typeSuffix t ++ rest)) := rfl
    have hkeep : e.keep (typeSuffix t ++ rest) = e.past [.kept [')']] (typeSuffix t ++ rest) :=
      keep_eq h
    have hlast : EndsVisibly (keptText [.kept [')']]) :=
      endsVisibly_singleton (c := ')') (by decide)
    rw [step_code h, this, stepRoundEnd_eq hkind, hkeep, eraseReturnType_eq t hternaries hlast hrest]
    rfl
  exact reaches_pieces (by simpa using h) (List.cons_ne_nil _ _) hstep

/-- The piece that the type behind a name is, where there is one. -/
def annotationPieces (rule : ErasureRule) : Option TypeExpr → List Piece
  | none => []
  | some t => [.erased rule (typeSuffix t)]

/-- The bracket that closes a list of parameters, with a return type behind it or not. -/
theorem reaches_close_parameters {b : Bool} (t : Option TypeExpr)
    (h : e.rest = ')' :: (wholeText (annotationPieces .returnType t) ++ rest))
    (hkind : m.top.kind = .round b) (hternaries : m.pop.top.ternaries = 0)
    (hrest : FollowsReturnType m.top.kind rest) :
    Reaches (e.enter (.code m))
      ((e.past (.kept [')'] :: annotationPieces .returnType t) rest).enter
        (.code (m.pop.next .value))) := by
  cases t with
  | some t =>
    refine reaches_close_round_returnType t ?_ hkind hternaries hrest
    simpa [annotationPieces] using h
  | none =>
    refine reaches_close_round h hkind ?_
    obtain ⟨s, rfl⟩ | ⟨-, s, rfl⟩ := hrest <;> exact Text.stops_cons.mpr (by decide)

/-! ### Variables -/

theorem endsVisibly_word {w : Text} (hw : IsWord w) : EndsVisibly w := by
  obtain ⟨c, hc, hchar⟩ := hw.getLast?
  exact ⟨c, hc, isInline_eq_false_of_identChar hchar⟩

/-- The words that declare a printed variable. -/
inductive VariableWord where
  | const
  | let
deriving DecidableEq, Repr

/-- The text of such a word. -/
def VariableWord.text : VariableWord → Text
  | const => "const".toList
  | «let» => "let".toList

theorem VariableWord.isWord (k : VariableWord) : IsWord k.text := by
  cases k <;> exact isWord_of_all (by decide) (by decide)

/-- What stands behind the name of a variable and its type. -/
def FollowsVariable (s : Text) : Prop := ∃ t, s = ' ' :: '=' :: ' ' :: t

theorem FollowsVariable.endsType {s : Text} (h : FollowsVariable s) : EndsType s := by
  obtain ⟨t, rfl⟩ := h
  exact Text.stops_cons.mpr (by decide)

theorem eraseVariableType_eq {ps : List Piece} (t : Option TypeExpr)
    (hkept : EndsVisibly (keptText ps))
    (hrest : FollowsVariable rest) :
    (e.past ps (wholeText (annotationPieces .variableType t) ++ rest)).eraseVariableType
      = e.past (ps ++ annotationPieces .variableType t) rest := by
  cases t with
  | none =>
    obtain ⟨s, rfl⟩ := hrest
    simp [annotationPieces, eraseVariableType, Text.skipBlanks_cons (show isBlank '=' = false by
      decide)]
  | some t =>
    have hpass : Text.skipBlanks (typeSuffix t ++ rest) = ':' :: ' ' :: (t.text ++ rest) :=
      Text.skipBlanks_cons (by decide)
    simp only [annotationPieces, wholeText_erased, wholeText_nil, List.append_nil,
      eraseVariableType, past_rest, hpass, t.afterType?_space hrest.endsType,
      erase_typeSuffix t rest .variableType hkept]

/-- Behind the word, the name is kept and the type is removed. -/
theorem eraseVariable_eq (x : Name) (t : Option TypeExpr)
    (h : e.rest = ' ' :: (x.text ++ (wholeText (annotationPieces .variableType t) ++ rest)))
    (hrest : FollowsVariable rest) :
    e.eraseVariable
      = (e.past (.kept (' ' :: x.text) :: annotationPieces .variableType t) rest,
        .word x.text) := by
  have hstop : Stops (fun c => isIdentChar c || c == '!')
      (wholeText (annotationPieces .variableType t) ++ rest) := by
    cases t with
    | none =>
      obtain ⟨s, rfl⟩ := hrest
      exact Text.stops_cons.mpr (by decide)
    | some t => exact Text.stops_cons.mpr (by decide)
  have hchar := Text.stops_mono (p := isIdentChar) (fun c hc => by simp [hc]) hstop
  have hname : Text.skipBlanks e.rest
      = x.text ++ (wholeText (annotationPieces .variableType t) ++ rest) := by
    rw [h, Text.skipBlanks_space, Text.skipBlanks_of_stops x.isWord.stops_isBlank]
  have hpattern : afterPattern? (x.text ++ (wholeText (annotationPieces .variableType t) ++ rest))
      = some (wholeText (annotationPieces .variableType t) ++ rest) := by
    have hskip := x.isWord.skipIdent_append hchar
    obtain ⟨c, s, hs, hc⟩ := x.isWord.head
    rw [hs] at hskip ⊢
    have hne : c ≠ '{' ∧ c ≠ '[' := by
      constructor <;> rintro rfl <;> exact absurd hc (by decide)
    simp only [List.cons_append] at hskip ⊢
    simp [afterPattern?, hne, hc, hskip]
  have hkeep : e.keep (wholeText (annotationPieces .variableType t) ++ rest)
      = e.past [.kept (' ' :: x.text)] (wholeText (annotationPieces .variableType t) ++ rest) :=
    keep_eq h
  have hdefinite : (e.past [.kept (' ' :: x.text)]
        (wholeText (annotationPieces .variableType t) ++ rest)).eraseDefinite
      = e.past [.kept (' ' :: x.text)]
        (wholeText (annotationPieces .variableType t) ++ rest) := by
    simp only [eraseDefinite, past_rest]
    split
    · rename_i heq
      rw [heq] at hstop
      exact absurd hstop (by simp)
    · rfl
  have hlast : EndsVisibly (keptText [.kept (' ' :: x.text)]) := by
    simpa using (endsVisibly_word x.isWord).append [' ']
  simp only [eraseVariable, hname, hpattern, hkeep, hdefinite, eraseVariableType_eq t hlast hrest,
    patternToken, x.isWord.word?_append hchar]
  rfl

theorem stepWord_variable {w : Text} (hw : IsWord w) (hvariable : variableWords.contains w = true)
    (h : e.rest = w ++ rest) (hrest : Stops isIdentChar rest)
    (henum : word? (Text.skipBlanks rest) ≠ some "enum".toList)
    (hprevious : m.previous ≠ .sign '.') :
    e.stepWord m = .ok ((e.keep rest).eraseVariable.1.inCode
      m.listDeclarators (e.keep rest).eraseVariable.2) := by
  have hne : ∀ x : String, variableWords.contains x.toList = false → w ≠ x.toList := by
    rintro x hx rfl
    rw [hx] at hvariable
    exact Bool.noConfusion hvariable
  have hsign : (m.previous != .sign '.') = true := by simpa using hprevious
  simp only [stepWord, h, hw.ident_append hrest, hw.skipIdent_append hrest, hvariable, hsign, henum,
    hne "interface" (by decide), hne "type" (by decide), hne "declare" (by decide),
    hne "enum" (by decide), hne "abstract" (by decide), hne "class" (by decide), decide_false,
    Bool.false_and, Bool.and_false, Bool.false_eq_true, if_false, Bool.and_self, if_true]
  rfl

/-- A declaration of a variable, up to behind its type. -/
theorem reaches_variable (k : VariableWord) (x : Name) (t : Option TypeExpr)
    (h : e.rest = k.text ++
      ' ' :: (x.text ++ (wholeText (annotationPieces .variableType t) ++ rest)))
    (hprevious : m.previous ≠ .sign '.') (hrest : FollowsVariable rest) :
    Reaches (e.enter (.code m))
      ((e.past (.kept k.text :: .kept (' ' :: x.text) :: annotationPieces .variableType t)
        rest).enter
        (.code (m.listDeclarators.next (.word x.text)))) := by
  have hchar : Stops isIdentChar (wholeText (annotationPieces .variableType t) ++ rest) := by
    cases t with
    | none =>
      obtain ⟨s, rfl⟩ := hrest
      exact Text.stops_cons.mpr (by decide)
    | some t => exact Text.stops_cons.mpr (by decide)
  have henum : word? (Text.skipBlanks
      (' ' :: (x.text ++ (wholeText (annotationPieces .variableType t) ++ rest))))
      ≠ some "enum".toList := by
    rw [Text.skipBlanks_space, Text.skipBlanks_of_stops x.isWord.stops_isBlank,
      x.isWord.word?_append hchar]
    simpa using x.ne_of_special (w := "enum".toList) (by decide)
  have hvariable : variableWords.contains k.text = true := by cases k <;> decide
  have hkeep : e.keep (' ' :: (x.text ++ (wholeText (annotationPieces .variableType t) ++ rest)))
      = e.past [.kept k.text]
        (' ' :: (x.text ++ (wholeText (annotationPieces .variableType t) ++ rest))) :=
    keep_eq h
  have hword := stepWord_variable k.isWord hvariable h (Text.stops_cons.mpr (by decide)) henum
    hprevious
  rw [hkeep, eraseVariable_eq x t rfl hrest, past_past] at hword
  exact reaches_pieces (by simpa using h) (by simp) (by rw [step_word k.isWord h, hword]; rfl)

/-! ### Assertions -/

/-- The words that assert a type. -/
inductive AssertionWord where
  | as
  | satisfies
deriving DecidableEq, Repr

namespace AssertionWord

/-- The text of such a word. -/
def text : AssertionWord → Text
  | as => "as".toList
  | satisfies => "satisfies".toList

/-- The rule that removes such an assertion. -/
def rule : AssertionWord → ErasureRule
  | as => .asAssertion
  | satisfies => .satisfiesCheck

theorem isWord (k : AssertionWord) : IsWord k.text := by
  cases k <;> exact isWord_of_all (by decide) (by decide)

end AssertionWord

/-- The text of an assertion, with the blank in front of it. -/
def assertion (k : AssertionWord) (t : TypeExpr) : Text := ' ' :: k.text ++ ' ' :: t.text

theorem stepWord_assertion {w : Text} (hw : IsWord w)
    (hassert : (decide (w = "as".toList) || decide (w = "satisfies".toList)) = true)
    (h : e.rest = w ++ s) (hs : Stops isIdentChar s)
    (hconst : word? (Text.skipBlanks s) ≠ some "const".toList)
    (hblank : (Text.skipBlanks s).length < s.length)
    (hends : m.previous.endsExpression = true) (hrest : afterType? s = some rest) :
    e.stepWord m = .ok ((e.trimOut.erase
      (if w = "as".toList then .asAssertion else .satisfiesCheck) rest).inCode m m.previous) := by
  have hne : ∀ x : String, (decide (x.toList = "as".toList) || decide (x.toList =
      "satisfies".toList)) = false → w ≠ x.toList := by
    rintro x hx rfl
    rw [hx] at hassert
    exact Bool.noConfusion hassert
  have hvariable : variableWords.contains w = false := by
    by_contra hc
    have hmem : w ∈ variableWords := by simpa using hc
    have hsub : ∀ x ∈ variableWords, (decide (x = "as".toList) || decide (x =
      "satisfies".toList)) = false := by decide
    rw [hsub w hmem] at hassert
    exact Bool.noConfusion hassert
  simp only [stepWord, h, hw.ident_append hs, hw.skipIdent_append hs, hvariable, hassert,
    hconst, hblank, hends, hrest, hne "interface" (by decide), hne "type" (by decide),
    hne "declare" (by decide), hne "enum" (by decide), hne "const" (by decide),
    hne "abstract" (by decide), hne "class" (by decide), hne "this" (by decide), decide_false,
    decide_true, Bool.false_and, Bool.and_false, Bool.true_or, Bool.false_eq_true, if_false,
    Bool.and_self, if_true]

theorem AssertionWord.rule_eq (k : AssertionWord) :
    (if k.text = "as".toList then .asAssertion else .satisfiesCheck) = k.rule := by
  cases k <;> decide

/-- An assertion behind an expression is removed with the blank in front of it. -/
theorem reaches_assertion (k : AssertionWord) (t : TypeExpr) {ps : List Piece}
    (hkept : EndsVisibly (keptText ps))
    (hends : m.previous.endsExpression = true) (hrest : EndsType rest) :
    Reaches ((e.past ps (assertion k t ++ rest)).enter (.code m))
      ((e.past (ps ++ [.erased k.rule (assertion k t)]) rest).enter
        (.code (m.next m.previous))) := by
  have hspace : Reaches ((e.past ps (assertion k t ++ rest)).enter (.code m))
      ((e.past (ps ++ [.kept [' ']]) (k.text ++ ' ' :: (t.text ++ rest))).enter (.code m)) := by
    have htext : (e.past ps (assertion k t ++ rest)).rest
        = ' ' :: (k.text ++ ' ' :: (t.text ++ rest)) := by simp [assertion]
    simpa using reaches_space (m := m) htext
  have hpass : Text.skipBlanks (' ' :: (t.text ++ rest)) = t.text ++ rest := by
    obtain ⟨c, s, hs, hc⟩ := t.head
    rw [Text.skipBlanks_space, hs]
    exact Text.skipBlanks_cons (isBlank_eq_false_of_opensType hc)
  have hchar : Stops isIdentChar rest :=
    Text.stops_mono (fun c hc => by simp [hc]) hrest.endsName.char
  have hconst : word? (Text.skipBlanks (' ' :: (t.text ++ rest))) ≠ some "const".toList := by
    intro hword
    rw [hpass] at hword
    exact absurd (t.word?_text hchar hword) (by decide)
  have hblank : (Text.skipBlanks (' ' :: (t.text ++ rest))).length
      < (' ' :: (t.text ++ rest)).length := by
    rw [hpass]
    exact Nat.lt_succ_self _
  have hassert : (decide (k.text = "as".toList) || decide (k.text = "satisfies".toList)) = true := by
    cases k <;> decide
  have herase : ((e.past (ps ++ [.kept [' ']]) (k.text ++ ' ' :: (t.text ++ rest))).trimOut).erase
      k.rule rest = e.past (ps ++ [.erased k.rule (assertion k t)]) rest := by
    have htext : k.text ++ ' ' :: (t.text ++ rest) = (k.text ++ ' ' :: t.text) ++ rest := by simp
    rw [htext, erase_trimOut_past _ _ _ (by simp [isInline]) hkept]
    rfl
  refine hspace.trans (.one ?_ ?_)
  · rw [step_word k.isWord rfl, stepWord_assertion k.isWord hassert rfl
      (Text.stops_cons.mpr (by decide)) hconst hblank hends (t.afterType?_space hrest), k.rule_eq, herase]
    rfl
  · simp only [enter_rest, past_rest, List.length_append, List.length_cons]
    omega

/-! ### Type arguments -/

/-- The rule that removes the type arguments of a call of `w`. -/
def argumentsRule (w : Text) : ErasureRule :=
  if hookNames.contains w then .hookArguments else .callArguments

/-- A list between angle brackets behind a name, and in front of round brackets, is removed
whichever kind of list it is read as. -/
theorem reaches_angleList (x : Name) {list : Text} (h : e.rest = '<' :: (list ++ '(' :: rest))
    (hread : (afterTypeArguments? e.rest).or (afterTypeParameters? e.rest) = some ('(' :: rest))
    (hbefore : e.before.any isIdentChar = true) (hword : m.previous = .word x.text) :
    Reaches (e.enter (.code m))
      ((e.past [.erased (argumentsRule x.text) ('<' :: list)] ('(' :: rest)).enter
        (.code (m.next (.word x.text)))) := by
  refine reaches_erased h ?_
  have hstep : e.stepCode m '<' (list ++ '(' :: rest)
      = .ok (e.stepAngle m (list ++ '(' :: rest)) := rfl
  have hasync : (m.previous == .word "async".toList) = false := by
    have := x.ne_of_special (w := "async".toList) (by decide)
    simpa [hword] using this
  have hstart : m.previous.expressionMayStart = false := by
    rw [hword]
    exact x.not_contains (by decide +kernel)
  have harguments : e.afterCallArguments? m.previous
      = some (argumentsRule x.text, '(' :: rest) := by
    have hopen : startsWithChar '(' (Text.skipBlanks ('(' :: rest)) = true := by
      rw [Text.skipBlanks_cons (by decide)]
      rfl
    simp only [afterCallArguments?, hword, x.not_isReserved, hbefore, hread, hopen,
      Option.bind_some, Bool.or_true, Bool.not_true, Bool.or_false, Bool.false_eq_true, if_false,
      Bool.true_or, if_true, argumentsRule]
  rw [hstep, stepAngle, hasync, hstart, harguments, hword]
  rfl

end LivePreview.Erasure.Eraser
