/-
Steps over bytes, one token of code at a time.

Behind a token the eraser looks for a type, for the end of a list or of a regular expression, or for
an arrow.  Each of these is found in the bytes where it is found in the text, so the same is kept
and the same is removed.
-/
import LivePreview.Proofs.Erasure.ByteSteps

namespace LivePreview.Erasure

open Script EnumObject
open Text (spread isAscii Uniform spread_ascii exists_of_spread_eq_cons)

variable {code s t rest : Text} {c d : Char} {ds : Text} {e : Eraser}

namespace Bytewise

/-! ### Arrows -/

theorem isPrefixOf_eq_false (h : ∀ t, s ≠ '=' :: '>' :: t) : "=>".toList.isPrefixOf s = false := by
  rw [Bool.eq_false_iff, ne_eq, List.isPrefixOf_iff_prefix]
  rintro ⟨t, ht⟩
  exact h t ht.symm

theorem startsWithChar_eq_false (h : ∀ t, s ≠ c :: t) : startsWithChar c s = false := by
  cases s with
  | nil => rfl
  | cons d s =>
    have hne : d ≠ c := fun hd => h s (by rw [hd])
    simpa [startsWithChar] using hne

/-- What follows a return type is told by its first characters. -/
theorem follows_eq (body : Bool) (next : Text) :
    (match next with
      | '=' :: '>' :: _ => true
      | '{' :: _ => body
      | _ => false) = ("=>".toList.isPrefixOf next || startsWithChar '{' next && body) := by
  split
  · rfl
  · rfl
  · rename_i harrow hbrace
    rw [isPrefixOf_eq_false harrow, startsWithChar_eq_false hbrace]
    rfl

/-- What follows the parameters of an arrow function is told by its first characters. -/
theorem arrow_eq (isExplicit : Bool) (next : Text) :
    (match next with
      | '=' :: '>' :: _ => true
      | ':' :: _ => isExplicit
      | _ => false) = ("=>".toList.isPrefixOf next || startsWithChar ':' next && isExplicit) := by
  split
  · rfl
  · rfl
  · rename_i harrow hcolon
    rw [isPrefixOf_eq_false harrow, startsWithChar_eq_false hcolon]
    rfl

theorem text_afterArrowParameters?_eq (s : Text) : Erasure.afterArrowParameters? s
    = (afterTypeParameters? s).filter fun rest =>
      let inside := (Text.consumed s rest).tail.dropLast
      let list := Text.skipBlanks rest
      startsWithChar '(' list && (afterGroup? list).any fun closed =>
        let next := Text.skipBlanks closed
        "=>".toList.isPrefixOf next ||
          startsWithChar ':' next && (inside.contains ',' || Text.occurs " extends ".toList inside) := by
  unfold Erasure.afterArrowParameters?
  congr 1
  funext rest
  dsimp only
  congr 1
  cases afterGroup? (Text.skipBlanks rest) with
  | none => rfl
  | some closed => exact arrow_eq _ _

/-! ### Question marks -/

theorem chains_spread (s : Text) : chains (spread s) = chains s := by
  unfold chains
  split
  · rename_i u hu
    obtain ⟨v, rfl, rfl⟩ := exists_of_spread_eq_cons rfl hu
    exact congrArg not (any_head?_spread uniform_isAsciiDigit v)
  · rename_i hdot
    split
    · exact absurd (spread_ascii rfl _) (hdot _)
    · rfl

theorem startsWithChar_of_chains (h : chains s = true) : startsWithChar '.' s = true := by
  unfold chains at h
  split at h
  · rfl
  · cases h

theorem marks_spread (m : CodeMode) (s : Text) : marks m (spread s) = marks m s := by
  have huniform : Uniform (fun c => c == ',' || c == ')' || c == '=' || c == ';') false :=
    uniform_or (uniform_or (uniform_or (uniform_eq rfl) (uniform_eq rfl)) (uniform_eq rfl))
      (uniform_eq rfl)
  simp only [marks, Text.skipBlanks_spread, startsWithChar_spread (c := ':') rfl,
    startsWithChar_spread (c := '=') rfl, any_head?_spread huniform]

theorem any_head?_separates (next : Text) :
    (match next with
      | c :: _ => c == ',' || c == ')' || c == '=' || c == ';'
      | [] => false) = next.head?.any fun c => c == ',' || c == ')' || c == '=' || c == ';' := by
  cases next <;> rfl

theorem text_stepQuestion_of_plain (h : ∀ t, s ≠ '?' :: t) (e : Eraser) (m : CodeMode) :
    e.stepQuestion m s = if chains s then e.keepToken m (s.drop 1) (.sign '.')
      else if marks m s then (e.erase .optionalMark s).inCode m m.previous
      else e.keepToken { m with top := { m.top with ternaries := m.top.ternaries + 1 } } s
        (.sign '?') := by
  unfold Eraser.stepQuestion
  split
  · exact absurd rfl (h _)
  · rw [marks, ← any_head?_separates]
    rfl

/-! ### Angle brackets -/

theorem afterArrowParameters?_spread (hs : s <:+ code) :
    afterArrowParameters? code (spread s)
      = .ok ((Erasure.afterArrowParameters? s).map spread) := by
  rw [text_afterArrowParameters?_eq, afterArrowParameters?, afterTypeParameters?_spread]
  cases hlist : afterTypeParameters? s with
  | none => rfl
  | some rest =>
    obtain ⟨inside, hinside⟩ := exists_angles_of_afterTypeParameters? hlist
    have hslice := slice_between (hinside ▸ hs) rfl rfl
    rw [← hinside] at hslice
    have hclosed : ∀ {closed : Text}, afterGroup? (Text.skipBlanks rest) = some closed →
        Text.skipBlanks closed <:+ code := by
      intro closed h
      have hrest : rest <:+ s := by
        rw [hinside]
        exact ⟨'<' :: (inside ++ ['>']), by simp⟩
      exact (Text.suffix_skipBlanks _).trans ((suffix_afterGroup? h).trans
        ((Text.suffix_skipBlanks _).trans (hrest.trans hs)))
    simp only [Option.map_some, hslice, ok_bind, Text.skipBlanks_spread, afterGroup?_spread,
      startsWithChar_spread (c := '(') rfl, Option.filter_some]
    cases startsWithChar '(' (Text.skipBlanks rest) with
    | false => rfl
    | true =>
      cases hgroup : afterGroup? (Text.skipBlanks rest) with
      | none => rfl
      | some closed =>
        simp only [Option.map_some, Text.skipBlanks_spread, arrowAt_spread (hclosed hgroup), ok_bind,
          startsWithChar_spread (c := ':') rfl, Option.any_some, Bool.true_and, Bool.not_true,
          Bool.false_eq_true, if_false]
        split <;> rfl

theorem afterCallArguments?_inBytes (e : Eraser) (previous : Previous) :
    e.inBytes.afterCallArguments? previous
      = (e.afterCallArguments? previous).map fun found => (found.1, spread found.2) := by
  cases previous with
  | word w =>
    simp only [Eraser.afterCallArguments?, Eraser.any_before_inBytes uniform_isIdentChar,
      Eraser.inBytes_rest, afterTypeArguments?_spread, afterTypeParameters?_spread]
    split
    · rfl
    · have hor : ((afterTypeArguments? e.rest).map spread).or ((afterTypeParameters? e.rest).map spread)
          = ((afterTypeArguments? e.rest).or (afterTypeParameters? e.rest)).map spread := by
        cases afterTypeArguments? e.rest <;> rfl
      rw [hor]
      cases (afterTypeArguments? e.rest).or (afterTypeParameters? e.rest) with
      | none => rfl
      | some rest =>
        simp only [Option.map_some, Option.bind_some, Text.skipBlanks_spread,
          startsWithChar_spread (c := '(') rfl, startsWithChar_spread (c := '\x60') rfl]
        split <;> rfl
  | _ => rfl

/-! ### Later declarators -/

theorem definite?_spread (s : Text) : definite? (spread s) = (definite? s).map spread := by
  unfold definite?
  split
  · rename_i u hu
    obtain ⟨v, rfl, hv⟩ := exists_of_spread_eq_cons rfl hu
    obtain ⟨w, rfl, rfl⟩ := exists_of_spread_eq_cons rfl hv.symm
    exact congrArg some hv
  · rename_i hbang
    split
    · exact absurd (by rw [spread_ascii rfl, spread_ascii rfl]) (hbang _)
    · rfl

theorem suffix_definite (s : Text) : (definite? s).getD s <:+ s := by
  unfold definite?
  split
  · exact List.suffix_cons _ _
  · exact List.suffix_rfl

theorem goesOn_spread (s : Text) : goesOn (spread s) = goesOn s := by
  have huniform : Uniform (fun c => c == '=' || c == ',' || c == ';') false :=
    uniform_or (uniform_or (uniform_eq rfl) (uniform_eq rfl)) (uniform_eq rfl)
  rw [goesOn, goesOn, Text.skipBlanks_spread]
  obtain ⟨h, hs⟩ | ⟨c, t, -, h, hs⟩ | ⟨c, t, d, ds, hc, hd, h, hs⟩ :=
    Text.spread_cases (Text.skipBlanks s)
  · rw [hs, h]
  · rw [hs, h, List.head?_cons, List.head?_cons]
  · rw [hs, h, List.head?_cons, List.head?_cons, Option.all_some, Option.all_some]
    exact (huniform d hd).trans (huniform c hc).symm

theorem goesOn_eq (s : Text) :
    goesOn s = match Text.skipBlanks s with
      | [] => true
      | c :: _ => c == '=' || c == ',' || c == ';' := by
  rw [goesOn]
  cases Text.skipBlanks s <;> rfl

theorem text_eraseDeclarator?_eq (e : Eraser) : e.eraseDeclarator?
    = if !startsIdent (Text.skipBlanks e.rest) then none
      else if isReserved (ident (Text.skipBlanks e.rest)) then none
      else match Text.skipBlanks ((definite? (skipIdent (Text.skipBlanks e.rest))).getD
          (skipIdent (Text.skipBlanks e.rest))) with
        | ':' :: s =>
          match afterType? s with
          | none => none
          | some rest =>
            if !goesOn rest then none
            else some ((match definite? (skipIdent (Text.skipBlanks e.rest)) with
                | some colon => (e.keep (skipIdent (Text.skipBlanks e.rest))).erase .nonNull colon
                | none => e.keep (skipIdent (Text.skipBlanks e.rest))).erase .variableType rest,
              .word (ident (Text.skipBlanks e.rest)))
        | _ => none := by
  unfold Eraser.eraseDeclarator?
  dsimp only
  cases startsIdent (Text.skipBlanks e.rest) with
  | false => rfl
  | true =>
    cases isReserved (ident (Text.skipBlanks e.rest)) with
    | true => rfl
    | false =>
      simp only [goesOn_eq]
      rfl

/-! ### Tokens -/

theorem stepToken_of_wide (hd : isAscii d = false) (b : Eraser) (m : CodeMode) (t : Text) :
    stepToken code b m d t = (keepChar code b).map fun b => b.inCode m .value := by
  have hbig : ¬d.toNat < 128 := of_decide_eq_false hd
  have hdot : d ≠ '.' := ne_of_wide hd rfl
  simp only [stepToken, uniform_isIdentStart d hd, uniform_isQuote d hd, uniform_isAsciiDigit d hd,
    hdot, hbig, decide_false, Bool.false_and, Bool.false_eq_true, if_false]
  repeat rw [if_neg (ne_of_wide hd rfl)]

theorem text_stepToken_of_wide (hc : isAscii c = false) (e : Eraser) (m : CodeMode) (s : Text) :
    e.stepToken m c s = .ok (e.keepToken m s .value) := by
  have hbig : ¬c.toNat < 128 := of_decide_eq_false hc
  have hdot : c ≠ '.' := ne_of_wide hc rfl
  simp only [Eraser.stepToken, uniform_isIdentStart c hc, uniform_isQuote c hc,
    uniform_isAsciiDigit c hc, hdot, hbig, decide_false, Bool.false_and, Bool.false_eq_true, if_false]
  repeat rw [if_neg (ne_of_wide hc rfl)]

section

variable (he : e.rest <:+ code)

include he

theorem eraseReturnType_inBytes (closed outer : Frame) :
    eraseReturnType code e.inBytes closed outer = .ok (e.eraseReturnType closed outer).inBytes := by
  have hblanks := Text.suffix_skipBlanks e.rest
  unfold eraseReturnType Eraser.eraseReturnType
  rw [Eraser.inBytes_rest, Text.skipBlanks_spread]
  split
  · rename_i u hu
    obtain ⟨v, hv, rfl⟩ := exists_of_spread_eq_cons rfl hu
    rw [hv] at hblanks
    simp only [hv, afterType?_spread]
    refine ok_ite (fun _ => rfl) fun _ => ?_
    cases htype : afterType? v with
    | none => rfl
    | some rest =>
      have hrest : rest <:+ ((e.keep (':' :: v)).trimOut).rest :=
        (suffix_afterType? htype).trans (List.suffix_cons ':' v)
      have hnext : Text.skipBlanks rest <:+ code :=
        (Text.suffix_skipBlanks rest).trans ((hrest.trans hblanks).trans he)
      simp only [Option.map_some, Text.skipBlanks_spread, arrowAt_spread hnext, ok_bind,
        startsWithChar_spread (c := '{') rfl]
      rw [← follows_eq]
      refine ok_ite (fun _ => ?_) fun _ => rfl
      rw [← spread_ascii rfl, keep_inBytes he hblanks, map_ok, ← Eraser.erase_inBytes _ hrest]
      rfl
  · rename_i hcolon
    split
    · rename_i v hv
      exact absurd (by rw [hv, spread_ascii rfl]) (hcolon _)
    · rfl

theorem stepRoundEnd_inBytes (hs : s <:+ e.rest) (m : CodeMode) :
    stepRoundEnd code e.inBytes m (spread s) = .ok (e.stepRoundEnd m s).inBytes := by
  have hkept : (e.keep s).rest <:+ code := hs.trans he
  unfold stepRoundEnd Eraser.stepRoundEnd
  cases m.top.kind with
  | round parameters =>
    dsimp only
    rw [keep_inBytes he hs, bind_ok, eraseReturnType_inBytes hkept]
    rfl
  | root => exact keepToken_inBytes he hs m .value
  | square => exact keepToken_inBytes he hs m .value
  | block => exact keepToken_inBytes he hs m .value
  | classBody => exact keepToken_inBytes he hs m .value

theorem stepSlash_inBytes (hs : s <:+ e.rest) (m : CodeMode) :
    stepSlash code e.inBytes m (spread s) = .ok (e.stepSlash m s).inBytes := by
  unfold stepSlash Eraser.stepSlash
  refine ok_ite (fun _ => ?_) fun _ => keepToken_inBytes he hs m _
  rw [regexRest?_spread]
  cases hregex : regexRest? false s with
  | none => exact keepToken_inBytes he hs m _
  | some rest => exact keepToken_inBytes he ((suffix_regexRest? hregex).trans hs) m _

theorem stepQuestion_inBytes (hs : s <:+ e.rest) (m : CodeMode) :
    stepQuestion code e.inBytes m (spread s) = .ok (e.stepQuestion m s).inBytes := by
  by_cases hquestion : ∃ t, s = '?' :: t
  · obtain ⟨t, rfl⟩ := hquestion
    rw [spread_ascii rfl]
    exact keepToken_inBytes he (Text.suffix_of_cons hs) m _
  rw [text_stepQuestion_of_plain fun t ht => hquestion ⟨t, ht⟩]
  unfold stepQuestion
  split
  · rename_i u hu
    obtain ⟨v, rfl, -⟩ := exists_of_spread_eq_cons rfl hu
    exact absurd ⟨v, rfl⟩ hquestion
  rw [chains_spread, marks_spread]
  refine ok_ite (fun hchains => ?_) fun _ => ok_ite (fun _ => ?_) fun _ => ?_
  · rw [drop_one_spread rfl (startsWithChar_of_chains hchains)]
    exact keepToken_inBytes he ((List.drop_suffix 1 s).trans hs) m _
  · rw [Eraser.erase_inBytes _ hs]
    rfl
  · exact keepToken_inBytes he hs _ _

theorem stepColon_inBytes (hs : s <:+ e.rest) (m : CodeMode) :
    stepColon code e.inBytes m (spread s) = .ok (e.stepColon m s).inBytes := by
  unfold stepColon Eraser.stepColon
  refine ok_ite (fun _ => keepToken_inBytes he hs _ _) fun _ => ?_
  dsimp only
  generalize (m.top.kind.takesTypes && _) = annotates
  cases annotates with
  | false => exact keepToken_inBytes he hs m _
  | true =>
    rw [if_pos rfl, if_pos rfl, afterType?_spread]
    cases htype : afterType? s with
    | none => exact keepToken_inBytes he hs m _
    | some rest =>
      rw [Option.map_some]
      dsimp only
      rw [Eraser.erase_inBytes _ ((suffix_afterType? htype).trans hs)]
      rfl

theorem stepBang_inBytes (hs : s <:+ e.rest) (m : CodeMode) :
    stepBang code e.inBytes m (spread s) = .ok (e.stepBang m s).inBytes := by
  have huniform : Uniform (fun c => !isBlank c) true := fun c hc => by
    show (!isBlank c) = true
    rw [Text.uniform_isBlank c hc, Bool.not_false]
  unfold stepBang Eraser.stepBang
  rw [Eraser.any_before_inBytes huniform, startsWithChar_spread rfl]
  refine ok_ite (fun _ => ?_) fun _ => keepToken_inBytes he hs m _
  rw [Eraser.erase_inBytes _ hs]
  rfl

/-- Without markup, `<` opens the type arguments of a call or is an operator. -/
theorem callArguments_inBytes (hs : s <:+ e.rest) (m : CodeMode) :
    ((match e.inBytes.afterCallArguments? m.previous with
      | some (rule, rest) => .ok ((e.inBytes.erase rule rest).inCode m m.previous)
      | none => keepToken code e.inBytes m (spread s) (.sign '<')) : Checked Eraser)
    = .ok (match e.afterCallArguments? m.previous with
      | some (rule, rest) => (e.erase rule rest).inCode m m.previous
      | none => e.keepToken m s (.sign '<')).inBytes := by
  rw [afterCallArguments?_inBytes]
  cases harguments : e.afterCallArguments? m.previous with
  | none => exact keepToken_inBytes he hs m _
  | some found =>
    obtain ⟨rule, rest⟩ := found
    have hrest : rest <:+ e.rest :=
      (Eraser.suffix_tail_afterCallArguments? harguments).trans (List.tail_suffix _)
    rw [Option.map_some]
    dsimp only
    rw [Eraser.erase_inBytes rule hrest]
    rfl

theorem elementOrArguments_inBytes (hs : s <:+ e.rest) (m : CodeMode) (mayOpen : Bool) :
    ((if mayOpen && (spread s).head?.any (fun c => isAsciiLetter c || c == '>') then
        openElement code (e.inBytes.inCode m .value) (spread s)
      else match e.inBytes.afterCallArguments? m.previous with
        | some (rule, rest) => .ok ((e.inBytes.erase rule rest).inCode m m.previous)
        | none => keepToken code e.inBytes m (spread s) (.sign '<')) : Checked Eraser)
    = .ok (if mayOpen && s.head?.any (fun c => isAsciiLetter c || c == '>') then
        (e.inCode m .value).openElement s
      else match e.afterCallArguments? m.previous with
        | some (rule, rest) => (e.erase rule rest).inCode m m.previous
        | none => e.keepToken m s (.sign '<')).inBytes := by
  have hfirst : Uniform (fun c => isAsciiLetter c || c == '>') false :=
    uniform_or uniform_isAsciiLetter (uniform_eq rfl)
  rw [any_head?_spread hfirst]
  exact ok_ite (fun _ => openElement_inBytes (e := e.inCode m .value) he hs)
    fun _ => callArguments_inBytes he hs m

theorem stepAngle_inBytes (hs : s <:+ e.rest) (m : CodeMode) :
    stepAngle code e.inBytes m (spread s) = .ok (e.stepAngle m s).inBytes := by
  have hplain := elementOrArguments_inBytes he hs m
    (m.previous.expressionMayStart && !(m.previous == .word "async".toList))
  unfold stepAngle Eraser.stepAngle
  dsimp only
  cases m.previous.expressionMayStart || m.previous == .word "async".toList with
  | false => exact hplain
  | true =>
    rw [if_pos rfl, if_pos rfl, Eraser.inBytes_rest, afterArrowParameters?_spread he, ok_bind]
    cases hlist : Erasure.afterArrowParameters? e.rest with
    | none => exact hplain
    | some rest =>
      have hrest : rest <:+ e.rest :=
        (suffix_tail_afterArrowParameters? hlist).trans (List.tail_suffix _)
      rw [Option.map_some]
      dsimp only
      rw [Eraser.erase_inBytes _ hrest]
      rfl

/-! ### Declarators -/

theorem eraseDeclarator?_inBytes :
    eraseDeclarator? code e.inBytes
      = .ok (e.eraseDeclarator?.map fun found => (found.1.inBytes, found.2)) := by
  have hname := Text.suffix_skipBlanks e.rest
  have hnamed := (suffix_skipIdent (Text.skipBlanks e.rest)).trans hname
  have hslice := slice_ident (hname.trans he)
  rw [skipIdent_spread] at hslice
  have hcolon : ∀ t : Text, ((definite? (spread t)).getD (spread t))
      = spread ((definite? t).getD t) := by
    intro t
    rw [definite?_spread]
    cases definite? t <;> rfl
  simp only [eraseDeclarator?, text_eraseDeclarator?_eq, Eraser.inBytes_rest,
    Text.skipBlanks_spread, startsIdent_spread, skipIdent_spread, hslice, ok_bind, hcolon]
  cases startsIdent (Text.skipBlanks e.rest) with
  | false => rfl
  | true =>
    cases isReserved (ident (Text.skipBlanks e.rest)) with
    | true => rfl
    | false =>
      simp only [Bool.not_true, Bool.false_eq_true, if_false]
      have hdefinite := suffix_definite (skipIdent (Text.skipBlanks e.rest))
      generalize skipIdent (Text.skipBlanks e.rest) = named at hnamed hdefinite ⊢
      split
      · rename_i u hu
        obtain ⟨v, hv, rfl⟩ := exists_of_spread_eq_cons rfl hu
        simp only [hv, afterType?_spread]
        cases htype : afterType? v with
        | none => rfl
        | some rest =>
          simp only [Option.map_some, goesOn_spread]
          cases goesOn rest with
          | false => rfl
          | true =>
            have hrest : rest <:+ (definite? named).getD named := by
              have hblanks := Text.suffix_skipBlanks ((definite? named).getD named)
              rw [hv] at hblanks
              exact (suffix_afterType? htype).trans (Text.suffix_of_cons hblanks)
            simp only [Bool.not_true, Bool.false_eq_true, if_false, keep_inBytes he hnamed, ok_bind,
              definite?_spread]
            cases hbang : definite? named with
            | none =>
              rw [hbang] at hrest
              have hbare := Eraser.erase_inBytes (e := e.keep named) .variableType hrest
              exact congrArg (fun b => Except.ok (some (b, _))) hbare
            | some colon =>
              rw [hbang, Option.getD_some] at hrest hdefinite
              have hbare := Eraser.erase_inBytes (e := (e.keep named).erase .nonNull colon)
                .variableType hrest
              rw [← Eraser.erase_inBytes (e := e.keep named) _ hdefinite] at hbare
              exact congrArg (fun b => Except.ok (some (b, _))) hbare
      · rename_i hplain
        split
        · rename_i v hv
          exact absurd (by rw [hv, spread_ascii rfl]) (hplain _)
        · rfl

theorem stepComma_inBytes (hs : s <:+ e.rest) (m : CodeMode) :
    stepComma code e.inBytes m (spread s) = .ok (e.stepComma m s).inBytes := by
  have hkept : (e.keep s).rest <:+ code := hs.trans he
  unfold stepComma Eraser.stepComma
  simp only [keep_inBytes he hs, ok_bind, eraseDeclarator?_inBytes hkept]
  refine ok_ite (fun _ => ?_) fun _ => rfl
  cases (e.keep s).eraseDeclarator? <;> rfl

theorem stepCurlyEnd_inBytes (hs : s <:+ e.rest) (m : CodeMode) :
    stepCurlyEnd code e.inBytes m (spread s) = .ok (e.stepCurlyEnd m s).inBytes :=
  ok_ite (fun _ => keep_inBytes he hs) fun _ => keepToken_inBytes he hs _ _

theorem stepToken_inBytes (m : CodeMode) (hcs : e.rest = c :: s)
    (hspread : spread (c :: s) = d :: ds) :
    stepToken code e.inBytes m d ds = outcome (e.stepToken m c s) := by
  have hs : s <:+ e.rest := hcs ▸ List.suffix_cons c s
  have htoken : ∀ (m : CodeMode) {rest : Text} (previous : Previous), rest <:+ s →
      keepToken code e.inBytes m (spread rest) previous
        = outcome (.ok (e.keepToken m rest previous)) :=
    fun m _ previous hrest => keepToken_inBytes he (hrest.trans hs) m previous
  cases hc : isAscii c with
  | false =>
    rw [stepToken_of_wide (wide_of_spread hc hspread), text_stepToken_of_wide hc,
      keepChar_inBytes he hcs]
    rfl
  | true =>
    obtain ⟨rfl, rfl⟩ := List.cons.inj ((spread_ascii hc s).symm.trans hspread)
    unfold stepToken Eraser.stepToken
    refine outcome_ite (fun _ => stepWord_inBytes he m) fun _ =>
      outcome_ite (fun _ => stepSlash_inBytes he hs m) fun _ =>
      outcome_ite (fun _ => ?ofString) fun _ => outcome_ite (fun _ => ?ofTemplate) fun _ =>
      outcome_ite (fun _ => htoken _ _ List.suffix_rfl) fun _ =>
      outcome_ite (fun _ => stepRoundEnd_inBytes he hs m) fun _ =>
      outcome_ite (fun _ => htoken _ _ List.suffix_rfl) fun _ =>
      outcome_ite (fun _ => htoken _ _ List.suffix_rfl) fun _ =>
      outcome_ite (fun _ => htoken _ _ List.suffix_rfl) fun _ =>
      outcome_ite (fun _ => stepCurlyEnd_inBytes he hs m) fun _ =>
      outcome_ite (fun _ => stepQuestion_inBytes he hs m) fun _ =>
      outcome_ite (fun _ => stepColon_inBytes he hs m) fun _ =>
      outcome_ite (fun _ => stepBang_inBytes he hs m) fun _ =>
      outcome_ite (fun _ => stepAngle_inBytes he hs m) fun _ =>
      outcome_ite (fun _ => ?ofEquals) fun _ => outcome_ite (fun _ => ?ofNumber) fun _ => ?later
    case ofString =>
      rw [stringRest_spread hc]
      exact htoken _ _ (suffix_stringRest c s)
    case ofTemplate =>
      have hkeep := keep_inBytes (e := e.enter (.code (m.next .value))) he hs
      exact congrArg (Except.map fun b => b.enter .template) hkeep
    case ofEquals =>
      split
      · rename_i u hu
        obtain ⟨v, rfl, rfl⟩ := exists_of_spread_eq_cons rfl hu
        exact htoken _ _ (List.suffix_cons _ _)
      · rename_i harrow
        split
        · exact absurd (spread_ascii rfl _) (harrow _)
        · exact htoken _ _ List.suffix_rfl
    case ofNumber =>
      rw [Text.dropWhile_spread (uniform_or uniform_isIdentChar (uniform_eq rfl))]
      exact htoken _ _ (List.dropWhile_suffix _)
    case later =>
      rw [any_head?_spread uniform_isAsciiDigit]
      refine outcome_ite (fun _ => ?_) fun _ => outcome_ite (fun _ => stepComma_inBytes he hs m)
        fun _ => outcome_ite (fun _ => htoken _ _ List.suffix_rfl) fun _ =>
        outcome_ite (fun _ => htoken _ _ List.suffix_rfl) fun hplain => ?_
      · rw [Text.dropWhile_spread uniform_isIdentChar]
        exact htoken _ _ (List.dropWhile_suffix _)
      · exact absurd (of_decide_eq_true hc) hplain

theorem stepCode_inBytes (m : CodeMode) (hcs : e.rest = c :: s)
    (hspread : spread (c :: s) = d :: ds) :
    stepCode code e.inBytes m d ds = outcome (e.stepCode m c s) := by
  have hs : s <:+ e.rest := hcs ▸ List.suffix_cons c s
  have hkeep : ∀ {rest : Text} (m : CodeMode), rest <:+ s →
      (keep code e.inBytes (spread rest)).map (fun b => b.enter (.code m))
        = outcome (.ok ((e.keep rest).enter (.code m))) := by
    intro rest m hrest
    rw [keep_inBytes he (hrest.trans hs)]
    rfl
  have htoken := stepToken_inBytes he m hcs hspread
  unfold stepCode Eraser.stepCode
  cases hc : isAscii c with
  | false =>
    have hd : isAscii d = false := wide_of_spread hc hspread
    have hne : ∀ {c : Char}, isAscii c = false →
        c ≠ '\n' ∧ c ≠ ' ' ∧ c ≠ '\t' ∧ c ≠ '\r' ∧ c ≠ '/' := fun hc =>
      ⟨ne_of_wide hc rfl, ne_of_wide hc rfl, ne_of_wide hc rfl, ne_of_wide hc rfl, ne_of_wide hc rfl⟩
    simp [hne hc, hne hd, htoken]
  | true =>
    obtain ⟨rfl, rfl⟩ := List.cons.inj ((spread_ascii hc s).symm.trans hspread)
    refine outcome_ite (fun _ => hkeep _ List.suffix_rfl) fun _ =>
      outcome_ite (fun _ => hkeep _ List.suffix_rfl) fun _ => ?_
    split
    · rename_i u hpair
      obtain ⟨v, hv⟩ := exists_pair rfl hpair
      obtain ⟨rfl, rfl⟩ := List.cons.inj hv
      rw [spread_ascii rfl] at hpair
      obtain rfl := (List.cons.inj (List.cons.inj hpair).2).2
      rw [Text.skipLine_spread]
      exact hkeep _ ((List.dropWhile_suffix _).trans (List.suffix_cons _ v))
    · rename_i u hpair
      obtain ⟨v, hv⟩ := exists_pair rfl hpair
      obtain ⟨rfl, rfl⟩ := List.cons.inj hv
      rw [spread_ascii rfl] at hpair
      obtain rfl := (List.cons.inj (List.cons.inj hpair).2).2
      rw [blockRest_spread]
      exact hkeep _ ((suffix_blockRest v).trans (List.suffix_cons _ v))
    · rename_i hline hblock
      split
      · rename_i v hpair
        obtain ⟨rfl, rfl⟩ := List.cons.inj hpair
        exact absurd (by rw [spread_ascii rfl]) (hline (spread v))
      · rename_i v hpair
        obtain ⟨rfl, rfl⟩ := List.cons.inj hpair
        exact absurd (by rw [spread_ascii rfl]) (hblock (spread v))
      · exact htoken

omit he in
theorem step_of_cons {b : Eraser} {mode : Mode} {outer : List Mode} (hcs : b.rest = c :: s)
    (hmodes : b.modes = mode :: outer) : step code b = match mode with
      | .code m => stepCode code { b with modes := outer } m c s
      | .template => stepTemplate code { b with modes := outer } c s
      | .tag => stepTag code { b with modes := outer } c s
      | .children => stepChildren code { b with modes := outer } c s := by
  cases b
  cases hcs
  cases hmodes
  cases mode <;> rfl

omit he in
theorem text_step_of_cons {mode : Mode} {outer : List Mode} (hcs : e.rest = c :: s)
    (hmodes : e.modes = mode :: outer) : e.step = match mode with
      | .code m => { e with modes := outer }.stepCode m c s
      | .template => .ok ({ e with modes := outer }.stepTemplate c s)
      | .tag => .ok ({ e with modes := outer }.stepTag c s)
      | .children => .ok ({ e with modes := outer }.stepChildren c s) := by
  cases e
  cases hcs
  cases hmodes
  cases mode <;> rfl

/-- **A step over the bytes comes to where the step over the text comes to.** -/
theorem step_inBytes : step code e.inBytes = outcome e.step := by
  cases hrest : e.rest with
  | nil =>
    have hbytes : e.inBytes.rest = [] := congrArg spread hrest
    rw [Eraser.step_of_nil (Or.inl hrest), step, hbytes]
    rfl
  | cons c s =>
    obtain ⟨d, ds, hspread⟩ : ∃ d ds, spread (c :: s) = d :: ds := by
      cases hc : isAscii c with
      | true => exact ⟨c, spread s, spread_ascii hc s⟩
      | false =>
        obtain ⟨d, ds, hspread, -⟩ := Text.spread_wide hc s
        exact ⟨d, ds ++ spread s, hspread⟩
    have hbytes : e.inBytes.rest = d :: ds := (congrArg spread hrest).trans hspread
    cases hmodes : e.modes with
    | nil =>
      have hnone : e.inBytes.modes = [] := hmodes
      rw [Eraser.step_of_nil (Or.inr hmodes), step, hbytes, hnone]
      rfl
    | cons mode outer =>
      have hinner : ({ e with modes := outer } : Eraser).rest = c :: s := hrest
      rw [step_of_cons hbytes hmodes, text_step_of_cons hrest hmodes]
      cases mode with
      | code m => exact stepCode_inBytes (e := { e with modes := outer }) he m hinner hspread
      | template =>
        exact stepTemplate_inBytes (e := { e with modes := outer }) he hinner hspread
      | tag => exact stepTag_inBytes (e := { e with modes := outer }) he hinner hspread
      | children =>
        exact stepChildren_inBytes (e := { e with modes := outer }) he hinner hspread

end

end Bytewise

end LivePreview.Erasure
