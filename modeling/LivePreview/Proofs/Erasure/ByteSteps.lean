/-
Steps over bytes.

A step over the bytes of a text asks what the step over the text asks, since all questions are about
characters of ASCII, and it comes to the same place.  So the states of the two runs are the same,
one step for one step, and the run over the bytes comes to what the run over the text comes to.
-/
import LivePreview.Proofs.Erasure.ByteEnums
import LivePreview.Proofs.Erasure.LoopBound

namespace LivePreview.Erasure

open Script EnumObject
open Text (spread isAscii Uniform Wide spread_wide spread_ascii spread_cases exists_of_spread_eq_cons)

variable {code s t rest : Text} {c d : Char} {ds : Text} {e : Eraser}

namespace Bytewise

/-! ### Characters -/

theorem wide_of_spread (hc : isAscii c = false) (h : spread (c :: s) = d :: ds) : isAscii d = false := by
  obtain ⟨x, xs, hx, hwide, -⟩ := spread_wide hc s
  obtain ⟨rfl, -⟩ := List.cons.inj (hx.symm.trans h)
  exact hwide

theorem behindChar_drop (hs : s <:+ code) : behindChar code (spread s) = .ok (spread (s.drop 1)) := by
  cases s with
  | nil => exact behindChar_nil
  | cons c s => exact behindChar_spread hs

/-! ### Cases -/

/-- A result of a step, as it is in the bytes. -/
def outcome (r : Except Overflow Eraser) : Checked Eraser := (checked r).map Eraser.inBytes

@[simp] theorem outcome_ok (e : Eraser) : outcome (.ok e) = .ok e.inBytes := rfl

/-- What decides between two results decides in the bytes. -/
theorem outcome_ite {p : Prop} [Decidable p] {x y : Checked Eraser} {x' y' : Except Overflow Eraser}
    (hx : p → x = outcome x') (hy : ¬p → y = outcome y') :
    (if p then x else y) = outcome (if p then x' else y') := by
  split
  · exact hx ‹p›
  · exact hy ‹¬p›

theorem ok_ite {p : Prop} [Decidable p] {x y : Checked Eraser} {x' y' : Eraser}
    (hx : p → x = .ok x'.inBytes) (hy : ¬p → y = .ok y'.inBytes) :
    (if p then x else y) = .ok (if p then x' else y').inBytes := by
  split
  · exact hx ‹p›
  · exact hy ‹¬p›

section

variable (he : e.rest <:+ code)

include he

/-! ### Words -/

/-- An enum is converted, or else the word in front of it is kept. -/
theorem enumOrWord_inBytes {name : Text} (hname : name <:+ e.rest) (m : CodeMode) (kept : Eraser) :
    (convertEnum? code e.inBytes (spread name) >>= fun
      | some done => pure (done.inCode m (.sign ';'))
      | none => Except.ok kept.inBytes)
    = outcome (e.convertEnum? name >>= fun
      | some done => pure (done.inCode m (.sign ';'))
      | none => pure kept) := by
  rw [convertEnum?_inBytes he hname]
  cases e.convertEnum? name with
  | error o =>
    cases o
    rfl
  | ok done => cases done <;> rfl

theorem stepWord_inBytes (m : CodeMode) :
    stepWord code e.inBytes m = outcome (e.stepWord m) := by
  have hword := suffix_skipIdent e.rest
  have hnext : Text.skipBlanks (skipIdent e.rest) <:+ e.rest :=
    (Text.suffix_skipBlanks _).trans hword
  have hkept : ∀ previous, keepToken code e.inBytes m (spread (skipIdent e.rest)) previous
      = .ok ((e.keep (skipIdent e.rest)).inCode m previous).inBytes :=
    fun previous => keepToken_inBytes he hword m previous
  have hremoved : ∀ (rule : ErasureRule) {rest : Text} (previous : Previous), rest <:+ e.rest →
      (e.inBytes.erase rule (spread rest)).inCode m previous
        = ((e.erase rule rest).inCode m previous).inBytes := by
    intro rule rest previous hrest
    rw [Eraser.erase_inBytes rule hrest]
    rfl
  have hlength : (spread (Text.skipBlanks (skipIdent e.rest))).length
      < (spread (skipIdent e.rest)).length
      ↔ (Text.skipBlanks (skipIdent e.rest)).length < (skipIdent e.rest).length :=
    length_spread_lt_iff (Text.suffix_skipBlanks _)
  have hslice := slice_ident he
  rw [skipIdent_spread] at hslice
  simp only [stepWord, Eraser.stepWord, Eraser.inBytes_rest, skipIdent_spread,
    Text.skipBlanks_spread, hslice, ok_bind, word?_spread (hnext.trans he),
    interfaceRest?_spread, alias?_spread (hnext.trans he), statement_spread (hnext.trans he),
    afterThisType?_spread, afterType?_spread, startsWithChar_spread (c := '{') rfl,
    startsWithChar_spread (c := '[') rfl, startsWithChar_spread (c := ':') rfl, hlength, hkept]
  generalize Script.word? (Text.skipBlanks (skipIdent e.rest)) = nextWord
  refine outcome_ite (fun _ => ?ofInterface) fun _ => outcome_ite (fun _ => ?ofAlias) fun _ =>
    outcome_ite (fun _ => ?ofAmbient) fun _ => outcome_ite (fun _ => ?ofEnum) fun _ =>
    outcome_ite (fun _ => ?ofConstEnum) fun _ => outcome_ite (fun _ => ?ofAbstract) fun _ =>
    outcome_ite (fun _ => ?ofClass) fun _ => outcome_ite (fun _ => ?ofVariable) fun _ =>
    outcome_ite (fun _ => ?ofThis) fun _ => outcome_ite (fun _ => ?ofAssertion) fun _ =>
    outcome_ite (fun _ => ?ofModifier) fun _ => rfl
  case ofInterface =>
    cases hrest : interfaceRest? (Text.skipBlanks (skipIdent e.rest)) with
    | none => rfl
    | some rest =>
      exact congrArg Except.ok (hremoved _ _ ((suffix_interfaceRest? hrest).trans hnext))
  case ofAlias =>
    cases hrest : aliasRest? (Text.skipBlanks (skipIdent e.rest)) with
    | none => rfl
    | some rest => exact congrArg Except.ok (hremoved _ _ ((suffix_aliasRest? hrest).trans hnext))
  case ofAmbient =>
    exact congrArg Except.ok (hremoved _ _ ((suffix_statementRestFrom _ _ _).trans hnext))
  case ofEnum => exact enumOrWord_inBytes he hnext m _
  case ofConstEnum =>
    exact enumOrWord_inBytes he
      ((Text.suffix_skipBlanks _).trans ((suffix_skipIdent _).trans hnext)) m _
  case ofAbstract => exact congrArg Except.ok (hremoved _ _ hnext)
  case ofClass =>
    have hplace : (e.keep (skipIdent e.rest)).rest <:+ code := hword.trans he
    have hstable : (e.keep (skipIdent e.rest)).eraseHeader (spread (skipIdent e.rest)).length
        = (e.keep (skipIdent e.rest)).eraseHeader (skipIdent e.rest).length :=
      Eraser.eraseHeader_stable (length_le_spread _) (Nat.le_refl _)
    rw [keep_inBytes he hword, ok_bind, eraseHeader_inBytes _ hplace, ok_bind, hstable]
    rfl
  case ofVariable =>
    have hplace : (e.keep (skipIdent e.rest)).rest <:+ code := hword.trans he
    rw [keep_inBytes he hword, ok_bind, eraseVariable_inBytes hplace]
    rfl
  case ofThis =>
    cases hrest : Eraser.afterThisType? (Text.skipBlanks (skipIdent e.rest)) with
    | none => rfl
    | some rest =>
      exact congrArg Except.ok (hremoved _ _ ((suffix_afterThisType? hrest).trans hnext))
  case ofAssertion =>
    have hasserted : ∀ (rule : ErasureRule) {rest : Text}, rest <:+ e.rest →
        (e.inBytes.trimOut.erase rule (spread rest)).inCode m m.previous
          = ((e.trimOut.erase rule rest).inCode m m.previous).inBytes := by
      intro rule rest hrest
      have herase := Eraser.erase_inBytes (e := e.trimOut) rule hrest
      exact congrArg (fun b => b.inCode m m.previous) herase
    cases decide (ident e.rest = "as".toList) && decide (nextWord = some "const".toList) with
    | true => exact congrArg Except.ok (hasserted _ ((suffix_skipIdent _).trans hnext))
    | false =>
      cases htype : afterType? (skipIdent e.rest) with
      | none => rfl
      | some rest => exact congrArg Except.ok (hasserted _ ((suffix_afterType? htype).trans hword))
  case ofModifier => exact congrArg Except.ok (hremoved _ _ hnext)

/-! ### Markup -/

theorem openElement_inBytes (hs : s <:+ e.rest) :
    openElement code e.inBytes (spread s) = .ok (e.openElement s).inBytes := by
  have hkeep : ∀ {rest : Text}, rest <:+ s →
      keep code (e.keep s).inBytes (spread rest) = .ok (e.keep rest).inBytes := by
    intro rest hrest
    rw [keep_inBytes (e := e.keep s) (hs.trans he) hrest, keep_keep hs hrest]
  unfold openElement Eraser.openElement
  rw [keep_inBytes he hs, bind_ok]
  split
  · rename_i u hu
    obtain ⟨v, rfl, rfl⟩ := exists_of_spread_eq_cons rfl hu
    rw [hkeep (List.suffix_cons _ _)]
    rfl
  · rename_i hangle
    rw [Text.dropWhile_spread uniform_isTagNameChar, hkeep (List.dropWhile_suffix _)]
    split
    · exact absurd (spread_ascii rfl _) (hangle _)
    · rfl

theorem openCode_inBytes (hs : s <:+ e.rest) :
    openCode code e.inBytes (spread s) = .ok (e.openCode s).inBytes := by
  rw [openCode, keep_inBytes he hs]
  rfl

omit he in
/-- A character that was asked for at the front is passed as one byte. -/
theorem drop_one_spread (hd : isAscii d = true) (h : startsWithChar d s = true) :
    (spread s).drop 1 = spread (s.drop 1) := by
  cases s with
  | nil => cases h
  | cons c s =>
    obtain rfl : c = d := by simpa [startsWithChar] using h
    rw [spread_ascii hd]
    rfl

/-- A step inside a tag.  A character outside of ASCII is told by its first byte. -/
theorem stepTag_inBytes (hcs : e.rest = c :: s) (hspread : spread (c :: s) = d :: ds) :
    stepTag code e.inBytes d ds = .ok (e.stepTag c s).inBytes := by
  have hs : s <:+ e.rest := hcs ▸ List.suffix_cons c s
  have hchar : (keepChar code e.inBytes).map (fun b => b.enter .tag)
      = .ok ((e.keep s).enter .tag).inBytes := by
    rw [keepChar_inBytes he hcs]
    rfl
  cases hc : isAscii c with
  | false =>
    have hd : isAscii d = false := wide_of_spread hc hspread
    have hne : ∀ {c : Char}, isAscii c = false → c ≠ '/' ∧ c ≠ '>' ∧ c ≠ '{' ∧ c ≠ '<' :=
      fun hc => ⟨ne_of_wide hc rfl, ne_of_wide hc rfl, ne_of_wide hc rfl, ne_of_wide hc rfl⟩
    simp only [stepTag, Eraser.stepTag, hne hc, hne hd, uniform_isQuote c hc, uniform_isQuote d hd,
      hchar, decide_false, Bool.false_and, Bool.false_eq_true, if_false]
  | true =>
    obtain ⟨rfl, rfl⟩ := List.cons.inj ((spread_ascii hc s).symm.trans hspread)
    rw [stepTag, Eraser.stepTag, startsWithChar_spread rfl]
    refine ok_ite (fun hend => ?_) fun _ => ok_ite (fun _ => ?_) fun _ => ok_ite (fun _ => ?_)
      fun _ => ok_ite (fun _ => ?_) fun _ => ok_ite (fun _ => ?_) fun _ => hchar
    · rw [drop_one_spread rfl (Bool.and_eq_true_iff.mp hend).2]
      exact keep_inBytes he ((List.drop_suffix 1 s).trans hs)
    · rw [keep_inBytes he hs]
      rfl
    · exact openCode_inBytes (e := e.enter .tag) he hs
    · have hbehind := suffix_behind c s
      rw [behind_spread hc, keep_inBytes he (hbehind.trans hs)]
      rfl
    · exact openElement_inBytes (e := e.enter .tag) he hs

theorem stepChildren_inBytes (hcs : e.rest = c :: s) (hspread : spread (c :: s) = d :: ds) :
    stepChildren code e.inBytes d ds = .ok (e.stepChildren c s).inBytes := by
  have hs : s <:+ e.rest := hcs ▸ List.suffix_cons c s
  have hchar : (keepChar code e.inBytes).map (fun b => b.enter .children)
      = .ok ((e.keep s).enter .children).inBytes := by
    rw [keepChar_inBytes he hcs]
    rfl
  cases hc : isAscii c with
  | false =>
    have hd : isAscii d = false := wide_of_spread hc hspread
    have hne : ∀ {c : Char}, isAscii c = false → c ≠ '{' ∧ c ≠ '<' :=
      fun hc => ⟨ne_of_wide hc rfl, ne_of_wide hc rfl⟩
    simp only [stepChildren, Eraser.stepChildren, hne hc, hne hd, hchar, if_false]
  | true =>
    obtain ⟨rfl, rfl⟩ := List.cons.inj ((spread_ascii hc s).symm.trans hspread)
    unfold stepChildren Eraser.stepChildren
    refine ok_ite (fun _ => ?_) fun _ => ok_ite (fun _ => ?_) fun _ => hchar
    · split
      · rename_i u hu
        obtain ⟨v, rfl, rfl⟩ := exists_of_spread_eq_cons rfl hu
        rw [behind_spread rfl]
        exact keep_inBytes he ((suffix_behind '>' v).trans (Text.suffix_of_cons hs))
      · rename_i hslash
        split
        · exact absurd (spread_ascii rfl _) (hslash _)
        · exact openElement_inBytes (e := e.enter .children) he hs
    · exact openCode_inBytes (e := e.enter .children) he hs

theorem stepTemplate_inBytes (hcs : e.rest = c :: s) (hspread : spread (c :: s) = d :: ds) :
    stepTemplate code e.inBytes d ds = .ok (e.stepTemplate c s).inBytes := by
  have hs : s <:+ e.rest := hcs ▸ List.suffix_cons c s
  have hchar : (keepChar code e.inBytes).map (fun b => b.enter .template)
      = .ok ((e.keep s).enter .template).inBytes := by
    rw [keepChar_inBytes he hcs]
    rfl
  unfold stepTemplate Eraser.stepTemplate
  cases hc : isAscii c with
  | false =>
    have hd : isAscii d = false := wide_of_spread hc hspread
    have hne : ∀ {c : Char}, isAscii c = false → c ≠ '\\' ∧ c ≠ '\x60' ∧ c ≠ '$' :=
      fun hc => ⟨ne_of_wide hc rfl, ne_of_wide hc rfl, ne_of_wide hc rfl⟩
    simp [hne hc, hne hd, hchar]
  | true =>
    obtain ⟨rfl, rfl⟩ := List.cons.inj ((spread_ascii hc s).symm.trans hspread)
    refine ok_ite (fun _ => ?_) fun _ => ok_ite (fun _ => keep_inBytes he hs) fun _ => ?_
    · rw [behindChar_drop (hs.trans he), bind_ok, keep_inBytes he ((List.drop_suffix 1 s).trans hs)]
      rfl
    · split
      · rename_i u hpair
        obtain ⟨v, hv⟩ := exists_pair rfl hpair
        obtain ⟨rfl, rfl⟩ := List.cons.inj hv
        rw [spread_ascii rfl] at hpair
        obtain rfl := (List.cons.inj (List.cons.inj hpair).2).2
        exact openCode_inBytes (e := e.enter .template) he (Text.suffix_of_cons hs)
      · rename_i hplain
        split
        · rename_i v hpair
          obtain ⟨rfl, rfl⟩ := List.cons.inj hpair
          exact absurd (by rw [spread_ascii rfl]) (hplain (spread v))
        · exact hchar

end

end Bytewise

end LivePreview.Erasure
