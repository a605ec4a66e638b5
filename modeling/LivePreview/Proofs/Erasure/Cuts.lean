/-
What a step of the eraser does to its text.

Whatever a step decides, it goes on by keeping and erasing, one piece behind the other.  It never
erases nothing: every hit stands for a piece with a character that is no blank.  Nothing else is
lost but the blanks that are taken off the end of the output in front of a piece that is erased, and
nothing is written but the object that stands for an enum: `Cuts`.  A step also leaves the modes
around its own in place, under those that it enters, and it reads at least one character: `CutsTo`.
A step in code either goes on in code or leads back to what is around, and it does the latter only
if there is something around.  The case analysis of all steps is done here and nowhere else.
-/
import LivePreview.Proofs.Erasure.Lookahead
import LivePreview.Proofs.Text.Visible

namespace LivePreview.Erasure.Eraser

open Script EnumObject
open Text (CutOff cutOff_of_cons)

/-! ### Keeping and erasing -/

/-- From `e` on, pieces of the text were kept or erased, one behind the other, and each of those
erased has a character that is no blank.  Blanks are taken off the end of the output where the piece
behind them is erased, and something else is written where an enum is. -/
inductive Cuts (e : Eraser) : Eraser → Prop where
  | refl : Cuts e e
  | keep {e' : Eraser} (h : Cuts e e') {rest : Text} (hrest : rest <:+ e'.rest) :
    Cuts e (e'.keep rest)
  | erase {e' : Eraser} (h : Cuts e e') (rule : ErasureRule) {rest : Text}
    (hcut : CutOff e'.rest rest) : Cuts e (e'.erase rule rest)
  | trim {e' : Eraser} (h : Cuts e e') (rule : ErasureRule) {rest : Text}
    (hcut : CutOff e'.rest rest) : Cuts e (e'.trimOut.erase rule rest)
  | convert {e' : Eraser} (h : Cuts e e') (object : Text) {rest : Text}
    (hcut : CutOff e'.rest rest) : Cuts e ((e'.write object).erase .enumDecl rest)

variable {e e' e'' : Eraser}

namespace Cuts

theorem suffix (h : Cuts e e') : e'.rest <:+ e.rest := by
  induction h with
  | refl => exact List.suffix_rfl
  | keep _ hrest ih => exact hrest.trans ih
  | erase _ _ hcut ih | trim _ _ hcut ih | convert _ _ hcut ih => exact hcut.suffix.trans ih

theorem trans (h : Cuts e e') (h' : Cuts e' e'') : Cuts e e'' := by
  induction h' with
  | refl => exact h
  | keep _ hrest ih => exact ih.keep hrest
  | erase _ rule hcut ih => exact ih.erase rule hcut
  | trim _ rule hcut ih => exact ih.trim rule hcut
  | convert _ object hcut ih => exact ih.convert object hcut

end Cuts

/-- Whatever decides between two states, both are led to. -/
theorem cuts_ite {p : Prop} [Decidable p] (h : Cuts e e') (h' : Cuts e e'') :
    Cuts e (if p then e' else e'') := by
  split
  · exact h
  · exact h'

/-! ### Bindings, headers and enums -/

theorem cuts_eraseDefinite (e : Eraser) : Cuts e e.eraseDefinite := by
  unfold eraseDefinite
  split
  · rename_i s hrest
    exact Cuts.refl.erase _ (cutOff_of_cons hrest rfl List.suffix_rfl)
  · exact .refl

theorem cuts_eraseVariableType (e : Eraser) : Cuts e e.eraseVariableType := by
  have hblanks := Text.suffix_skipBlanks e.rest
  unfold eraseVariableType
  split
  · rename_i s hcolon
    rw [hcolon] at hblanks
    split
    · rename_i rest hrest
      exact (Cuts.refl.keep hblanks).trim _ (cutOff_of_cons rfl rfl (suffix_afterType? hrest))
    · exact .refl
  · exact .refl

theorem cuts_eraseVariable (e : Eraser) : Cuts e e.eraseVariable.1 := by
  unfold eraseVariable
  dsimp only
  split
  · exact .refl
  · rename_i rest hrest
    have hkeep : Cuts e (e.keep rest) :=
      Cuts.refl.keep ((suffix_afterPattern? hrest).trans (Text.suffix_skipBlanks e.rest))
    exact (hkeep.trans (cuts_eraseDefinite _)).trans (cuts_eraseVariableType _)

theorem cuts_eraseDeclarator? {done : Eraser × Previous}
    (h : e.eraseDeclarator? = some done) : Cuts e done.1 := by
  unfold eraseDeclarator? at h
  dsimp only at h
  split at h
  · cases h
  have hnamed := (suffix_skipIdent (Text.skipBlanks e.rest)).trans
    (Text.suffix_skipBlanks e.rest)
  generalize skipIdent (Text.skipBlanks e.rest) = named at h hnamed
  have hkeep := Cuts.refl.keep hnamed
  -- behind the name there may be an exclamation mark and the colon, or the colon alone
  have htype : ∀ {bare : Eraser} {s rest : Text}, Cuts e bare →
      Text.skipBlanks bare.rest = ':' :: s → rest <:+ s → Cuts e (bare.erase .variableType rest) := by
    intro bare s rest hbare hcolon hrest
    have hblanks := Text.suffix_skipBlanks bare.rest
    rw [hcolon] at hblanks
    exact hbare.erase _ (.intro rfl hblanks hrest)
  split at h
  · rename_i s hcolon
    split at h
    · cases h
    · rename_i rest hrest
      rw [Option.ite_none_left_eq_some] at h
      cases h.2
      have hrest := suffix_afterType? hrest
      dsimp only
      split
      · rename_i colon hdefinite
        rw [hdefinite, Option.getD_some] at hcolon
        split at hdefinite
        · cases hdefinite
          exact htype (hkeep.erase .nonNull (cutOff_of_cons rfl rfl List.suffix_rfl)) hcolon hrest
        · cases hdefinite
      · rename_i hdefinite
        rw [hdefinite, Option.getD_none] at hcolon
        exact htype hkeep hcolon hrest
  · cases h

theorem cuts_eraseHeader (n : Nat) (e : Eraser) : Cuts e (e.eraseHeader n) := by
  induction n generalizing e with
  | zero => exact .refl
  | succ n ih =>
    have hkeep : ∀ {rest}, rest <:+ e.rest → Cuts e ((e.keep rest).eraseHeader n) :=
      fun hrest => (Cuts.refl.keep hrest).trans (ih _)
    unfold eraseHeader
    split
    · exact .refl
    · rename_i c s hcs
      have herase : ∀ {rule rest}, isSpace c = false → rest <:+ s →
          Cuts e ((e.erase rule rest).eraseHeader n) :=
        fun hc hrest => (Cuts.refl.erase _ (cutOff_of_cons hcs hc hrest)).trans (ih _)
      rw [hcs] at hkeep
      have htail := List.suffix_cons c s
      have hident := suffix_skipIdent (c :: s)
      split_ifs
      · exact .refl
      · split
        · rename_i hangle _ rest hrest
          refine herase (by rw [hangle]; rfl) ?_
          obtain hparameters | ⟨-, harguments⟩ := Option.or_eq_some_iff.mp hrest
          · exact suffix_tail_afterTypeParameters? hparameters
          · exact suffix_tail_afterTypeArguments? harguments
        · exact hkeep htail
      · cases hgroup : afterGroup? (c :: s) with
        | none => exact hkeep htail
        | some rest => exact hkeep (suffix_afterGroup? hgroup)
      · rename_i hstart _
        exact herase (isSpace_eq_false_of_isIdentChar (isIdentChar_of_start hstart))
          ((List.dropWhile_suffix _).trans (suffix_tail_skipIdent hstart))
      · exact hkeep hident
      · exact hkeep htail

/-- Behind a parameter list, too, the colon is kept up to and the type is erased. -/
theorem cuts_eraseReturnType (e : Eraser) (closed outer : Frame) :
    Cuts e (e.eraseReturnType closed outer) := by
  have hblanks := Text.suffix_skipBlanks e.rest
  unfold eraseReturnType
  split
  · rename_i s hcolon
    rw [hcolon] at hblanks
    split
    · exact .refl
    split
    · exact .refl
    · rename_i rest hrest
      have htype : Cuts e ((e.keep (':' :: s)).trimOut.erase .returnType rest) :=
        (Cuts.refl.keep hblanks).trim _ (cutOff_of_cons rfl rfl (suffix_afterType? hrest))
      exact cuts_ite htype .refl
  · exact .refl

/-- An opened element is inside its tag, or among its children if it has no tag. -/
theorem exists_openElement_eq (s : Text) : ∃ rest mode, rest <:+ s ∧
    ∀ e : Eraser, e.openElement s = (e.keep rest).enter mode := by
  unfold openElement
  split
  · exact ⟨_, .children, List.suffix_cons _ _, fun _ => rfl⟩
  · exact ⟨_, .tag, List.dropWhile_suffix _, fun _ => rfl⟩

theorem suffix_tail_afterCallArguments? {previous : Previous} {rule : ErasureRule} {rest : Text}
    (h : e.afterCallArguments? previous = some (rule, rest)) : rest <:+ e.rest.tail := by
  unfold afterCallArguments? at h
  split at h
  · dsimp only at h
    split at h
    · cases h
    · obtain ⟨found, hfound, h⟩ := Option.bind_eq_some_iff.mp h
      rw [Option.ite_none_right_eq_some] at h
      cases h.2
      obtain harguments | ⟨-, hparameters⟩ := Option.or_eq_some_iff.mp hfound
      · exact suffix_tail_afterTypeArguments? harguments
      · exact suffix_tail_afterTypeParameters? hparameters
  · cases h

theorem cuts_convertEnum? {c : Char} {s name : Text} (hcs : e.rest = c :: s)
    (hc : isSpace c = false) (hname : name <:+ s) {done : Eraser}
    (h : e.convertEnum? name = .ok (some done)) :
    Cuts e done ∧ done.rest <:+ name := by
  have hbody := (Text.suffix_skipBlanks (skipIdent name)).trans (suffix_skipIdent name)
  unfold convertEnum? at h
  dsimp only at h
  split at h
  · cases h
  split at h
  · cases h
  split at h
  · cases h
  rename_i rest hrest
  have hdone : skipSemicolon rest <:+ name :=
    (suffix_skipSemicolon rest).trans ((suffix_afterGroup? hrest).trans hbody)
  generalize EnumObject.render _ _ = object at h
  cases object with
  | error o => cases h
  | ok object =>
    cases h
    exact ⟨Cuts.refl.convert object (cutOff_of_cons hcs hc (hdone.trans hname)), hdone⟩

/-! ### Steps -/

/-- The eraser inside of further modes, innermost first. -/
def within (e : Eraser) (modes : List Mode) : Eraser := { e with modes := modes ++ e.modes }

/-- A step from a mode inside of those of `e`: it reads at least one character, and leaves the modes
of `e` under those that it enters. -/
inductive CutsTo (e : Eraser) : List Mode → Eraser → Prop where
  | intro {x : Eraser} (h : Cuts e x) (hread : x.rest <:+ e.rest.tail)
      (entered : List Mode) : CutsTo e entered (x.within entered)

/-- Around everything else there is code. -/
def Grounded (modes : List Mode) : Prop := ∃ m, modes.getLast? = some (.code m)

/-- A step in code.  Where nothing is around the code, it goes on in code. -/
def CutsInCode (e e' : Eraser) : Prop :=
  ∃ entered, CutsTo e entered e' ∧ (e.modes = [] → Grounded entered)

/-- If the outcome is a state, then a step in code leads there. -/
def OutcomeInCode (e : Eraser) (outcome : Except Overflow Eraser) : Prop :=
  ∀ e', outcome = .ok e' → CutsInCode e e'

theorem Cuts.inCode (h : Cuts e e') (hread : e'.rest <:+ e.rest.tail) (m : CodeMode)
    (previous : Previous) : CutsInCode e (e'.inCode m previous) :=
  ⟨[.code (m.next previous)], .intro h hread _, fun _ => ⟨_, rfl⟩⟩

theorem outcomeInCode_ok (h : CutsInCode e e') : OutcomeInCode e (.ok e') := by
  rintro _ ⟨⟩
  exact h

theorem outcomeInCode_ite {p : Prop} [Decidable p] {a b : Except Overflow Eraser}
    (ha : p → OutcomeInCode e a) (hb : ¬p → OutcomeInCode e b) :
    OutcomeInCode e (if p then a else b) := by
  split
  · exact ha ‹_›
  · exact hb ‹_›

section

variable {c : Char} {s : Text} (hcs : e.rest = c :: s)

include hcs

theorem cutsTo_keep {rest : Text} (hrest : rest <:+ s) (entered : List Mode) :
    CutsTo e entered ((e.keep rest).within entered) := by
  have htail : rest <:+ e.rest.tail := by rwa [hcs]
  exact .intro (Cuts.refl.keep (htail.trans (List.tail_suffix _))) htail entered

theorem cutsInCode_keep {rest : Text} (hrest : rest <:+ s) (m : CodeMode) :
    CutsInCode e ((e.keep rest).enter (.code m)) :=
  ⟨[.code m], cutsTo_keep hcs hrest _, fun _ => ⟨m, rfl⟩⟩

theorem cutsInCode_erase (hc : isSpace c = false) (rule : ErasureRule) {rest : Text}
    (hrest : rest <:+ s) (m : CodeMode) (previous : Previous) :
    CutsInCode e ((e.erase rule rest).inCode m previous) := by
  have htail : rest <:+ e.rest.tail := by rwa [hcs]
  exact (Cuts.refl.erase rule (cutOff_of_cons hcs hc hrest)).inCode htail m previous

/-! #### Words -/

theorem outcomeInCode_enum (hc : isSpace c = false) {name : Text} {kept : Eraser}
    (hname : name <:+ s) (hkept : CutsInCode e kept) (m : CodeMode) (previous : Previous) :
    OutcomeInCode e (do
      match ← e.convertEnum? name with
      | some done => return done.inCode m previous
      | none => return kept) := by
  intro e' h
  have htail : name <:+ e.rest.tail := by rwa [hcs]
  cases hdone : e.convertEnum? name with
  | error o =>
    rw [hdone] at h
    cases h
  | ok done? =>
    rw [hdone] at h
    cases done? with
    | none =>
      cases h
      exact hkept
    | some done =>
      cases h
      obtain ⟨hcuts, hread⟩ := cuts_convertEnum? hcs hc hname hdone
      exact hcuts.inCode (hread.trans htail) m previous

theorem outcomeInCode_stepWord (m : CodeMode) (hstart : isIdentStart c = true) :
    OutcomeInCode e (e.stepWord m) := by
  have hc : isSpace c = false := isSpace_eq_false_of_isIdentChar (isIdentChar_of_start hstart)
  have hword : skipIdent e.rest <:+ s := by
    rw [hcs]
    exact suffix_tail_skipIdent (s := c :: s) hstart
  have hnext : Text.skipBlanks (skipIdent e.rest) <:+ s :=
    (Text.suffix_skipBlanks _).trans hword
  have hkept : ∀ previous, CutsInCode e ((e.keep (skipIdent e.rest)).inCode m previous) :=
    fun previous => cutsInCode_keep hcs hword (m.next previous)
  have hremoved : ∀ rule {rest} previous, rest <:+ s →
      OutcomeInCode e (.ok ((e.erase rule rest).inCode m previous)) :=
    fun rule rest previous hrest =>
      outcomeInCode_ok (cutsInCode_erase hcs hc rule hrest m previous)
  have hkeep : Cuts e (e.keep (skipIdent e.rest)) := Cuts.refl.keep (suffix_skipIdent e.rest)
  have hkeepRead : (e.keep (skipIdent e.rest)).rest <:+ e.rest.tail := by
    rw [hcs] at hword ⊢
    exact hword
  unfold stepWord
  dsimp only
  refine outcomeInCode_ite ?_ fun _ => outcomeInCode_ite ?_ fun _ => outcomeInCode_ite ?_
    fun _ => outcomeInCode_ite ?_ fun _ => outcomeInCode_ite ?_ fun _ => outcomeInCode_ite ?_
    fun _ => outcomeInCode_ite ?_ fun _ => outcomeInCode_ite ?_ fun _ => outcomeInCode_ite ?_
    fun _ => outcomeInCode_ite ?_ fun _ => outcomeInCode_ite ?_ fun _ =>
      outcomeInCode_ok (hkept _)
  · intro _
    split
    · rename_i rest hrest
      exact hremoved _ _ ((suffix_interfaceRest? hrest).trans hnext)
    · exact outcomeInCode_ok (hkept _)
  · intro _
    split
    · rename_i rest hrest
      exact hremoved _ _ ((suffix_aliasRest? hrest).trans hnext)
    · exact outcomeInCode_ok (hkept _)
  · exact fun _ => hremoved _ _ ((suffix_statementRestFrom _ _ _).trans hnext)
  · exact fun _ => outcomeInCode_enum hcs hc hnext (hkept _) m _
  · intro _
    have hname := (Text.suffix_skipBlanks _).trans ((suffix_skipIdent _).trans hnext)
    exact outcomeInCode_enum hcs hc hname (hkept _) m _
  · exact fun _ => hremoved _ _ hnext
  · intro _
    have hheader := cuts_eraseHeader (skipIdent e.rest).length (e.keep (skipIdent e.rest))
    exact outcomeInCode_ok
      ((hkeep.trans hheader).inCode (hheader.suffix.trans hkeepRead) _ _)
  · intro _
    have hvariable := cuts_eraseVariable (e.keep (skipIdent e.rest))
    exact outcomeInCode_ok
      ((hkeep.trans hvariable).inCode (hvariable.suffix.trans hkeepRead) _ _)
  · intro _
    split
    · rename_i rest hrest
      exact hremoved _ _ ((suffix_afterThisType? hrest).trans hnext)
    · exact outcomeInCode_ok (hkept _)
  · intro _
    split
    · rename_i rest hrest
      have hasserted : rest <:+ s := by
        split at hrest
        · cases hrest
          exact (suffix_skipIdent _).trans hnext
        · exact (suffix_afterType? hrest).trans hword
      have htail : rest <:+ e.rest.tail := by rwa [hcs]
      have hcut := cutOff_of_cons hcs hc hasserted
      exact outcomeInCode_ok ((Cuts.refl.trim _ hcut).inCode htail m _)
    · exact outcomeInCode_ok (hkept _)
  · exact fun _ => hremoved _ _ hnext

/-! #### Signs -/

theorem cutsInCode_stepSlash (m : CodeMode) : CutsInCode e (e.stepSlash m s) := by
  have hkept : ∀ {rest} previous, rest <:+ s →
      CutsInCode e (e.keepToken m rest previous) :=
    fun previous hrest => cutsInCode_keep hcs hrest (m.next previous)
  unfold stepSlash
  split
  · split
    · rename_i rest hrest
      exact hkept _ (suffix_regexRest? hrest)
    · exact hkept _ List.suffix_rfl
  · exact hkept _ List.suffix_rfl

theorem cutsInCode_stepQuestion (hc : isSpace c = false) (m : CodeMode) :
    CutsInCode e (e.stepQuestion m s) := by
  have hkept : ∀ {rest} m previous, rest <:+ s →
      CutsInCode e (e.keepToken m rest previous) :=
    fun m previous hrest => cutsInCode_keep hcs hrest (CodeMode.next m previous)
  unfold stepQuestion
  dsimp only
  split
  · exact hkept _ _ (List.suffix_cons _ _)
  · split_ifs
    · exact hkept _ _ (List.drop_suffix 1 s)
    · exact cutsInCode_erase hcs hc _ List.suffix_rfl m _
    · exact hkept _ _ List.suffix_rfl

theorem cutsInCode_stepColon (hc : isSpace c = false) (m : CodeMode) :
    CutsInCode e (e.stepColon m s) := by
  have hkept : ∀ m previous, CutsInCode e (e.keepToken m s previous) :=
    fun m previous => cutsInCode_keep hcs List.suffix_rfl (CodeMode.next m previous)
  unfold stepColon
  dsimp only
  split
  · exact hkept _ _
  · split
    · rename_i rest hrest
      rw [Option.ite_none_right_eq_some] at hrest
      exact cutsInCode_erase hcs hc _ (suffix_afterType? hrest.2) m _
    · exact hkept _ _

theorem cutsInCode_stepBang (hc : isSpace c = false) (m : CodeMode) : CutsInCode e (e.stepBang m s) := by
  unfold stepBang
  dsimp only
  split
  · exact cutsInCode_erase hcs hc _ List.suffix_rfl m _
  · exact cutsInCode_keep hcs List.suffix_rfl _

theorem cutsInCode_stepRoundEnd (m : CodeMode) : CutsInCode e (e.stepRoundEnd m s) := by
  have hkeep : Cuts e (e.keep s) := Cuts.refl.keep (hcs ▸ List.suffix_cons c s)
  have hread : (e.keep s).rest <:+ e.rest.tail := by
    rw [hcs]
    exact List.suffix_rfl
  unfold stepRoundEnd
  split
  · have htype := cuts_eraseReturnType (e.keep s) m.top m.pop.top
    exact (hkeep.trans htype).inCode (htype.suffix.trans hread) _ _
  · exact hkeep.inCode hread _ _

theorem cutsInCode_stepComma (m : CodeMode) : CutsInCode e (e.stepComma m s) := by
  have hkeep : Cuts e (e.keep s) := Cuts.refl.keep (hcs ▸ List.suffix_cons c s)
  have hread : (e.keep s).rest <:+ e.rest.tail := by
    rw [hcs]
    exact List.suffix_rfl
  unfold stepComma
  dsimp only
  split
  · split
    · rename_i bound previous hbound
      have hdeclarator := cuts_eraseDeclarator? hbound
      exact (hkeep.trans hdeclarator).inCode (hdeclarator.suffix.trans hread) _ _
    · exact hkeep.inCode hread _ _
  · exact hkeep.inCode hread _ _

theorem cutsInCode_stepAngle (hc : isSpace c = false) (m : CodeMode) :
    CutsInCode e (e.stepAngle m s) := by
  have hrest : ∀ {rest}, rest <:+ e.rest.tail → rest <:+ s := by
    intro rest h
    rwa [hcs] at h
  unfold stepAngle
  dsimp only
  split
  · rename_i rest harrow
    rw [Option.ite_none_right_eq_some] at harrow
    exact cutsInCode_erase hcs hc _ (hrest (suffix_tail_afterArrowParameters? harrow.2)) m _
  · split
    · obtain ⟨rest, mode, hmarkup, hopen⟩ := exists_openElement_eq s
      rw [hopen]
      exact ⟨[mode, .code (m.next .value)], cutsTo_keep hcs hmarkup _, fun _ => ⟨_, rfl⟩⟩
    · split
      · rename_i rule rest hcall
        exact cutsInCode_erase hcs hc _ (hrest (suffix_tail_afterCallArguments? hcall)) m _
      · exact cutsInCode_keep hcs List.suffix_rfl _

theorem cutsInCode_stepCurlyEnd (m : CodeMode) : CutsInCode e (e.stepCurlyEnd m s) := by
  unfold stepCurlyEnd
  split
  · rename_i hback
    refine ⟨[], cutsTo_keep hcs List.suffix_rfl [], fun hnil => ?_⟩
    rw [hnil] at hback
    simp at hback
  · exact cutsInCode_keep hcs List.suffix_rfl _

/-! #### Code -/

theorem outcomeInCode_stepToken (m : CodeMode) : OutcomeInCode e (e.stepToken m c s) := by
  have hkept : ∀ {m rest} previous, rest <:+ s →
      OutcomeInCode e (.ok (e.keepToken m rest previous)) :=
    fun {m} _ previous hrest =>
      outcomeInCode_ok (cutsInCode_keep hcs hrest (m.next previous))
  have hnext : ∀ {m} previous, OutcomeInCode e (.ok (e.keepToken m s previous)) :=
    fun previous => hkept previous List.suffix_rfl
  unfold stepToken
  dsimp only
  refine outcomeInCode_ite (outcomeInCode_stepWord hcs m) fun _ => ?_
  refine outcomeInCode_ite (fun _ => outcomeInCode_ok (cutsInCode_stepSlash hcs m))
    fun _ => ?_
  refine outcomeInCode_ite (fun _ => hkept _ (suffix_stringRest c s)) fun _ => ?_
  refine outcomeInCode_ite (fun _ => outcomeInCode_ok ⟨[.template, .code (m.next .value)],
    cutsTo_keep hcs List.suffix_rfl _, fun _ => ⟨_, rfl⟩⟩) fun _ => ?_
  refine outcomeInCode_ite (fun _ => hnext _) fun _ => ?_
  refine outcomeInCode_ite (fun _ => outcomeInCode_ok (cutsInCode_stepRoundEnd hcs m))
    fun _ => ?_
  refine outcomeInCode_ite (fun _ => hnext _) fun _ => ?_
  refine outcomeInCode_ite (fun _ => hnext _) fun _ => ?_
  refine outcomeInCode_ite (fun _ => hnext _) fun _ => ?_
  refine outcomeInCode_ite (fun _ => outcomeInCode_ok (cutsInCode_stepCurlyEnd hcs m))
    fun _ => ?_
  refine outcomeInCode_ite
    (fun hc => outcomeInCode_ok (cutsInCode_stepQuestion hcs (by rw [hc]; rfl) m)) fun _ => ?_
  refine outcomeInCode_ite
    (fun hc => outcomeInCode_ok (cutsInCode_stepColon hcs (by rw [hc]; rfl) m)) fun _ => ?_
  refine outcomeInCode_ite
    (fun hc => outcomeInCode_ok (cutsInCode_stepBang hcs (by rw [hc]; rfl) m)) fun _ => ?_
  refine outcomeInCode_ite
    (fun hc => outcomeInCode_ok (cutsInCode_stepAngle hcs (by rw [hc]; rfl) m)) fun _ => ?_
  refine outcomeInCode_ite (fun _ => ?_) fun _ => ?_
  · split
    · exact hkept _ (List.suffix_cons _ _)
    · exact hnext _
  refine outcomeInCode_ite (fun _ => hkept _ (List.dropWhile_suffix _)) fun _ => ?_
  refine outcomeInCode_ite (fun _ => hkept _ (List.dropWhile_suffix _)) fun _ => ?_
  refine outcomeInCode_ite (fun _ => outcomeInCode_ok (cutsInCode_stepComma hcs m))
    fun _ => ?_
  refine outcomeInCode_ite (fun _ => hnext _) fun _ => ?_
  exact outcomeInCode_ite (fun _ => hnext _) fun _ => hnext _

theorem outcomeInCode_stepCode (m : CodeMode) : OutcomeInCode e (e.stepCode m c s) := by
  have hkept : ∀ {rest} m, rest <:+ s →
      OutcomeInCode e (.ok ((e.keep rest).enter (.code m))) :=
    fun m hrest => outcomeInCode_ok (cutsInCode_keep hcs hrest m)
  unfold stepCode
  split
  · exact hkept _ List.suffix_rfl
  split
  · exact hkept _ List.suffix_rfl
  split
  · rename_i t hpair
    obtain ⟨-, rfl⟩ := List.cons.inj hpair
    exact hkept _ ((List.dropWhile_suffix _).trans (List.suffix_cons _ t))
  · rename_i t hpair
    obtain ⟨-, rfl⟩ := List.cons.inj hpair
    exact hkept _ ((suffix_blockRest t).trans (List.suffix_cons _ t))
  · exact outcomeInCode_stepToken hcs m

/-! #### Templates and markup -/

theorem cutsTo_stepTemplate : ∃ entered, CutsTo e entered (e.stepTemplate c s) := by
  unfold stepTemplate
  split
  · exact ⟨[.template], cutsTo_keep hcs (List.drop_suffix 1 s) _⟩
  split
  · exact ⟨[], cutsTo_keep hcs List.suffix_rfl _⟩
  split
  · rename_i inside hpair
    obtain ⟨-, rfl⟩ := List.cons.inj hpair
    exact ⟨[.code {}, .template], cutsTo_keep hcs (List.suffix_cons _ inside) _⟩
  · exact ⟨[.template], cutsTo_keep hcs List.suffix_rfl _⟩

theorem cutsTo_stepTag : ∃ entered, CutsTo e entered (e.stepTag c s) := by
  unfold stepTag
  split_ifs
  · exact ⟨[], cutsTo_keep hcs (List.drop_suffix 1 s) _⟩
  · exact ⟨[.children], cutsTo_keep hcs List.suffix_rfl _⟩
  · exact ⟨[.code {}, .tag], cutsTo_keep hcs List.suffix_rfl _⟩
  · exact ⟨[.tag], cutsTo_keep hcs (suffix_behind c s) _⟩
  · obtain ⟨rest, mode, hmarkup, hopen⟩ := exists_openElement_eq s
    rw [hopen]
    exact ⟨[mode, .tag], cutsTo_keep hcs hmarkup _⟩
  · exact ⟨[.tag], cutsTo_keep hcs List.suffix_rfl _⟩

theorem cutsTo_stepChildren : ∃ entered, CutsTo e entered (e.stepChildren c s) := by
  unfold stepChildren
  split
  · split
    · rename_i name
      exact ⟨[], cutsTo_keep hcs ((suffix_behind _ name).trans (List.suffix_cons _ name)) _⟩
    · obtain ⟨rest, mode, hmarkup, hopen⟩ := exists_openElement_eq s
      rw [hopen]
      exact ⟨[mode, .children], cutsTo_keep hcs hmarkup _⟩
  · split
    · exact ⟨[.code {}, .children], cutsTo_keep hcs List.suffix_rfl _⟩
    · exact ⟨[.children], cutsTo_keep hcs List.suffix_rfl _⟩

end

/-! ### Every step -/

/-- **A step cuts the text behind at least one character**, and where nothing is around the code
that it is in, it goes on in code. -/
theorem cutsTo_step (hrest : e.rest ≠ []) {mode : Mode} {outer : List Mode}
    (hmodes : e.modes = mode :: outer) (h : e.step = .ok e') :
    ∃ entered, CutsTo { e with modes := outer } entered e' ∧
      ((∃ m, mode = .code m) → outer = [] → Grounded entered) := by
  obtain ⟨c, s, hcs⟩ := List.exists_cons_of_ne_nil hrest
  have hstart : ({ e with modes := outer } : Eraser).rest = c :: s := hcs
  unfold step at h
  split at h
  · rename_i c' s' mode' outer' hcs' hmodes'
    obtain ⟨rfl, rfl⟩ := List.cons.inj (hcs.symm.trans hcs')
    obtain ⟨rfl, rfl⟩ := List.cons.inj (hmodes.symm.trans hmodes')
    cases mode with
    | code m =>
      obtain ⟨entered, hcuts, hground⟩ := outcomeInCode_stepCode hstart m e' h
      exact ⟨entered, hcuts, fun _ => hground⟩
    | template =>
      obtain ⟨entered, hcuts⟩ := cutsTo_stepTemplate hstart
      cases h
      exact ⟨entered, hcuts, nofun⟩
    | tag =>
      obtain ⟨entered, hcuts⟩ := cutsTo_stepTag hstart
      cases h
      exact ⟨entered, hcuts, nofun⟩
    | children =>
      obtain ⟨entered, hcuts⟩ := cutsTo_stepChildren hstart
      cases h
      exact ⟨entered, hcuts, nofun⟩
  · rename_i hnone
    exact (hnone c s mode outer hcs hmodes).elim

/-- A step keeps the ground: what is left behind is left to what is around, and code that nothing
is around is not left. -/
theorem Grounded.step {mode : Mode} {entered outer : List Mode} (h : Grounded (mode :: outer))
    (hcode : (∃ m, mode = .code m) → outer = [] → Grounded entered) :
    Grounded (entered ++ outer) := by
  obtain ⟨m, hm⟩ := h
  cases outer with
  | nil =>
    rw [List.append_nil]
    exact hcode ⟨m, Option.some.inj hm⟩ rfl
  | cons mode' outer =>
    rw [List.getLast?_cons_cons] at hm
    exact ⟨m, by rw [List.getLast?_append, hm, Option.some_or]⟩

end LivePreview.Erasure.Eraser
