/-
What a run writes and counts in front of what it wrote and counted before.

What the eraser has written and counted is never looked at again, but for two things: blanks may be
taken off the end of the output, and the character in front decides about some signs.  So where the
output does not end with a blank and the character in front is known, the eraser does the same
whatever it wrote and counted before.  `onto` puts a state on top of another one, and steps and runs
commute with it.
-/
import LivePreview.Proofs.Erasure.Cuts
import LivePreview.Proofs.Erasure.LoopBound

namespace LivePreview.Erasure

open Script EnumObject
open Text (Stops)

namespace Eraser

/-! ### States on top of states -/

/-- The eraser with what `base` wrote and counted in front. -/
def onto (e base : Eraser) : Eraser :=
  { e with
    before := e.before.or base.before
    out := e.out ++ base.out
    report := ⟨e.report.hits ++ base.report.hits⟩ }

section

variable (e base : Eraser)

@[simp] theorem onto_rest : (e.onto base).rest = e.rest := rfl

@[simp] theorem onto_modes : (e.onto base).modes = e.modes := rfl

@[simp] theorem onto_before : (e.onto base).before = e.before.or base.before := rfl

@[simp] theorem onto_keep (rest : Text) : (e.onto base).keep rest = (e.keep rest).onto base := by
  simp [onto, keep, lastBefore, Option.or_assoc]

@[simp] theorem onto_erase (rule : ErasureRule) (rest : Text) :
    (e.onto base).erase rule rest = (e.erase rule rest).onto base := by
  simp [onto, erase, lastBefore, Option.or_assoc, ErasureReport.hit]

@[simp] theorem onto_write (s : Text) : (e.onto base).write s = (e.write s).onto base := by
  simp [onto, write]

@[simp] theorem onto_enter (mode : Mode) :
    (e.onto base).enter mode = (e.enter mode).onto base := rfl

@[simp] theorem onto_inCode (m : CodeMode) (previous : Previous) :
    (e.onto base).inCode m previous = (e.inCode m previous).onto base := rfl

@[simp] theorem onto_keepToken (m : CodeMode) (rest : Text) (previous : Previous) :
    (e.onto base).keepToken m rest previous = (e.keepToken m rest previous).onto base := by
  simp [keepToken]

@[simp] theorem onto_openCode (s : Text) :
    (e.onto base).openCode s = (e.openCode s).onto base := by
  simp [openCode]

@[simp] theorem onto_openElement (s : Text) :
    (e.onto base).openElement s = (e.openElement s).onto base := by
  unfold openElement
  split <;> simp

end

/-- Blanks are taken off the output only. -/
theorem onto_trimOut (e : Eraser) {base : Eraser} (hbase : Stops isInline base.out) :
    (e.onto base).trimOut = e.trimOut.onto base := by
  simp [onto, trimOut, Text.dropWhile_append_of_stops hbase]

theorem onto_ite {p : Prop} [Decidable p] (e e' base : Eraser) :
    (if p then e.onto base else e'.onto base) = (if p then e else e').onto base := by
  split <;> rfl

/-! ### Variables, headers and enums -/

section Steps

variable {base : Eraser} (hbase : Stops isInline base.out) (e : Eraser)

theorem onto_eraseDefinite : (e.onto base).eraseDefinite = e.eraseDefinite.onto base := by
  unfold eraseDefinite
  rw [onto_rest]
  split <;> simp

theorem onto_eraseDeclarator? :
    (e.onto base).eraseDeclarator? = e.eraseDeclarator?.map fun done => (done.1.onto base, done.2) := by
  unfold eraseDeclarator?
  dsimp only
  rw [onto_rest]
  split
  · rfl
  split
  · split
    · rfl
    · rw [apply_ite (Option.map _)]
      refine if_congr Iff.rfl rfl ?_
      split <;> simp
  · rfl

theorem onto_eraseHeader (n : Nat) :
    (e.onto base).eraseHeader n = (e.eraseHeader n).onto base := by
  induction n generalizing e with
  | zero => rfl
  | succ n ih =>
    unfold eraseHeader
    rw [onto_rest]
    split
    · rfl
    · split_ifs
      · rfl
      · split <;> simp [ih]
      · simp [ih]
      · simp [ih]
      · simp [ih]
      · simp [ih]

theorem onto_convertEnum? (name : Text) : (e.onto base).convertEnum? name
    = (e.convertEnum? name).map fun done => done.map (·.onto base) := by
  unfold convertEnum?
  dsimp only
  split
  · rfl
  split
  · rfl
  split
  · rfl
  · rename_i rest hrest
    generalize render (ident name) _ = object
    cases object with
    | error o => rfl
    | ok object =>
      simp [bind, Except.bind, Except.map]
      rfl

include hbase

theorem onto_eraseVariableType :
    (e.onto base).eraseVariableType = e.eraseVariableType.onto base := by
  unfold eraseVariableType
  rw [onto_rest]
  split
  · split
    · simp [onto_trimOut _ hbase]
    · rfl
  · rfl

theorem onto_eraseVariable : (e.onto base).eraseVariable
    = (e.eraseVariable.1.onto base, e.eraseVariable.2) := by
  unfold eraseVariable
  dsimp only
  rw [onto_rest]
  split
  · rfl
  · simp [onto_eraseDefinite, onto_eraseVariableType hbase]

theorem onto_eraseReturnType (closed outer : Frame) :
    (e.onto base).eraseReturnType closed outer = (e.eraseReturnType closed outer).onto base := by
  unfold eraseReturnType
  rw [onto_rest]
  split
  · split
    · rfl
    split
    · rfl
    · dsimp only
      rw [onto_keep, onto_trimOut _ hbase, onto_erase, onto_ite]
  · rfl

omit hbase

/-! ### Markup -/

theorem onto_stepTag (c : Char) (s : Text) :
    (e.onto base).stepTag c s = (e.stepTag c s).onto base := by
  unfold stepTag
  split_ifs <;> simp

theorem onto_stepChildren (c : Char) (s : Text) :
    (e.onto base).stepChildren c s = (e.stepChildren c s).onto base := by
  unfold stepChildren
  split_ifs
  · split <;> simp
  · simp
  · simp

theorem onto_stepTemplate (c : Char) (s : Text) :
    (e.onto base).stepTemplate c s = (e.stepTemplate c s).onto base := by
  unfold stepTemplate
  split_ifs
  · simp
  · simp
  · split <;> simp

/-! ### Code -/

variable (m : CodeMode)

theorem onto_stepSlash (s : Text) : (e.onto base).stepSlash m s = (e.stepSlash m s).onto base := by
  unfold stepSlash
  split_ifs
  · split <;> simp
  · simp

theorem onto_stepQuestion (s : Text) :
    (e.onto base).stepQuestion m s = (e.stepQuestion m s).onto base := by
  unfold stepQuestion
  split
  · simp
  · dsimp only
    simp only [onto_keepToken, onto_erase, onto_inCode, onto_ite]

theorem onto_stepColon (s : Text) : (e.onto base).stepColon m s = (e.stepColon m s).onto base := by
  unfold stepColon
  split
  · simp
  · dsimp only
    split <;> simp

theorem onto_stepComma (s : Text) : (e.onto base).stepComma m s = (e.stepComma m s).onto base := by
  unfold stepComma
  dsimp only
  rw [onto_keep, onto_eraseDeclarator?]
  split
  · cases (e.keep s).eraseDeclarator? <;> rfl
  · rfl

theorem onto_stepCurlyEnd (s : Text) :
    (e.onto base).stepCurlyEnd m s = (e.stepCurlyEnd m s).onto base := by
  unfold stepCurlyEnd
  rw [onto_modes, onto_keep, onto_keepToken, onto_ite]

/-- The character in front is known, or no rule asks for it. -/
def Settled (e : Eraser) (m : CodeMode) : Prop :=
  e.before.isSome = true ∨ m.previous.endsExpression = false

theorem Settled.any_onto {e : Eraser} {m : CodeMode} (h : Settled e m) (p : Char → Bool)
    (hends : m.previous.endsExpression = true) :
    (e.onto base).before.any p = e.before.any p := by
  have hsome : e.before.isSome = true := h.resolve_right (by simp [hends])
  rw [onto_before, Option.or_of_isSome hsome]

variable {m}

theorem onto_stepBang (hm : Settled e m) (s : Text) :
    (e.onto base).stepBang m s = (e.stepBang m s).onto base := by
  unfold stepBang
  dsimp only
  by_cases hends : m.previous.endsExpression = true
  · rw [hm.any_onto _ hends, onto_erase, onto_inCode, onto_keepToken, onto_ite]
  · have hends : m.previous.endsExpression = false := by simpa using hends
    simp [hends]

theorem onto_afterCallArguments? (hm : Settled e m) :
    (e.onto base).afterCallArguments? m.previous = e.afterCallArguments? m.previous := by
  unfold afterCallArguments?
  split
  · rename_i w hw
    cases hreserved : isReserved w with
    | true => simp
    | false =>
      have hends : m.previous.endsExpression = true := by
        rw [hw]
        simp [Previous.endsExpression, hreserved]
      rw [hm.any_onto _ hends, onto_rest]
  · rfl

theorem onto_stepAngle (hm : Settled e m) (s : Text) :
    (e.onto base).stepAngle m s = (e.stepAngle m s).onto base := by
  unfold stepAngle
  dsimp only
  rw [onto_afterCallArguments? e hm, onto_rest]
  split
  · simp
  · rw [onto_inCode, onto_openElement]
    split
    · rfl
    · split <;> simp

include hbase

theorem onto_stepRoundEnd (s : Text) :
    (e.onto base).stepRoundEnd m s = (e.stepRoundEnd m s).onto base := by
  unfold stepRoundEnd
  split
  · simp [onto_eraseReturnType hbase]
  · simp

omit hbase

/-- Of two outcomes the one is the other on top of `base`. -/
def Onto (base : Eraser) (x y : Except Overflow Eraser) : Prop := x = y.map (·.onto base)

theorem onto_ok {e e' : Eraser} (h : e = e'.onto base) : Onto base (.ok e) (.ok e') := by
  rw [h]
  rfl

theorem onto_ite_outcome {p : Prop} [Decidable p] {x y x' y' : Except Overflow Eraser}
    (hx : Onto base x x') (hy : Onto base y y') :
    Onto base (if p then x else y) (if p then x' else y') := by
  split
  · exact hx
  · exact hy

theorem onto_enum (name : Text) {kept kept' : Eraser} (hkept : kept = kept'.onto base)
    (previous : Previous) :
    Onto base (do match ← (e.onto base).convertEnum? name with
                  | some done => return done.inCode m previous
                  | none => return kept)
      (do match ← e.convertEnum? name with
          | some done => return done.inCode m previous
          | none => return kept') := by
  rw [onto_convertEnum?]
  cases e.convertEnum? name with
  | error o => rfl
  | ok done =>
    cases done with
    | some done => exact onto_ok (onto_inCode done base m previous)
    | none => exact onto_ok hkept

include hbase

theorem onto_stepWord : Onto base ((e.onto base).stepWord m) (e.stepWord m) := by
  have hkept : ∀ m' p, ((e.onto base).keep (skipIdent e.rest)).inCode m' p
      = ((e.keep (skipIdent e.rest)).inCode m' p).onto base := by
    intro m' p
    rw [onto_keep, onto_inCode]
  have hremoved : ∀ rule rest p, Onto base (.ok (((e.onto base).erase rule rest).inCode m p))
      (.ok ((e.erase rule rest).inCode m p)) := by
    intro rule rest p
    rw [onto_erase, onto_inCode]
    exact onto_ok rfl
  unfold stepWord
  dsimp only
  rw [onto_rest]
  refine onto_ite_outcome ?_ (onto_ite_outcome ?_ (onto_ite_outcome (hremoved _ _ _)
    (onto_ite_outcome ?_ (onto_ite_outcome ?_ (onto_ite_outcome (hremoved _ _ _)
    (onto_ite_outcome ?_ (onto_ite_outcome ?_ (onto_ite_outcome ?_ (onto_ite_outcome ?_
    (onto_ite_outcome (hremoved _ _ _) (onto_ok (hkept _ _))))))))))))
  · split
    · exact hremoved _ _ _
    · exact onto_ok (hkept _ _)
  · split
    · exact hremoved _ _ _
    · exact onto_ok (hkept _ _)
  · exact onto_enum e _ (hkept _ _) _
  · exact onto_enum e _ (hkept _ _) _
  · rw [onto_keep, onto_eraseHeader, onto_inCode]
    exact onto_ok rfl
  · rw [onto_keep, onto_eraseVariable hbase]
    exact onto_ok rfl
  · split
    · exact hremoved _ _ _
    · exact onto_ok (hkept _ _)
  · split
    · rw [onto_trimOut _ hbase, onto_erase, onto_inCode]
      exact onto_ok rfl
    · exact onto_ok (hkept _ _)

theorem onto_stepToken (hm : Settled e m) (c : Char) (s : Text) :
    Onto base ((e.onto base).stepToken m c s) (e.stepToken m c s) := by
  have hkept : ∀ m' rest p, Onto base (.ok ((e.onto base).keepToken m' rest p))
      (.ok (e.keepToken m' rest p)) := fun m' rest p => onto_ok (onto_keepToken e base m' rest p)
  unfold stepToken
  refine onto_ite_outcome (onto_stepWord hbase e)
    (onto_ite_outcome (onto_ok (onto_stepSlash e m s)) ?_)
  refine onto_ite_outcome (hkept _ _ _) (onto_ite_outcome ?_ (onto_ite_outcome (hkept _ _ _) ?_))
  · rw [onto_enter, onto_keep, onto_enter]
    exact onto_ok rfl
  refine onto_ite_outcome (onto_ok (onto_stepRoundEnd hbase e s))
    (onto_ite_outcome (hkept _ _ _) (onto_ite_outcome (hkept _ _ _)
    (onto_ite_outcome (hkept _ _ _) ?_)))
  refine onto_ite_outcome (onto_ok (onto_stepCurlyEnd e m s))
    (onto_ite_outcome (onto_ok (onto_stepQuestion e m s))
    (onto_ite_outcome (onto_ok (onto_stepColon e m s))
    (onto_ite_outcome (onto_ok (onto_stepBang e hm s))
    (onto_ite_outcome (onto_ok (onto_stepAngle e hm s)) ?_))))
  refine onto_ite_outcome ?_ (onto_ite_outcome (hkept _ _ _) (onto_ite_outcome (hkept _ _ _) ?_))
  · split <;> exact hkept _ _ _
  exact onto_ite_outcome (onto_ok (onto_stepComma e m s)) (onto_ite_outcome (hkept _ _ _)
    (onto_ite_outcome (hkept _ _ _) (hkept _ _ _)))

theorem onto_stepCode (hm : Settled e m) (c : Char) (s : Text) :
    Onto base ((e.onto base).stepCode m c s) (e.stepCode m c s) := by
  have hkept : ∀ m' rest, Onto base (.ok (((e.onto base).keep rest).enter (.code m')))
      (.ok ((e.keep rest).enter (.code m'))) := by
    intro m' rest
    rw [onto_keep, onto_enter]
    exact onto_ok rfl
  unfold stepCode
  refine onto_ite_outcome (hkept _ _) (onto_ite_outcome (hkept _ _) ?_)
  split
  · exact hkept _ _
  · exact hkept _ _
  · exact onto_stepToken hbase e hm c s

/-! ### Steps and runs -/

omit hbase in
/-- A reader that has read something has a character in front. -/
theorem Cuts.isSome_before {e e' : Eraser} (h : Cuts e e')
    (hlt : e'.rest.length < e.rest.length) : e'.before.isSome = true := by
  have hpiece : ∀ {x : Eraser} {rest : Text}, rest <:+ x.rest →
      (x.rest.length < e.rest.length → x.before.isSome = true) →
      rest.length < e.rest.length → x.rest.length ≤ e.rest.length →
      (x.lastBefore rest).isSome = true := by
    intro x rest hrest hx hlt hle
    obtain ⟨piece, hpiece⟩ := hrest
    rw [lastBefore, ← hpiece, Text.consumed_append, Option.isSome_or, Bool.or_eq_true]
    by_cases hnil : piece = []
    · subst hnil
      exact Or.inr (hx (by rwa [← hpiece]))
    · exact Or.inl (by simpa using hnil)
  induction h with
  | refl => omega
  | keep hcuts hrest ih => exact hpiece hrest ih hlt hcuts.suffix.length_le
  | erase hcuts rule hcut ih => exact hpiece hcut.suffix ih hlt hcuts.suffix.length_le
  | trim hcuts rule hcut ih => exact hpiece hcut.suffix ih hlt hcuts.suffix.length_le
  | convert hcuts object hcut ih => exact hpiece hcut.suffix ih hlt hcuts.suffix.length_le

omit hbase in
theorem isSome_before_of_step {e e' : Eraser} (hrest : e.rest ≠ []) (hmodes : e.modes ≠ [])
    (h : e.step = .ok e') : e'.before.isSome = true := by
  obtain ⟨mode, outer, hmodes⟩ := List.exists_cons_of_ne_nil hmodes
  obtain ⟨entered, hcuts, -⟩ := cutsTo_step hrest hmodes h
  obtain ⟨hcuts, hread⟩ := hcuts
  have hlt := hread.length_le
  rw [List.length_tail] at hlt
  have hpos : 0 < ({ e with modes := outer } : Eraser).rest.length := List.length_pos_iff.mpr hrest
  exact hcuts.isSome_before (by omega)

/-- In code, the character in front is known, or no rule asks for it. -/
def AtEase (e : Eraser) : Prop := ∀ m outer, e.modes = .code m :: outer → Settled e m

theorem onto_step (he : AtEase e) : Onto base (e.onto base).step e.step := by
  obtain ⟨before, rest, out, report, modes⟩ := e
  cases rest with
  | nil => exact onto_ok rfl
  | cons c s =>
    cases modes with
    | nil => exact onto_ok rfl
    | cons mode outer =>
      let inner : Eraser := ⟨before, c :: s, out, report, outer⟩
      cases mode with
      | code m => exact onto_stepCode hbase inner (he m outer rfl) c s
      | template => exact onto_ok (onto_stepTemplate inner c s)
      | tag => exact onto_ok (onto_stepTag inner c s)
      | children => exact onto_ok (onto_stepChildren inner c s)

/-- **What was written and counted stays in front of what a run writes and counts.** -/
theorem onto_run (n : Nat) (he : AtEase e) : Onto base (run n (e.onto base)) (run n e) := by
  induction n generalizing e with
  | zero => exact onto_ok rfl
  | succ n ih =>
    by_cases hmodes : e.modes = []
    · have hmodes' : (e.onto base).modes = [] := hmodes
      rw [run_of_nil (Or.inr hmodes), run_of_nil (Or.inr hmodes')]
      exact onto_ok rfl
    unfold run
    rw [onto_rest]
    split
    · exact onto_ok rfl
    · rename_i hrest
      have hstep := onto_step hbase e he
      rw [Onto] at hstep
      rw [hstep]
      cases hstep : e.step with
      | error o => rfl
      | ok e' =>
        have hbefore := isSome_before_of_step hrest hmodes hstep
        exact ih e' fun _ _ _ => Or.inl hbefore

end Steps

end Eraser

end LivePreview.Erasure
