/-
Erasing what is behind a declaration.

Behind a declaration that was removed, outside of all brackets, the code in front is not the same as
at the start of a text: the token in front is a semicolon and not nothing, and no line has just
begun.  But it says the same to every rule, and behind the next token it is one and the same:
`Alike`.  So what is left of the text is erased like a text of its own, with what was written and
counted in front.
-/
import LivePreview.Proofs.Erasure.Frame
import LivePreview.Proofs.Erasure.TypedErasure

namespace LivePreview.Erasure

open Script EnumObject
open Text (Stops)

namespace Eraser

/-! ### Code that has just begun -/

/-- Code at the start of a text, or behind a declaration outside of all brackets. -/
structure Opening (m : CodeMode) : Prop where
  previous : m.previous = .nothing ∨ m.previous = .sign ';'
  kind : m.top.kind = .root

namespace Opening

variable {m : CodeMode} (hm : Opening m)

include hm

theorem statementMayStart : m.previous.statementMayStart m.newline = true := by
  obtain h | h := hm.previous <;> rw [h] <;> rfl

theorem expressionMayStart : m.previous.expressionMayStart = true := by
  obtain h | h := hm.previous <;> rw [h] <;> rfl

theorem endsExpression : m.previous.endsExpression = false := by
  obtain h | h := hm.previous <;> rw [h] <;> rfl

theorem opensParameters : m.previous.opensParameters = false := by
  obtain h | h := hm.previous <;> rw [h] <;> rfl

theorem isWord : m.previous.isWord = false := by
  obtain h | h := hm.previous <;> rw [h] <;> rfl

/-- No other token is in front. -/
theorem previous_ne {p : Previous} (h₁ : p ≠ .nothing) (h₂ : p ≠ .sign ';') : m.previous ≠ p := by
  obtain h | h := hm.previous <;> rw [h]
  · exact h₁.symm
  · exact h₂.symm

theorem takesTypes : m.top.kind.takesTypes = false := by
  rw [hm.kind]
  rfl

theorem modifiesMember : modifiesMember m = false := by
  simp [Eraser.modifiesMember, hm.kind]

/-- Behind a token that leaves none in front, the code has still just begun. -/
theorem next : Opening (m.next m.previous) := ⟨hm.previous, hm.kind⟩

theorem newline (b : Bool) : Opening { m with newline := b } := ⟨hm.previous, hm.kind⟩

end Opening

/-- States that differ at most in what code that has just begun knows of the token in front. -/
inductive Alike : Eraser → Eraser → Prop where
  | same (e : Eraser) : Alike e e
  | opening (e : Eraser) {m m' : CodeMode} (h : SameCode m m') (hm : Opening m)
    (hm' : Opening m') : Alike (e.enter (.code m)) (e.enter (.code m'))

/-- Outcomes that fail alike, or are alike. -/
inductive AlikeOutcome : Except Overflow Eraser → Except Overflow Eraser → Prop where
  | error (o : Overflow) : AlikeOutcome (.error o) (.error o)
  | ok {e e' : Eraser} (h : Alike e e') : AlikeOutcome (.ok e) (.ok e')

theorem AlikeOutcome.refl (x : Except Overflow Eraser) : AlikeOutcome x x := by
  cases x with
  | error o => exact .error o
  | ok e => exact .ok (.same e)

theorem alikeOutcome_of_eq {x y : Except Overflow Eraser} (h : x = y) : AlikeOutcome x y :=
  h ▸ .refl x

theorem alikeOutcome_ite {p q : Prop} [Decidable p] [Decidable q]
    {x y x' y' : Except Overflow Eraser} (hpq : p ↔ q) (hx : AlikeOutcome x x')
    (hy : AlikeOutcome y y') :
    AlikeOutcome (if p then x else y) (if q then x' else y') := by
  by_cases hp : p
  · rw [if_pos hp, if_pos (hpq.mp hp)]
    exact hx
  · rw [if_neg hp, if_neg (fun hq => hp (hpq.mpr hq))]
    exact hy

section Alike

variable {e : Eraser} {m m' : CodeMode} (h : SameCode m m') (hm : Opening m) (hm' : Opening m')

include h

theorem inCode_congr (e : Eraser) (p : Previous) : e.inCode m p = e.inCode m' p := by
  rw [inCode, inCode, h.next_eq]

theorem alikeOutcome_inCode (e : Eraser) (p : Previous) :
    AlikeOutcome (.ok (e.inCode m p)) (.ok (e.inCode m' p)) :=
  alikeOutcome_of_eq (congrArg Except.ok (inCode_congr h e p))

theorem alikeOutcome_keepToken (e : Eraser) (rest : Text) (p : Previous) :
    AlikeOutcome (.ok (e.keepToken m rest p)) (.ok (e.keepToken m' rest p)) :=
  alikeOutcome_inCode h _ p

theorem alikeOutcome_enum (name : Text) (kept : Eraser) (p p' : Previous) :
    AlikeOutcome
      (do match ← e.convertEnum? name with
          | some done => return done.inCode m p
          | none => return kept.inCode m p')
      (do match ← e.convertEnum? name with
          | some done => return done.inCode m' p
          | none => return kept.inCode m' p') := by
  cases e.convertEnum? name with
  | error o => exact .error o
  | ok done =>
    cases done with
    | some done => exact alikeOutcome_inCode h done p
    | none => exact alikeOutcome_inCode h kept p'

include hm hm'

/-- What leaves no token in front leaves the code as it has begun. -/
theorem alikeOutcome_inCode_previous (e : Eraser) :
    AlikeOutcome (.ok (e.inCode m m.previous)) (.ok (e.inCode m' m'.previous)) :=
  .ok (.opening e ⟨h.top, h.outer, h.header⟩ hm.next hm'.next)

theorem alikeOutcome_stepWord : AlikeOutcome (e.stepWord m) (e.stepWord m') := by
  have hstarts : m.previous.statementMayStart m.newline = m'.previous.statementMayStart m'.newline := by
    rw [hm.statementMayStart, hm'.statementMayStart]
  have hdot : (m.previous != .sign '.') = true ∧ (m'.previous != .sign '.') = true := by
    simp [hm.previous_ne (p := .sign '.') nofun nofun, hm'.previous_ne (p := .sign '.') nofun nofun]
  have hround : m.previous ≠ .sign '(' ∧ m'.previous ≠ .sign '(' :=
    ⟨hm.previous_ne nofun nofun, hm'.previous_ne nofun nofun⟩
  have hends : (m.previous.endsExpression || m.previous == .sign '}') = false ∧
      (m'.previous.endsExpression || m'.previous == .sign '}') = false := by
    simp [hm.endsExpression, hm'.endsExpression, hm.previous_ne (p := .sign '}') nofun nofun,
      hm'.previous_ne (p := .sign '}') nofun nofun]
  have hheader : SameCode { m with header := true } { m' with header := true } :=
    ⟨h.top, h.outer, rfl⟩
  have hdeclarators : SameCode m.listDeclarators m'.listDeclarators :=
    ⟨by rw [CodeMode.listDeclarators, CodeMode.listDeclarators, h.top], h.outer, h.header⟩
  unfold stepWord
  dsimp only
  refine alikeOutcome_ite (by rw [hstarts]) ?_ ?_
  · split <;> exact alikeOutcome_inCode h _ _
  refine alikeOutcome_ite (by rw [hstarts]) ?_ ?_
  · split <;> exact alikeOutcome_inCode h _ _
  refine alikeOutcome_ite (by rw [hstarts, h.top]) (alikeOutcome_inCode h _ _) ?_
  refine alikeOutcome_ite (by rw [hstarts]) (alikeOutcome_enum h _ _ _ _) ?_
  refine alikeOutcome_ite (by rw [hstarts]) (alikeOutcome_enum h _ _ _ _) ?_
  refine alikeOutcome_ite Iff.rfl (alikeOutcome_inCode_previous h hm hm' _) ?_
  refine alikeOutcome_ite (by rw [hdot.1, hdot.2]) ?_ ?_
  · exact alikeOutcome_inCode hheader _ _
  refine alikeOutcome_ite (by rw [hdot.1, hdot.2]) ?_ ?_
  · exact alikeOutcome_inCode hdeclarators _ _
  refine alikeOutcome_ite (by simp only [hround.1, hround.2, decide_false, Bool.and_false,
    Bool.false_and]) ?_ ?_
  · split <;> exact alikeOutcome_inCode h _ _
  refine alikeOutcome_ite (by simp only [hends.1, hends.2, Bool.and_false, Bool.false_and]) ?_ ?_
  · split
    · exact alikeOutcome_inCode_previous h hm hm' _
    · exact alikeOutcome_inCode h _ _
  refine alikeOutcome_ite (by rw [hm.modifiesMember, hm'.modifiesMember]) ?_ ?_
  · exact alikeOutcome_inCode_previous h hm hm' _
  · exact alikeOutcome_inCode h _ _

theorem alikeOutcome_stepAngle (s : Text) :
    AlikeOutcome (.ok (e.stepAngle m s)) (.ok (e.stepAngle m' s)) := by
  have hasync : ∀ {n : CodeMode}, Opening n → (n.previous == .word "async".toList) = false := by
    intro n hn
    have hne : n.previous ≠ .word "async".toList := hn.previous_ne nofun nofun
    simpa using hne
  have hcall : ∀ {n : CodeMode}, Opening n → e.afterCallArguments? n.previous = none := by
    intro n hn
    obtain hp | hp := hn.previous <;> rw [hp] <;> rfl
  unfold stepAngle
  dsimp only
  rw [hasync hm, hasync hm', hm.expressionMayStart, hm'.expressionMayStart, hcall hm, hcall hm',
    inCode_congr h e .value]
  split
  · exact alikeOutcome_inCode_previous h hm hm' _
  · split
    · exact .refl _
    · exact alikeOutcome_keepToken h _ _ _

theorem alikeOutcome_stepQuestion (s : Text) :
    AlikeOutcome (.ok (e.stepQuestion m s)) (.ok (e.stepQuestion m' s)) := by
  have hcounted : SameCode { m with top := { m.top with ternaries := m.top.ternaries + 1 } }
      { m' with top := { m'.top with ternaries := m'.top.ternaries + 1 } } :=
    ⟨by rw [h.top], h.outer, h.header⟩
  unfold stepQuestion
  dsimp only
  rw [hm.isWord, hm'.isWord, Bool.false_and, Bool.false_and]
  split
  · exact alikeOutcome_keepToken h _ _ _
  · simp only [Bool.false_eq_true, if_false]
    split_ifs
    · exact alikeOutcome_keepToken h _ _ _
    · exact alikeOutcome_keepToken hcounted _ _ _

theorem alikeOutcome_stepColon (s : Text) :
    AlikeOutcome (.ok (e.stepColon m s)) (.ok (e.stepColon m' s)) := by
  have hcounted : SameCode { m with top := { m.top with ternaries := m.top.ternaries - 1 } }
      { m' with top := { m.top with ternaries := m.top.ternaries - 1 } } :=
    ⟨rfl, h.outer, h.header⟩
  unfold stepColon
  dsimp only
  rw [hm.takesTypes, hm'.takesTypes, h.top, Bool.false_and, Bool.false_and]
  split
  · exact alikeOutcome_keepToken hcounted _ _ _
  · exact alikeOutcome_keepToken h _ _ _

omit hm hm' in
theorem alikeOutcome_stepComma (s : Text) :
    AlikeOutcome (.ok (e.stepComma m s)) (.ok (e.stepComma m' s)) := by
  unfold stepComma
  dsimp only
  rw [h.top]
  split
  · split <;> exact alikeOutcome_inCode h _ _
  · exact alikeOutcome_inCode h _ _

omit hm hm' in
theorem alikeOutcome_stepCurlyEnd (s : Text) :
    AlikeOutcome (.ok (e.stepCurlyEnd m s)) (.ok (e.stepCurlyEnd m' s)) := by
  have hpop : SameCode m.pop m'.pop := by
    obtain ⟨top, outer, previous, newline, header⟩ := m
    obtain ⟨top', outer', previous', newline', header'⟩ := m'
    obtain ⟨rfl, rfl, rfl⟩ := h
    cases outer' <;> exact ⟨rfl, rfl, rfl⟩
  unfold stepCurlyEnd
  rw [h.outer]
  split
  · exact .refl _
  · exact alikeOutcome_keepToken hpop _ _ _

theorem alikeOutcome_stepToken (c : Char) (s : Text) :
    AlikeOutcome (e.stepToken m c s) (e.stepToken m' c s) := by
  have hpush : ∀ kind, SameCode (m.push kind) (m'.push kind) := by
    intro kind
    exact ⟨rfl, by rw [CodeMode.push, CodeMode.push, h.top, h.outer], h.header⟩
  have hends : SameCode { m with top := { m.top with declarators := false } }
      { m' with top := { m'.top with declarators := false } } :=
    ⟨by rw [h.top], h.outer, h.header⟩
  have hbody : SameCode ({ m with header := false }.push .classBody)
      ({ m' with header := false }.push .classBody) :=
    ⟨rfl, by rw [CodeMode.push, CodeMode.push, h.top, h.outer], rfl⟩
  have hkept := fun rest p => alikeOutcome_keepToken h e rest p
  unfold stepToken
  refine alikeOutcome_ite Iff.rfl (alikeOutcome_stepWord h hm hm') ?_
  refine alikeOutcome_ite Iff.rfl ?_ (alikeOutcome_ite Iff.rfl (hkept _ _) ?_)
  · unfold stepSlash
    rw [hm.expressionMayStart, hm'.expressionMayStart, if_pos rfl, if_pos rfl]
    split <;> exact hkept _ _
  refine alikeOutcome_ite Iff.rfl ?_ (alikeOutcome_ite Iff.rfl ?_ ?_)
  · rw [h.next_eq]
    exact .refl _
  · rw [hm.opensParameters, hm'.opensParameters]
    exact alikeOutcome_keepToken (hpush _) _ _ _
  refine alikeOutcome_ite Iff.rfl ?_ (alikeOutcome_ite Iff.rfl ?_ ?_)
  · unfold stepRoundEnd
    rw [hm.kind, hm'.kind]
    exact hkept _ _
  · exact alikeOutcome_keepToken (hpush _) _ _ _
  refine alikeOutcome_ite Iff.rfl ?_ (alikeOutcome_ite Iff.rfl ?_ ?_)
  · rw [hm.kind, hm'.kind]
    exact hkept _ _
  · dsimp only
    rw [h.header]
    split
    · exact alikeOutcome_keepToken hbody _ _ _
    · exact alikeOutcome_keepToken (hpush _) _ _ _
  refine alikeOutcome_ite Iff.rfl (alikeOutcome_stepCurlyEnd h s)
    (alikeOutcome_ite Iff.rfl (alikeOutcome_stepQuestion h hm hm' s)
    (alikeOutcome_ite Iff.rfl (alikeOutcome_stepColon h hm hm' s) (alikeOutcome_ite Iff.rfl ?_ ?_)))
  · unfold stepBang
    rw [hm.endsExpression, hm'.endsExpression]
    simpa using hkept _ _
  refine alikeOutcome_ite Iff.rfl (alikeOutcome_stepAngle h hm hm' s)
    (alikeOutcome_ite Iff.rfl ?_ ?_)
  · split <;> exact hkept _ _
  refine alikeOutcome_ite Iff.rfl (hkept _ _) (alikeOutcome_ite Iff.rfl (hkept _ _)
    (alikeOutcome_ite Iff.rfl (alikeOutcome_stepComma h s) (alikeOutcome_ite Iff.rfl ?_ ?_)))
  · exact alikeOutcome_keepToken hends _ _ _
  · exact alikeOutcome_ite Iff.rfl (hkept _ _) (hkept _ _)

theorem alikeOutcome_stepCode (c : Char) (s : Text) :
    AlikeOutcome (e.stepCode m c s) (e.stepCode m' c s) := by
  have hblank : ∀ x : Eraser, AlikeOutcome (.ok (x.enter (.code m))) (.ok (x.enter (.code m'))) :=
    fun x => .ok (.opening x h hm hm')
  unfold stepCode
  refine alikeOutcome_ite Iff.rfl ?_ (alikeOutcome_ite Iff.rfl (hblank _) ?_)
  · exact .ok (.opening _ ⟨h.top, h.outer, h.header⟩ (hm.newline true) (hm'.newline true))
  split
  · exact hblank _
  · exact hblank _
  · exact alikeOutcome_stepToken h hm hm' c s

end Alike

theorem Alike.step {e e' : Eraser} (h : Alike e e') : AlikeOutcome e.step e'.step := by
  cases h with
  | same => exact .refl _
  | opening e h hm hm' =>
    cases hrest : e.rest with
    | nil =>
      have hnil : ∀ m, (e.enter (.code m)).step = .ok (e.enter (.code m)) :=
        fun m => step_of_nil (Or.inl hrest)
      rw [hnil, hnil]
      exact .ok (.opening e h hm hm')
    | cons c s =>
      rw [step_code hrest, step_code hrest]
      exact alikeOutcome_stepCode h hm hm' c s

theorem Alike.rest_eq {e e' : Eraser} (h : Alike e e') : e.rest = e'.rest := by
  cases h <;> rfl

/-- Runs from states that are alike end in states that are alike. -/
theorem Alike.run {e e' : Eraser} (h : Alike e e') (n : Nat) :
    AlikeOutcome (Eraser.run n e) (Eraser.run n e') := by
  induction n generalizing e e' with
  | zero => exact .ok h
  | succ n ih =>
    unfold Eraser.run
    rw [h.rest_eq]
    split
    · exact .ok h
    · have hstep := h.step
      generalize e.step = x at hstep ⊢
      generalize e'.step = y at hstep ⊢
      cases hstep with
      | error o => exact .error o
      | ok halike => exact ih halike

/-! ### What is left of a text -/

/-- The text and the hits of a state at its end. -/
def erased (e : Eraser) : Erased := ⟨e.out.reverse, e.report⟩

theorem AlikeOutcome.erased_eq {x y : Except Overflow Eraser} (h : AlikeOutcome x y) :
    x.map erased = y.map erased := by
  cases h with
  | error o => rfl
  | ok h => cases h <;> rfl

end Eraser

/-- What was erased, with `kept` and `hits` in front of it. -/
def Erased.behind (x : Erased) (kept : Text) (hits : List ErasureRule) : Erased :=
  ⟨kept ++ x.code, ⟨x.report.hits ++ hits⟩⟩

@[simp] theorem Erased.behind_behind (x : Erased) (kept kept' : Text)
    (hits hits' : List ErasureRule) :
    (x.behind kept hits).behind kept' hits' = x.behind (kept' ++ kept) (hits ++ hits') := by
  simp [Erased.behind]

theorem map_behind_behind (x : Except EnumObject.Overflow Erased) (kept kept' : Text)
    (hits hits' : List ErasureRule) :
    (x.map fun y => y.behind kept hits).map (fun y => y.behind kept' hits')
      = x.map fun y => y.behind (kept' ++ kept) (hits ++ hits') := by
  cases x with
  | error o => rfl
  | ok y => exact congrArg Except.ok (y.behind_behind kept kept' hits hits')

section

variable {code rest : Text} {ps : List Piece}

/-- The state behind pieces is a state with nothing written yet on top of another one. -/
theorem Eraser.past_eq_onto (code rest : Text) (ps : List Piece) (before : Option Char)
    (hbefore : before.or (wholeText ps).getLast? = (wholeText ps).getLast?) (mode : Mode) :
    ((Eraser.bare code).past ps rest).enter mode
      = ({ before := before, rest := rest, modes := [mode] } : Eraser).onto
        ((Eraser.bare code).past ps rest) := by
  simp [Eraser.past, Eraser.enter, Eraser.onto, Eraser.bare, hbefore]

theorem Eraser.erased_onto_past (e : Eraser) :
    (e.onto ((Eraser.bare code).past ps rest)).erased
      = e.erased.behind (keptText ps) (removals ps).reverse := by
  simp [Eraser.erased, Eraser.onto, Erased.behind, Eraser.past, Eraser.bare]

/-- What was kept and counted up to some place is in front of all that is made of the text. -/
theorem exists_eraseTypes_behind {mode : Mode}
    (h : Eraser.Reaches (Eraser.start code) (((Eraser.bare code).past ps rest).enter mode))
    (hread : wholeText ps ≠ []) (hkept : Stops isInline (keptText ps).reverse) :
    ∃ outcome : Except EnumObject.Overflow Erased,
      eraseTypes code = outcome.map fun x => x.behind (keptText ps) (removals ps).reverse := by
  obtain ⟨k, -, hrun⟩ := h.run_eq (Nat.le_refl _)
  let e : Eraser := { before := (wholeText ps).getLast?, rest := rest, modes := [mode] }
  have hout : ((Eraser.bare code).past ps rest).out = (keptText ps).reverse := List.append_nil _
  have hbefore : e.before.isSome = true := by simpa [e] using hread
  rw [Eraser.past_eq_onto code rest ps (wholeText ps).getLast? (Option.or_self ..)] at hrun
  have honto : Eraser.run k (e.onto ((Eraser.bare code).past ps rest))
      = (Eraser.run k e).map (·.onto ((Eraser.bare code).past ps rest)) :=
    Eraser.onto_run (by rw [hout]; exact hkept) e k fun _ _ _ => Or.inl hbefore
  refine ⟨(Eraser.run k e).map Eraser.erased, ?_⟩
  show (Eraser.run code.length (Eraser.start code)).map Eraser.erased = _
  rw [show Eraser.run code.length (Eraser.start code) = _ from hrun, honto]
  cases Eraser.run k e with
  | error o => rfl
  | ok e => exact congrArg Except.ok (Eraser.erased_onto_past e)

/-- **What is behind a place where code has just begun is erased like a text of its own**, behind
what was written and counted so far. -/
theorem eraseTypes_behind {base : Eraser} {m : CodeMode}
    (h : Eraser.Reaches (Eraser.start code) (base.enter (.code m))) (hmodes : base.modes = [])
    (hm : Eraser.Opening m) (hsame : SameCode m {}) (hout : Stops isInline base.out) :
    eraseTypes code
      = (eraseTypes base.rest).map fun x => x.behind base.out.reverse base.report.hits := by
  obtain ⟨k, hk, hrun⟩ := h.run_eq (Nat.le_refl _)
  let fresh : Eraser := { rest := base.rest, modes := [.code m] }
  have hbase : base.enter (.code m) = fresh.onto base := by
    obtain ⟨before, rest, out, report, modes⟩ := base
    obtain rfl : modes = [] := hmodes
    rfl
  have hease : fresh.AtEase := by
    intro n outer hmodes
    cases hmodes
    exact Or.inr hm.endsExpression
  have honto : Eraser.run k (fresh.onto base) = (Eraser.run k fresh).map (·.onto base) :=
    Eraser.onto_run hout fresh k hease
  have halike : Eraser.Alike fresh (Eraser.start base.rest) :=
    .opening (Eraser.bare base.rest) hsame hm ⟨Or.inl rfl, rfl⟩
  have hstable : Eraser.run k (Eraser.start base.rest)
      = Eraser.run base.rest.length (Eraser.start base.rest) :=
    Eraser.run_stable hk (Nat.le_refl _)
  have heq := (halike.run k).erased_eq
  rw [hstable] at heq
  rw [hbase] at hrun
  show (Eraser.run code.length (Eraser.start code)).map Eraser.erased
    = ((Eraser.run base.rest.length (Eraser.start base.rest)).map Eraser.erased).map _
  rw [← heq, show Eraser.run code.length (Eraser.start code) = _ from hrun, show _ = _ from honto]
  cases Eraser.run k fresh with
  | error o => rfl
  | ok e => simp [Except.map, Eraser.erased, Eraser.onto, Erased.behind]

/-- The same behind pieces that were kept and erased. -/
theorem eraseTypes_of_opening {m : CodeMode}
    (h : Eraser.Reaches (Eraser.start code)
      (((Eraser.bare code).past ps rest).enter (.code m)))
    (hm : Eraser.Opening m) (hsame : SameCode m {})
    (hkept : Stops isInline (keptText ps).reverse) :
    eraseTypes code
      = (eraseTypes rest).map fun x => x.behind (keptText ps) (removals ps).reverse := by
  have hout : ((Eraser.bare code).past ps rest).out = (keptText ps).reverse := List.append_nil _
  have hhits : ((Eraser.bare code).past ps rest).report.hits = (removals ps).reverse :=
    List.append_nil _
  have heq := eraseTypes_behind h rfl hm hsame (hout ▸ hkept)
  rw [hout, hhits, List.reverse_reverse] at heq
  exact heq

/-- A line that ends at the start of a text. -/
theorem eraseTypes_newline (rest : Text) :
    eraseTypes ('\n' :: rest) = (eraseTypes rest).map fun x => x.behind ['\n'] [] := by
  have hreaches : Eraser.Reaches ((Eraser.bare ('\n' :: rest)).enter (.code {}))
      (((Eraser.bare ('\n' :: rest)).past [.kept ['\n']] rest).enter
        (.code { newline := true })) := Eraser.reaches_newline rfl
  exact eraseTypes_of_opening hreaches ⟨Or.inl rfl, rfl⟩ ⟨rfl, rfl, rfl⟩
    (Text.stops_cons.mpr (by decide))

end

/-! ### A declaration at the start of a text -/

/-- What stands between the word that opens a declaration and the end of the name it declares. -/
structure DeclaredName where
  gap : Text
  name : Text
  ne_nil : gap ≠ []
  blank : ∀ c ∈ gap, isBlank c = true
  isWord : IsWord name

/-- One blank is a gap. -/
theorem space_ne_nil : [' '] ≠ [] := List.cons_ne_nil _ _

namespace DeclaredName

variable (d : DeclaredName) {w rest s : Text}

/-- The word that opens a declaration, with the name. -/
def text (w : Text) : Text := w ++ (d.gap ++ d.name)

theorem text_append (w s : Text) : d.text w ++ s = w ++ (d.gap ++ (d.name ++ s)) := by
  simp [text]

theorem stops_isIdentChar_gap : Stops isIdentChar (d.gap ++ (d.name ++ s)) := by
  obtain ⟨c, gap, hgap⟩ := List.exists_cons_of_ne_nil d.ne_nil
  have hc : isBlank c = true := d.blank c (by simp [hgap])
  rw [hgap]
  refine Text.stops_cons.mpr ?_
  by_contra hident
  rw [isBlank_eq_false_of_identChar (by simpa using hident)] at hc
  exact Bool.noConfusion hc

theorem skipBlanks_gap : Text.skipBlanks (d.gap ++ (d.name ++ s)) = d.name ++ s :=
  Text.dropWhile_append d.blank d.isWord.stops_isBlank

theorem isSome_word? : (word? (d.name ++ s)).isSome = true := by
  obtain ⟨c, name, hname, hc⟩ := d.isWord.head
  simp [hname, word?, ident, hc]

/-- The word that opens a declaration is stepped over as a word, with its name behind it. -/
theorem step_text (hw : IsWord w) : (Eraser.start (d.text w ++ s)).step
    = (Eraser.bare (d.text w ++ s)).stepWord {} := by
  obtain ⟨c, t, rfl, hc⟩ := hw.head
  have hrest : (Eraser.bare (d.text (c :: t) ++ s)).rest = c :: (t ++ (d.gap ++ (d.name ++ s))) :=
    d.text_append _ _
  have hblank := isBlank_eq_false_of_identChar (isIdentChar_of_start hc)
  have hslash : c ≠ '/' := by
    rintro rfl
    exact absurd hc (by decide)
  show ((Eraser.bare (d.text (c :: t) ++ s)).enter (.code {})).step = _
  rw [Eraser.step_code hrest, Eraser.stepCode_eq_stepToken hblank hslash]
  unfold Eraser.stepToken
  rw [if_pos hc]

/-- **A declaration that is removed leaves what is behind it to be erased on its own.** -/
theorem eraseTypes_removed {rule : ErasureRule} (hrest : rest <:+ s)
    (hstep : (Eraser.start (d.text w ++ s)).step
      = .ok (((Eraser.bare (d.text w ++ s)).erase rule rest).inCode {} (.sign ';'))) :
    eraseTypes (d.text w ++ s) = (eraseTypes rest).map fun x => x.behind [] [rule] := by
  obtain ⟨removed, rfl⟩ := hrest
  have htext : (Eraser.bare (d.text w ++ (removed ++ rest))).rest
      = (d.text w ++ removed) ++ rest := (List.append_assoc ..).symm
  have hne : d.text w ++ removed ≠ [] := by simp [text, d.ne_nil]
  have hreaches : Eraser.Reaches ((Eraser.bare (d.text w ++ (removed ++ rest))).enter (.code {}))
      (((Eraser.bare (d.text w ++ (removed ++ rest))).past
        [.erased rule (d.text w ++ removed)] rest).enter (.code (CodeMode.next {} (.sign ';')))) := by
    refine Eraser.reaches_past htext hne ?_
    rw [← Eraser.erase_eq rule htext]
    exact hstep
  exact eraseTypes_of_opening hreaches ⟨Or.inr rfl, rfl⟩ ⟨rfl, rfl, rfl⟩ (Text.stops_nil _)

/-- Where no declaration is found behind its word, the word is kept. -/
theorem exists_eraseTypes_kept (hw : IsWord w)
    (hstep : (Eraser.start (d.text w ++ s)).step = .ok
      (((Eraser.bare (d.text w ++ s)).keep (d.gap ++ (d.name ++ s))).inCode {} (.word w))) :
    ∃ outcome : Except EnumObject.Overflow Erased,
      eraseTypes (d.text w ++ s) = outcome.map fun x => x.behind w [] := by
  have htext : (Eraser.bare (d.text w ++ s)).rest = w ++ (d.gap ++ (d.name ++ s)) :=
    d.text_append w s
  have hreaches : Eraser.Reaches ((Eraser.bare (d.text w ++ s)).enter (.code {}))
      (((Eraser.bare (d.text w ++ s)).past [.kept w] (d.gap ++ (d.name ++ s))).enter
        (.code (CodeMode.next {} (.word w)))) := by
    refine Eraser.reaches_past htext hw.ne_nil ?_
    rw [← Eraser.keep_eq htext]
    exact hstep
  have hkept : Stops isInline (keptText [.kept w]).reverse := by
    obtain ⟨c, hlast, hc⟩ := hw.getLast?
    intro x hx
    obtain rfl : c = x := by simpa [keptText, Piece.keptText, hlast] using hx
    exact isInline_eq_false_of_identChar hc
  have hread : wholeText [.kept w] ≠ [] := by simpa [wholeText, Piece.text] using hw.ne_nil
  obtain ⟨outcome, h⟩ := exists_eraseTypes_behind hreaches hread hkept
  have hpieces : keptText [.kept w] = w := List.append_nil w
  rw [hpieces] at h
  exact ⟨outcome, h⟩

end DeclaredName

end LivePreview.Erasure
