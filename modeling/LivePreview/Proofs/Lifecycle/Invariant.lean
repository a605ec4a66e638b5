/-
The fields of a life agree with each other and with its history.

A life keeps its phase, its token, its draft, the name of its run and its pending grace
period in fields of their own.  `Coherent` says how they hang together, and no transition
breaks it: a grace period is pending exactly while a run is loading, nothing has a name
before the first draft or when there is nothing to see.  What ties a life to its history is
counted apart: the token counts the runs, and the draft is the last one that came.

Between two starts the phase only moves forward, from loading to success and from either to
a failure, where it stays.
-/
import LivePreview.Bundled
import LivePreview.Proofs.Lifecycle.Transition

namespace LivePreview

/-! ### Phases -/

namespace Phase

/-- The moves of a phase between two starts. -/
inductive Moves : Phase → Phase → Prop
  | stay (p : Phase) : Moves p p
  | succeed : Moves .loading .success
  | failLoading (message : Text) : Moves .loading (.error message)
  | failSuccess (message : Text) : Moves .success (.error message)

theorem Moves.trans {p q r : Phase} (hpq : Moves p q) (hqr : Moves q r) :
    Moves p r := by
  cases hpq with
  | stay => exact hqr
  | succeed =>
    cases hqr with
    | stay => exact .succeed
    | failSuccess message => exact .failLoading message
  | failLoading message =>
    cases hqr
    exact .failLoading message
  | failSuccess message =>
    cases hqr
    exact .failSuccess message

/-- A phase that failed does not move. -/
theorem Moves.of_error {message : Text} {p : Phase} (h : Moves (.error message) p) :
    p = .error message := by
  cases h
  rfl

theorem message?_isSome_iff (p : Phase) : p.message?.isSome ↔ p.name = "error" := by
  cases p with
  | error message => exact iff_of_true rfl rfl
  | idle | loading | success => exact iff_of_false Bool.false_ne_true (by decide)

end Phase

namespace Lifecycle

variable {l : Lifecycle} {e : Event}

/-! ### Fields agree -/

/-- How the fields of a life hang together. -/
structure Coherent (l : Lifecycle) : Prop where
  grace : l.grace = if l.phase = .loading then some l.token else none
  idle : l.phase = .idle ↔ l.draft = none
  token : l.token = 0 ↔ l.draft = none
  runId : l.runId = none ↔ ∀ d, l.draft = some d → d.isBlank = true

theorem coherent_new (options : Options) : Coherent (new options) := by
  refine ⟨rfl, iff_of_true rfl rfl, iff_of_true rfl rfl, iff_of_true rfl ?_⟩
  intro d hd
  cases hd

theorem Started.coherent [Platform]
    {d : Draft} {next : Lifecycle × List Command} (h : Started l d next) :
    Coherent next.1 := by
  cases h with
  | blank hblank =>
    refine ⟨rfl, by simp, by simp, iff_of_true rfl ?_⟩
    intro d' hd
    rwa [← Option.some.inj hd]
  | loading hblank hpage => exact ⟨rfl, by simp, by simp, by simp [hblank]⟩
  | failed hblank hpage => exact ⟨rfl, by simp, by simp, by simp [hblank]⟩

/-- A run with a name has a draft. -/
theorem Coherent.draft_ne_none (h : Coherent l) {id : Text} (hrun : l.runId = some id) :
    l.draft ≠ none := by
  intro hnone
  have hid : l.runId = none := by
    refine h.runId.mpr ?_
    intro d hd
    rw [hnone] at hd
    cases hd
  rw [hrun] at hid
  cases hid

theorem Answered.coherent [Platform] {next : Lifecycle × List Command} (h : Answered l e next)
    (hl : Coherent l) : Coherent next.1 := by
  cases h with
  | succeeded hevent hgrace hphase =>
    have hdraft : l.draft ≠ none := by
      intro hnone
      rw [hl.idle.mpr hnone] at hphase
      cases hphase
    exact ⟨rfl, iff_of_false Phase.noConfusion hdraft, hl.token, hl.runId⟩
  | failed hevent hrun hphase =>
    exact ⟨rfl, iff_of_false Phase.noConfusion (hl.draft_ne_none hrun), hl.token, hl.runId⟩
  | ignored => exact hl

theorem Coherent.step [Platform] (h : Coherent l) (e : Event) : Coherent (l.step e).1 := by
  obtain ⟨d, -, hstarted⟩ | ⟨-, hanswered⟩ := l.step_transition e
  · exact hstarted.coherent
  · exact hanswered.coherent h

theorem Coherent.run [Platform]
    (h : Coherent l) (events : List Event) : Coherent (l.run events).1 := by
  induction events generalizing l with
  | nil => exact h
  | cons e later ih => exact ih (h.step e)

/-- The name of a run opens with the numeral of its token and a dash. -/
theorem Current.isPrefix_runId [Platform] (h : Current l) {id : Text} (hid : l.runId = some id) :
    Text.ofNat l.token ++ ['-'] <+: id := by
  obtain ⟨code, rfl⟩ := h.runId id hid
  exact ⟨codeMark code, by simp [runIdOf]⟩

/-! ### Histories -/

/-- True of an event that brings a draft. -/
def Event.isDraft (e : Event) : Bool := e.draft?.isSome

/-- True of a retry. -/
def Event.isRetry : Event → Bool
  | .retry => true
  | _ => false

/-- How many runs a history starts: one for each draft, and one for each retry behind the
first draft. -/
def startCount (events : List Event) : Nat :=
  events.countP Event.isDraft + (events.dropWhile fun e => !e.isDraft).countP Event.isRetry

theorem draft_step [Platform]
    (l : Lifecycle) (e : Event) : (l.step e).1.draft = e.draft?.or l.draft := by
  obtain ⟨d, hd, hstarted⟩ | ⟨hnone, hanswered⟩ := l.step_transition e
  · rw [hstarted.draft]
    cases e with
    | draft d' =>
      cases hd
      rfl
    | retry => exact hd.symm
    | graceElapsed | report | receive => cases hd
  · rw [hanswered.draft]
    cases e with
    | draft d => cases hnone
    | retry | graceElapsed | report | receive => rfl

/-- The draft of a life is the last one that came. -/
theorem draft_run [Platform] (l : Lifecycle) (events : List Event) :
    (l.run events).1.draft = (events.filterMap Event.draft?).getLast?.or l.draft := by
  induction events generalizing l with
  | nil => rfl
  | cons e later ih =>
    rw [run_cons, ih, draft_step, ← Option.or_assoc]
    cases hd : e.draft? with
    | none => rw [List.filterMap_cons_none hd, Option.or_none]
    | some d =>
      rw [List.filterMap_cons_some hd, List.getLast?_cons]
      cases (later.filterMap Event.draft?).getLast? <;> rfl

theorem draft_run_eq_none_iff [Platform] (hnone : l.draft = none) (events : List Event) :
    (l.run events).1.draft = none ↔ ∀ d, .draft d ∉ events := by
  have hmem : ∀ d, d ∈ events.filterMap Event.draft? ↔ .draft d ∈ events := by
    intro d
    rw [List.mem_filterMap]
    constructor
    · rintro ⟨e, he, hd⟩
      cases e with
      | draft d' =>
        cases hd
        exact he
      | retry | graceElapsed | report | receive => cases hd
    · intro hd
      exact ⟨.draft d, hd, rfl⟩
  rw [draft_run, hnone, Option.or_none, List.getLast?_eq_none_iff, List.eq_nil_iff_forall_not_mem]
  exact forall_congr' fun d => not_congr (hmem d)

/-- What an event adds to the token. -/
theorem token_step [Platform] (l : Lifecycle) (e : Event) :
    (l.step e).1.token = l.token + (l.started? e).toList.length := by
  obtain ⟨d, hd, hstarted⟩ | ⟨hnone, hanswered⟩ := l.step_transition e
  · rw [hstarted.token, hd]
    rfl
  · rw [hanswered.token, hnone]
    rfl

/-- Once there is a draft, each draft and each retry starts a run. -/
theorem token_run_of_draft [Platform] (hdraft : l.draft ≠ none) (events : List Event) :
    (l.run events).1.token
      = l.token + (events.countP Event.isDraft + events.countP Event.isRetry) := by
  induction events generalizing l with
  | nil => rfl
  | cons e later ih =>
    obtain ⟨d, hd⟩ := Option.ne_none_iff_exists'.mp hdraft
    have hnext : (l.step e).1.draft ≠ none := by
      rw [draft_step, hd]
      cases e.draft? <;> exact Option.some_ne_none _
    rw [run_cons, ih hnext, token_step]
    cases e with
    | draft d' =>
      simp only [started?, Option.toList_some, List.length_singleton, List.countP_cons,
        Event.isDraft, Event.draft?, Event.isRetry, Option.isSome_some, if_true,
        Bool.false_eq_true, if_false]
      omega
    | retry =>
      simp only [started?, hd, Option.toList_some, List.length_singleton, List.countP_cons,
        Event.isDraft, Event.draft?, Event.isRetry, Option.isSome_none, if_true,
        Bool.false_eq_true, if_false]
      omega
    | graceElapsed | report | receive => rfl

/-- The token counts the runs. -/
theorem token_run [Platform] (hnone : l.draft = none) (events : List Event) :
    (l.run events).1.token = l.token + startCount events := by
  induction events generalizing l with
  | nil => rfl
  | cons e later ih =>
    cases he : e.draft? with
    | some d =>
      have hnext : (l.step e).1.draft ≠ none := by
        rw [draft_step, he]
        exact Option.some_ne_none d
      have hfirst : startCount (e :: later)
          = 1 + (later.countP Event.isDraft + later.countP Event.isRetry) := by
        cases e with
        | draft d' =>
          simp only [startCount, List.countP_cons, List.dropWhile_cons, Event.isDraft,
            Event.draft?, Event.isRetry, Option.isSome_some, if_true, Bool.not_true,
            Bool.false_eq_true, if_false]
          omega
        | retry | graceElapsed | report | receive => cases he
      have hstarted : (l.started? e).toList.length = 1 := by
        cases e with
        | draft d' => rfl
        | retry | graceElapsed | report | receive => cases he
      rw [run_cons, token_run_of_draft hnext, token_step, hstarted, hfirst, Nat.add_assoc]
    | none =>
      have hnext : (l.step e).1.draft = none := by
        rw [draft_step, he, hnone]
        rfl
      have hfirst : startCount (e :: later) = startCount later := by
        simp [startCount, Event.isDraft, he]
      have hstarted : l.started? e = none := by
        cases e with
        | draft d => cases he
        | retry => exact hnone
        | graceElapsed | report | receive => rfl
      rw [run_cons, ih hnext, token_step, hstarted, hfirst]
      rfl

/-! ### Between two starts -/

theorem Answered.moves [Platform] {next : Lifecycle × List Command} (h : Answered l e next)
    (hl : Coherent l) : Phase.Moves l.phase next.1.phase := by
  cases h with
  | succeeded hevent hgrace hphase =>
    rw [hphase]
    exact .succeed
  | @failed r hevent hrun hphase =>
    show Phase.Moves l.phase (.error r.message)
    cases hp : l.phase with
    | idle => exact absurd (hl.idle.mp hp) (hl.draft_ne_none hrun)
    | loading => exact .failLoading r.message
    | success => exact .failSuccess r.message
    | error message =>
      rw [hp] at hphase
      cases hphase
  | ignored => exact .stay l.phase

/-- An event that starts no run starts none behind another such event either. -/
theorem not_starts_step [Platform] {e' : Event} (he : ¬l.Starts e) (he' : ¬l.Starts e') :
    ¬(l.step e).1.Starts e' := by
  have hanswered : Answered l e (l.step e) := by
    obtain ⟨d, hd, -⟩ | ⟨-, hanswered⟩ := l.step_transition e
    · exact absurd (starts_iff.mpr ⟨d, hd⟩) he
    · exact hanswered
  cases e' with
  | draft d => exact he'
  | retry =>
    show ¬(l.step e).1.draft ≠ none
    rw [hanswered.draft]
    exact he'
  | graceElapsed | report | receive => exact id

theorem moves_run [Platform]
    (hl : Coherent l) {later : List Event} (hlater : ∀ e ∈ later, ¬l.Starts e) :
    Phase.Moves l.phase (l.run later).1.phase := by
  induction later generalizing l with
  | nil => exact .stay l.phase
  | cons e later ih =>
    have he : ¬l.Starts e := hlater e List.mem_cons_self
    have hfirst : Phase.Moves l.phase (l.step e).1.phase := by
      obtain ⟨d, hd, -⟩ | ⟨-, hanswered⟩ := l.step_transition e
      · exact absurd (starts_iff.mpr ⟨d, hd⟩) he
      · exact hanswered.moves hl
    refine hfirst.trans (ih (hl.step e) ?_)
    intro e' he'
    exact not_starts_step he (hlater e' (List.mem_cons_of_mem e he'))

/-! ### All histories -/

/-- **The fields of every life agree with each other and with its history**, and between two
starts its phase only moves forward. -/
theorem coherent_run_new [Platform] (options : Options) (events : List Event) :
    let l := ((new options).run events).1
    l.grace = (if l.phase = .loading then some l.token else none) ∧
    (l.phase.message?.isSome ↔ l.phase.name = "error") ∧
    (l.phase = .idle ↔ ∀ d, .draft d ∉ events) ∧
    (l.phase = .idle ↔ l.token = 0) ∧
    l.draft = (events.filterMap Event.draft?).getLast? ∧
    (l.runId = none ↔ ∀ d, l.draft = some d → d.isBlank = true) ∧
    (∀ id, l.runId = some id → Text.ofNat l.token ++ ['-'] <+: id) ∧
    l.token = startCount events ∧
    ∀ later, (∀ e ∈ later, ¬l.Starts e) →
      Phase.Moves l.phase (l.run later).1.phase ∧
      ∀ message, l.phase = .error message → (l.run later).1.phase = .error message := by
  intro l
  have hl : Coherent l := (coherent_new options).run events
  have hcurrent : Current l := (current_new options).run events
  have htoken : l.token = startCount events := by
    rw [token_run rfl events]
    exact Nat.zero_add _
  have hdraft : l.draft = (events.filterMap Event.draft?).getLast? := by
    rw [draft_run]
    exact Option.or_none
  refine ⟨hl.grace, l.phase.message?_isSome_iff, ?_, hl.idle.trans hl.token.symm, hdraft,
    hl.runId, fun id => hcurrent.isPrefix_runId, htoken, ?_⟩
  · exact hl.idle.trans (draft_run_eq_none_iff rfl events)
  · intro later hlater
    have hmoves := moves_run hl hlater
    refine ⟨hmoves, ?_⟩
    intro message hphase
    rw [hphase] at hmoves
    exact hmoves.of_error

section

open scoped Bundled

/-- A draft with nothing to see has failed, and neither a timer nor a report changes that. -/
theorem blank_draft_stays_failed :
    let l := ((new {}).run [.retry, .draft ⟨[' '], none, none⟩]).1
    l.token = 1 ∧ l.runId = none ∧
      (l.run [.graceElapsed 1, .report ⟨['1', '-'], ['x']⟩]).1.phase
        = .error Failure.emptyInput.message := by
  intro l
  obtain ⟨-, -, -, -, hdraft, hrun, -, htoken, hlater⟩ :=
    coherent_run_new {} [.retry, .draft ⟨[' '], none, none⟩]
  refine ⟨htoken, hrun.mpr ?_, (hlater _ ?_).2 _ rfl⟩
  · intro d hd
    rw [hdraft] at hd
    cases hd
    rfl
  · intro e he
    simp only [List.mem_cons, List.not_mem_nil, or_false] at he
    rcases he with rfl | rfl <;> exact id

end

end Lifecycle

end LivePreview
