/-
All that an event can do.

`Run.lean` says what a transition leaves as it is.  Here is everything else: an event
either starts a run of a draft, which comes to one of three ends, or it answers the run
there is, which it lets succeed, lets fail or ignores.  An invariant of the life of a
preview is then one case analysis over these six and needs no transition to be opened.
-/
import LivePreview.Proofs.Lifecycle.Run

namespace LivePreview.Lifecycle

variable {l : Lifecycle} {e : Event} {d : Draft}

/-! ### Events -/

/-- The draft in an event that brings one. -/
def Event.draft? : Event → Option Draft
  | .draft d => some d
  | _ => none

/-- The failure that an event reports, if it reports one. -/
def Event.report? [Platform] : Event → Option FailureReport
  | .report r => some r
  | .receive payload => FailureReport.read? payload
  | _ => none

/-- The draft that an event starts a run of, if it starts one. -/
def started? (l : Lifecycle) : Event → Option Draft
  | .draft d => some d
  | .retry => l.draft
  | _ => none

theorem starts_iff : l.Starts e ↔ ∃ d, l.started? e = some d := by
  cases e with
  | draft d => exact iff_of_true trivial ⟨d, rfl⟩
  | retry => exact Option.ne_none_iff_exists'
  | graceElapsed token => exact iff_of_false id fun ⟨_, h⟩ => by cases h
  | report r => exact iff_of_false id fun ⟨_, h⟩ => by cases h
  | receive payload => exact iff_of_false id fun ⟨_, h⟩ => by cases h

/-! ### New runs -/

/-- What a run of a draft comes to at once: there is nothing to see, the page is loading, or
there is only a notice to load. -/
inductive Started [Platform] (l : Lifecycle) (d : Draft) : Lifecycle × List Command → Prop
  | blank (hblank : d.isBlank = true) :
      Started l d
        ({ l with
            token := l.token + 1
            draft := some d
            grace := none
            runId := none
            phase := .error Failure.emptyInput.message },
          l.cancellation)
  | loading {page : Page} (hblank : d.isBlank = false)
      (hpage : d.tryPage l.options (l.token + 1) = .ok page) :
      Started l d
        ({ l with
            token := l.token + 1
            draft := some d
            grace := some (l.token + 1)
            runId := some page.runId
            phase := .loading },
          l.cancellation ++ [.mount page, .scheduleGrace (l.token + 1) l.options.gracePeriodMs])
  | failed {failure : Failure} (hblank : d.isBlank = false)
      (hpage : d.tryPage l.options (l.token + 1) = .error failure) :
      Started l d
        ({ l with
            token := l.token + 1
            draft := some d
            grace := none
            runId := some (runIdOf (l.token + 1) d.code)
            phase := .error failure.message },
          l.cancellation ++ [.mount (.ofFailure failure (l.token + 1) d.code l.options)])

theorem started_start [Platform] (l : Lifecycle) (d : Draft) : Started l d (l.start d) := by
  unfold start
  cases hblank : d.isBlank with
  | true => exact .blank hblank
  | false =>
    rw [if_neg Bool.false_ne_true]
    cases hpage : d.tryPage l.options (l.token + 1) with
    | ok page => exact .loading hblank hpage
    | error failure => exact .failed hblank hpage

namespace Started

variable {next : Lifecycle × List Command}

theorem options [Platform] (h : Started l d next) : next.1.options = l.options := by
  cases h <;> rfl

theorem token [Platform] (h : Started l d next) : next.1.token = l.token + 1 := by
  cases h <;> rfl

theorem draft [Platform] (h : Started l d next) : next.1.draft = some d := by
  cases h <;> rfl

end Started

/-! ### Answers to the run there is -/

/-- What an event does that starts no run. -/
inductive Answered [Platform] (l : Lifecycle) (e : Event) : Lifecycle × List Command → Prop
  | succeeded {token : Nat} (hevent : e = .graceElapsed token) (hgrace : l.grace = some token)
      (hphase : l.phase = .loading) :
      Answered l e ({ l with grace := none, phase := .success }, [])
  | failed {r : FailureReport} (hevent : e.report? = some r) (hrun : l.runId = some r.runId)
      (hphase : l.phase.message? = none) :
      Answered l e ({ l with grace := none, phase := .error r.message }, l.cancellation)
  | ignored
      (hgrace : ∀ token, e = .graceElapsed token → ¬(l.grace = some token ∧ l.phase = .loading))
      (hreport : ∀ r, e.report? = some r →
        ¬(l.runId = some r.runId ∧ l.phase.message? = none)) :
      Answered l e (l, [])

theorem answered_graceElapsed [Platform] (l : Lifecycle) (token : Nat) :
    Answered l (.graceElapsed token) (l.step (.graceElapsed token)) := by
  show Answered l (.graceElapsed token) ((l.graceElapsed? token).getD l, [])
  unfold graceElapsed?
  by_cases h : l.grace = some token ∧ l.phase = .loading
  · rw [if_pos h]
    exact .succeeded rfl h.1 h.2
  · rw [if_neg h]
    refine .ignored ?_ ?_
    · intro token' htoken
      cases htoken
      exact h
    · intro r hr
      cases hr

theorem answered_report [Platform] {r : FailureReport} (hevent : e.report? = some r) :
    Answered l e (l.report r) := by
  unfold report
  by_cases h : l.runId = some r.runId ∧ l.phase.message?.isNone
  · rw [if_pos h]
    exact .failed hevent h.1 (Option.isNone_iff_eq_none.mp h.2)
  · rw [if_neg h]
    refine .ignored ?_ ?_
    · rintro token rfl
      cases hevent
    · intro r' hr'
      rw [hevent] at hr'
      cases hr'
      rwa [Option.isNone_iff_eq_none] at h

namespace Answered

variable {next : Lifecycle × List Command}

theorem options [Platform] (h : Answered l e next) : next.1.options = l.options := by
  cases h <;> rfl

theorem token [Platform] (h : Answered l e next) : next.1.token = l.token := by
  cases h <;> rfl

theorem draft [Platform] (h : Answered l e next) : next.1.draft = l.draft := by
  cases h <;> rfl

theorem runId [Platform] (h : Answered l e next) : next.1.runId = l.runId := by
  cases h <;> rfl

end Answered

/-- **An event starts a run of a draft or answers the run there is.** -/
theorem step_transition [Platform] (l : Lifecycle) (e : Event) :
    (∃ d, l.started? e = some d ∧ Started l d (l.step e)) ∨
      l.started? e = none ∧ Answered l e (l.step e) := by
  cases e with
  | draft d => exact Or.inl ⟨d, rfl, started_start l d⟩
  | retry =>
    show (∃ d, l.draft = some d ∧ Started l d l.retry) ∨ l.draft = none ∧ Answered l .retry l.retry
    unfold retry
    cases l.draft with
    | none => exact Or.inr ⟨rfl, .ignored nofun nofun⟩
    | some d => exact Or.inl ⟨d, rfl, started_start l d⟩
  | graceElapsed token => exact Or.inr ⟨rfl, answered_graceElapsed l token⟩
  | report r => exact Or.inr ⟨rfl, answered_report rfl⟩
  | receive payload =>
    refine Or.inr ⟨rfl, ?_⟩
    show Answered l (.receive payload) (l.receive payload)
    unfold receive
    cases hread : FailureReport.read? payload with
    | none =>
      refine .ignored nofun ?_
      intro r hr
      rw [Event.report?, hread] at hr
      cases hr
    | some r => exact answered_report hread

/-- The settings never change. -/
theorem options_step [Platform] (l : Lifecycle) (e : Event) : (l.step e).1.options = l.options := by
  obtain ⟨d, -, h⟩ | ⟨-, h⟩ := l.step_transition e
  · exact h.options
  · exact h.options

theorem options_run [Platform] (l : Lifecycle) (events : List Event) :
    (l.run events).1.options = l.options := by
  induction events generalizing l with
  | nil => rfl
  | cons e later ih =>
    rw [run_cons, ih]
    exact l.options_step e

end LivePreview.Lifecycle
