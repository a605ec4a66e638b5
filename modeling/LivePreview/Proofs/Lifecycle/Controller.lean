/-
A controller leads the life of a preview.

`Lifecycle` keeps a phase, and with it a message only where there is a failure.  A `Controller`
keeps the two apart, and its settings twice.  `ofLifecycle` is the controller that keeps a life.
Each transition of it is that of the life, so a new controller stays in step with a new life, and
what is known of the one is known of the other.

That there is a message exactly where there is a failure is not in the type of a controller.  It is
what `transition` is called with: `Says` holds of a new controller, and every transition keeps it.
-/
import LivePreview.Lifecycle.Controller
import LivePreview.Proofs.Lifecycle.Run

namespace LivePreview

/-! ### Phases in two fields -/

namespace Phase

/-- The state of a phase. -/
def state : Phase → PreviewState
  | idle => .idle
  | loading => .loading
  | success => .success
  | error _ => .error

theorem state_eq_loading_iff {p : Phase} : p.state = .loading ↔ p = .loading := by
  cases p <;> simp [state]

theorem state_eq_error_iff {p : Phase} : p.state = .error ↔ p.message?.isSome := by
  cases p <;> simp [state, message?]

end Phase

namespace Controller

/-- The controller that keeps a life. -/
def ofLifecycle (l : Lifecycle) : Controller where
  builder := l.options
  options := l.options
  state := l.phase.state
  errorMessage := l.phase.message?
  token := l.token
  draft := l.draft
  runId := l.runId
  grace := l.grace

variable {l : Lifecycle} {c : Controller}

/-- What is seen of the controller is what is seen of the life. -/
theorem snapshot_ofLifecycle (l : Lifecycle) : (ofLifecycle l).snapshot
    = ⟨l.phase.state, l.phase.message?, l.token, l.phase.status⟩ := by
  unfold snapshot ofLifecycle
  cases l.phase <;> rfl

/-! ### Transitions -/

theorem cancelGrace_ofLifecycle (l : Lifecycle) :
    (ofLifecycle l).cancelGrace = (ofLifecycle { l with grace := none }, l.cancellation) := by
  obtain ⟨options, phase, token, draft, runId, grace⟩ := l
  cases grace <;> rfl

theorem onDraft_ofLifecycle [Platform] (l : Lifecycle) (d : Draft) :
    (ofLifecycle l).onDraft d = (ofLifecycle (l.start d).1, (l.start d).2) := by
  have hcancel := cancelGrace_ofLifecycle { l with draft := some d }
  have hdraft : { ofLifecycle l with draft := some d } = ofLifecycle { l with draft := some d } := rfl
  rw [onDraft, hdraft, start, hcancel, Lifecycle.start]
  dsimp only [ofLifecycle]
  cases d.isBlank with
  | true => rfl
  | false =>
    cases hpage : d.tryPage l.options (l.token + 1) with
    | ok page =>
      simp only [Bool.false_eq_true, if_false, transition, hpage, List.append_assoc]
      rfl
    | error failure =>
      simp only [Bool.false_eq_true, if_false, transition, hpage]
      rfl

theorem retry_ofLifecycle [Platform] (l : Lifecycle) :
    (ofLifecycle l).retry = (ofLifecycle l.retry.1, l.retry.2) := by
  unfold retry Lifecycle.retry
  cases hdraft : l.draft with
  | none =>
    have hnone : (ofLifecycle l).draft = none := hdraft
    rw [hnone]
    rfl
  | some d =>
    have hsome : (ofLifecycle l).draft = some d := hdraft
    have hsame : { ofLifecycle l with draft := some d } = ofLifecycle l := by rw [← hsome]
    have hstart := onDraft_ofLifecycle l d
    rw [onDraft, hsame] at hstart
    rw [hsome]
    exact hstart

theorem graceElapsed_ofLifecycle (l : Lifecycle) (token : Nat) :
    (ofLifecycle l).graceElapsed token
      = (ofLifecycle ((l.graceElapsed? token).getD l), (l.graceElapsed? token).isSome) := by
  have hloading : (ofLifecycle l).state = .loading ↔ l.phase = .loading := Phase.state_eq_loading_iff
  unfold graceElapsed Lifecycle.graceElapsed?
  by_cases hawaited : l.grace = some token ∧ l.phase = .loading
  · have hkept : ¬((ofLifecycle l).grace ≠ some token ∨ (ofLifecycle l).state ≠ .loading) := by
      rw [ne_eq, ne_eq, hloading, ← not_and_or, not_not]
      exact hawaited
    rw [if_neg hkept, if_pos hawaited]
    rfl
  · have hstale : (ofLifecycle l).grace ≠ some token ∨ (ofLifecycle l).state ≠ .loading := by
      rw [ne_eq, ne_eq, hloading, ← not_and_or]
      exact hawaited
    rw [if_pos hstale, if_neg hawaited]
    rfl

theorem report_ofLifecycle (l : Lifecycle) (r : FailureReport) :
    (ofLifecycle l).report r = (ofLifecycle (l.report r).1, (l.report r).2) := by
  have herror : (ofLifecycle l).state = .error ↔ l.phase.message?.isSome := Phase.state_eq_error_iff
  unfold report Lifecycle.report
  by_cases hrun : l.runId = some r.runId
  · rw [if_neg (not_not_intro (show (ofLifecycle l).runId = some r.runId from hrun))]
    cases hmessage : l.phase.message? with
    | some message =>
      rw [if_pos (herror.mpr (by rw [hmessage]; rfl)), if_neg (by simp)]
    | none =>
      rw [if_neg (by rw [herror, hmessage]; simp), if_pos ⟨hrun, rfl⟩, cancelGrace_ofLifecycle]
      rfl
  · rw [if_pos (show (ofLifecycle l).runId ≠ some r.runId from hrun), if_neg fun h => hrun h.1]

/-- **A transition of the controller that keeps a life is a transition of the life.** -/
theorem step_ofLifecycle [Platform] (l : Lifecycle) (e : Lifecycle.Event) :
    (ofLifecycle l).step e = (ofLifecycle (l.step e).1, (l.step e).2) := by
  cases e with
  | draft d => exact onDraft_ofLifecycle l d
  | retry => exact retry_ofLifecycle l
  | graceElapsed token =>
    exact congrArg (fun c : Controller × Bool => (c.1, [])) (graceElapsed_ofLifecycle l token)
  | report r => exact report_ofLifecycle l r
  | receive payload =>
    show (ofLifecycle l).receive payload = _
    unfold receive
    cases hread : FailureReport.read? payload with
    | none => simp [Lifecycle.step, Lifecycle.receive, hread]
    | some r => simpa [Lifecycle.step, Lifecycle.receive, hread] using report_ofLifecycle l r

/-! ### Histories -/

/-- The controller behind the events, first one first, and the commands on the way. -/
def run [Platform] (c : Controller) : List Lifecycle.Event → Controller × List Command
  | [] => (c, [])
  | e :: later =>
    let front := c.step e
    let back := front.1.run later
    (back.1, front.2 ++ back.2)

/-- **A new controller leads a new life**, and asks for the same commands. -/
theorem run_new [Platform] (options : Options) (events : List Lifecycle.Event) :
    (new options).run events = (ofLifecycle ((Lifecycle.new options).run events).1,
      ((Lifecycle.new options).run events).2) := by
  have hrun : ∀ l, (ofLifecycle l).run events
      = (ofLifecycle (l.run events).1, (l.run events).2) := by
    intro l
    induction events generalizing l with
    | nil => rfl
    | cons e later ih => rw [run, step_ofLifecycle, ih, Lifecycle.run_cons]
  exact hrun (Lifecycle.new options)

/-! ### Messages -/

/-- There is a message where there is a failure, and nowhere else. -/
def Says (c : Controller) : Prop := c.errorMessage.isSome ↔ c.state = .error

theorem says_transition (c : Controller) {state : PreviewState} {errorMessage : Option Text}
    (h : errorMessage.isSome ↔ state = .error) : (c.transition state errorMessage).Says := h

theorem says_cancelGrace (h : c.Says) : c.cancelGrace.1.Says := by
  unfold cancelGrace
  cases c.grace <;> exact h

theorem says_start [Platform] (h : c.Says) : c.start.1.Says := by
  have hcancel := says_cancelGrace h
  unfold start
  generalize c.cancelGrace = cancelled at hcancel ⊢
  obtain ⟨c, commands⟩ := cancelled
  dsimp only
  cases c.draft with
  | none => exact hcancel
  | some draft =>
    have hloading : (none : Option Text).isSome ↔ PreviewState.loading = .error := by simp
    dsimp only
    split
    · exact says_transition _ (by simp)
    · split
      · exact hloading
      · exact says_transition _ (by simp)

theorem says_report (r : FailureReport) (h : c.Says) : (c.report r).1.Says := by
  unfold report
  split
  · exact h
  · split
    · exact h
    · exact says_transition _ (by simp)

/-- **Every transition keeps message and state in step.** -/
theorem says_step [Platform] (e : Lifecycle.Event) (h : c.Says) : (c.step e).1.Says := by
  cases e with
  | draft d => exact says_start (c := { c with draft := some d }) h
  | retry =>
    show c.retry.1.Says
    unfold retry
    split
    · exact h
    · exact says_start h
  | graceElapsed token =>
    show (c.graceElapsed token).1.Says
    unfold graceElapsed
    split
    · exact h
    · exact says_transition _ (by simp)
  | report r => exact says_report r h
  | receive payload =>
    show (c.receive payload).1.Says
    unfold receive
    split
    · exact says_report _ h
    · exact h

theorem says_run [Platform] (events : List Lifecycle.Event) (h : c.Says) :
    (c.run events).1.Says := by
  induction events generalizing c with
  | nil => exact h
  | cons e later ih => exact ih (says_step e h)

/-- A new controller has no message, and never has one without a failure. -/
theorem says_run_new [Platform] (options : Options) (events : List Lifecycle.Event) :
    ((new options).run events).1.Says :=
  says_run events (by simp [Says, new])

end Controller

end LivePreview
