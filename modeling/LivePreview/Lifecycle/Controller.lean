/-
The life of a preview, field by field.

A controller keeps the state of a preview and the message of a failure side by side, and
`transition` writes both.  It knows two sets of settings, those that pages are built with
and those of the grace period and of notices.  A new controller has the same ones in both
places.
-/
import LivePreview.Lifecycle.Basic

namespace LivePreview

/-- How a preview stands, without a message. -/
inductive PreviewState where
  | idle
  | loading
  | success
  | error
deriving DecidableEq, Repr

/-- The name of a state. -/
def PreviewState.name : PreviewState → String
  | idle => "idle"
  | loading => "loading"
  | success => "success"
  | error => "error"

/-- All that is kept of a preview. -/
structure Controller where
  /-- the settings that pages are built with -/
  builder : Options
  /-- the settings of the grace period and of notices -/
  options : Options
  state : PreviewState := .idle
  errorMessage : Option Text := none
  /-- number of runs so far, without a bound, as in `Lifecycle` -/
  token : Nat := 0
  draft : Option Draft := none
  /-- the run in the frame -/
  runId : Option Text := none
  /-- the token whose grace period has not ended -/
  grace : Option Nat := none
deriving DecidableEq, Repr

/-- What can be seen of a controller. -/
structure StateSnapshot where
  state : PreviewState
  errorMessage : Option Text
  token : Nat
  /-- a line for the user -/
  status : Text
deriving DecidableEq, Repr

namespace Controller

/-- A controller in front of its first draft. -/
def new (options : Options) : Controller := { builder := options, options := options }

/-- What can be seen. -/
def snapshot (c : Controller) : StateSnapshot :=
  let status := match c.state with
    | .idle => "Waiting for code".toList
    | .loading => "Loading preview…".toList
    | .success => "Preview ready".toList
    | .error => c.errorMessage.getD []
  ⟨c.state, c.errorMessage, c.token, status⟩

/-! ### Transitions -/

/-- Stand in a state, with a message or without. -/
def transition (c : Controller) (state : PreviewState) (errorMessage : Option Text) :
    Controller :=
  { c with state := state, errorMessage := errorMessage }

/-- Give up the pending grace period. -/
def cancelGrace (c : Controller) : Controller × List Command :=
  match c.grace with
  | some token => ({ c with grace := none }, [.cancelGrace token])
  | none => (c, [])

/-- A run of the current draft under a fresh token. -/
def start [Platform] (c : Controller) : Controller × List Command :=
  let (c, commands) := c.cancelGrace
  let c := { c with token := c.token + 1 }
  match c.draft with
  | none => (c, commands)
  | some draft =>
    if draft.isBlank then
      let c := { c with runId := none }
      (c.transition .error (some Failure.emptyInput.message), commands)
    else
      let c := c.transition .loading none
      match draft.tryPage c.builder c.token with
      | .ok page =>
        ({ c with runId := some page.runId, grace := some c.token },
          commands ++ [.mount page] ++ [.scheduleGrace c.token c.options.gracePeriodMs])
      | .error failure =>
        let run := runIdOf c.token draft.code
        let page := Page.notice failure.title failure.message run c.options
        let c := { c with runId := some run }
        (c.transition .error (some failure.message), commands ++ [.mount page])

/-- A new draft. -/
def onDraft [Platform] (c : Controller) (draft : Draft) : Controller × List Command :=
  { c with draft := some draft }.start

/-- A run of the last draft. -/
def retry [Platform] (c : Controller) : Controller × List Command :=
  if c.draft.isNone then (c, []) else c.start

/-- The grace period of a token has passed; false if that token is not awaited. -/
def graceElapsed (c : Controller) (token : Nat) : Controller × Bool :=
  if c.grace ≠ some token ∨ c.state ≠ .loading then (c, false)
  else ({ c with grace := none }.transition .success none, true)

/-- A running page reports a failure. -/
def report (c : Controller) (r : FailureReport) : Controller × List Command :=
  if c.runId ≠ some r.runId then (c, [])
  else if c.state = .error then (c, [])
  else
    let (c, commands) := c.cancelGrace
    (c.transition .error (some r.message), commands)

/-- A window sends a message. -/
def receive [Platform] (c : Controller) (payload : Text) : Controller × List Command :=
  match FailureReport.read? payload with
  | some r => c.report r
  | none => (c, [])

/-- The transition of an event. -/
def step [Platform] (c : Controller) : Lifecycle.Event → Controller × List Command
  | .draft d => c.onDraft d
  | .retry => c.retry
  | .graceElapsed token => ((c.graceElapsed token).1, [])
  | .report r => c.report r
  | .receive payload => c.receive payload

end Controller

end LivePreview
