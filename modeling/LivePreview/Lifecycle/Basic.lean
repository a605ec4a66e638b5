/-
The life of a preview.

Each new draft and each retry starts a run under a fresh token.  A run is loading until
either a failure is reported or its grace period passes in silence; then it has failed or
succeeded.  A failure may also follow a success.  Nothing sleeps here: a transition says
which commands are to be carried out, and whoever carries them out comes back later with
a token or the name of a run.  What comes back for an earlier run has no effect, so the
last draft wins.
-/
import LivePreview.Lifecycle.Message
import LivePreview.Preview

namespace LivePreview

/-- How a preview stands. -/
inductive Phase where
  | idle
  | loading
  | success
  | error (message : Text)
deriving DecidableEq, Repr

namespace Phase

/-- The name of a phase. -/
def name : Phase → String
  | idle => "idle"
  | loading => "loading"
  | success => "success"
  | error _ => "error"

/-- The message of a failure. -/
def message? : Phase → Option Text
  | error message => some message
  | _ => none

/-- A line for the user. -/
def status : Phase → Text
  | idle => "Waiting for code".toList
  | loading => "Loading preview…".toList
  | success => "Preview ready".toList
  | error message => message

end Phase

/-- What a transition asks for. -/
inductive Command where
  /-- load a page into the frame -/
  | mount (page : Page)
  /-- come back with this token when the time has passed -/
  | scheduleGrace (token afterMs : Nat)
  /-- do not come back with this token -/
  | cancelGrace (token : Nat)
deriving DecidableEq, Repr

/-- The life of a preview. -/
structure Lifecycle where
  options : Options
  phase : Phase := .idle
  /-- number of runs so far; the last one has it as its token.  A counter of 64 bits would
  hold it for 2 ^ 64 runs, here it has no bound -/
  token : Nat := 0
  draft : Option Draft := none
  /-- the run in the frame -/
  runId : Option Text := none
  /-- the token whose grace period has not ended -/
  grace : Option Nat := none
deriving DecidableEq, Repr

/-- What can be seen of the life of a preview. -/
structure Snapshot where
  phase : Phase
  token : Nat
deriving DecidableEq, Repr

namespace Lifecycle

/-- The life of a preview in front of its first draft. -/
def new (options : Options) : Lifecycle := { options := options }

/-- What can be seen. -/
def snapshot (l : Lifecycle) : Snapshot := ⟨l.phase, l.token⟩

/-- The command that ends the pending grace period. -/
def cancellation (l : Lifecycle) : List Command := l.grace.toList.map .cancelGrace

/-! ### Transitions -/

/-- A run of a draft under a fresh token. -/
def start [Platform] (l : Lifecycle) (draft : Draft) : Lifecycle × List Command :=
  let token := l.token + 1
  let next : Lifecycle := { l with token := token, draft := some draft, grace := none }
  if draft.isBlank then
    ({ next with runId := none, phase := .error Failure.emptyInput.message }, l.cancellation)
  else match draft.tryPage l.options token with
    | .ok page =>
      ({ next with runId := some page.runId, phase := .loading, grace := some token },
        l.cancellation ++ [.mount page, .scheduleGrace token l.options.gracePeriodMs])
    | .error failure =>
      let page := Page.ofFailure failure token draft.code l.options
      ({ next with runId := some page.runId, phase := .error failure.message },
        l.cancellation ++ [.mount page])

/-- A run of the last draft. -/
def retry [Platform] (l : Lifecycle) : Lifecycle × List Command :=
  match l.draft with
  | some draft => l.start draft
  | none => (l, [])

/-- The grace period of a token has passed; nothing if that token is not awaited. -/
def graceElapsed? (l : Lifecycle) (token : Nat) : Option Lifecycle :=
  if l.grace = some token ∧ l.phase = .loading then
    some { l with grace := none, phase := .success }
  else none

/-- A running page reports a failure.  The first one of a run counts. -/
def report (l : Lifecycle) (r : FailureReport) : Lifecycle × List Command :=
  if l.runId = some r.runId ∧ l.phase.message?.isNone then
    ({ l with grace := none, phase := .error r.message }, l.cancellation)
  else (l, [])

/-- A window sends a message. -/
def receive [Platform] (l : Lifecycle) (payload : Text) : Lifecycle × List Command :=
  match FailureReport.read? payload with
  | some r => l.report r
  | none => (l, [])

/-! ### Histories -/

/-- What can happen to a preview. -/
inductive Event where
  | draft (d : Draft)
  | retry
  | graceElapsed (token : Nat)
  | report (r : FailureReport)
  | receive (payload : Text)
deriving DecidableEq, Repr

/-- The transition of an event. -/
def step [Platform] (l : Lifecycle) : Event → Lifecycle × List Command
  | .draft d => l.start d
  | .retry => l.retry
  | .graceElapsed token => ((l.graceElapsed? token).getD l, [])
  | .report r => l.report r
  | .receive payload => l.receive payload

end Lifecycle

end LivePreview
