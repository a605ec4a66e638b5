/-
A preview with a clock.

A session carries out the commands of the life of a preview: it keeps the page that was
mounted last, and one timer for the grace period.  The clock is a number of milliseconds
that moves on only when it is told to.  A timer whose deadline has come fires once.
-/
import LivePreview.Lifecycle.Basic

namespace LivePreview

/-- The end of a grace period. -/
structure Timer where
  token : Nat
  deadline : Nat
deriving DecidableEq, Repr

/-- A preview with a clock. -/
structure Session where
  lifecycle : Lifecycle
  /-- milliseconds since the start -/
  now : Nat := 0
  timer : Option Timer := none
  /-- the page that was mounted last -/
  page : Option Page := none
  /-- what was published last -/
  snapshot : Snapshot
  /-- how often a snapshot was published -/
  published : Nat := 0
deriving DecidableEq, Repr

namespace Session

/-- A session in front of its first draft. -/
def new (options : Options) : Session :=
  let lifecycle := Lifecycle.new options
  { lifecycle := lifecycle, snapshot := lifecycle.snapshot }

/-- Publish what can be seen. -/
def publish (s : Session) : Session :=
  { s with snapshot := s.lifecycle.snapshot, published := s.published + 1 }

/-- Carry out a command. -/
def execute (s : Session) : Command → Session
  | .mount page => { s with page := some page }
  | .scheduleGrace token afterMs => { s with timer := some ⟨token, s.now + afterMs⟩ }
  | .cancelGrace token => { s with timer := s.timer.filter fun t => t.token != token }

/-- Carry out the commands of a transition. -/
def apply (s : Session) (transition : Lifecycle × List Command) : Session :=
  (transition.2.foldl execute { s with lifecycle := transition.1 }).publish

/-- The timer of a token fires. -/
def fire (s : Session) (token : Nat) : Session :=
  match s.lifecycle.graceElapsed? token with
  | some lifecycle => publish { s with lifecycle := lifecycle }
  | none => s

/-- The clock moves on. -/
def advance (s : Session) (ms : Nat) : Session :=
  let s := { s with now := s.now + ms }
  match s.timer with
  | some timer => if timer.deadline ≤ s.now then fire { s with timer := none } timer.token else s
  | none => s

/-- What can happen to a session. -/
inductive Event where
  | draft (d : Draft)
  | retry
  | receive (payload : Text)
  | advance (ms : Nat)
deriving DecidableEq, Repr

/-- The session behind an event. -/
def step [Platform] (s : Session) : Event → Session
  | .draft d => s.apply (s.lifecycle.start d)
  | .retry => s.apply s.lifecycle.retry
  | .receive payload => s.apply (s.lifecycle.receive payload)
  | .advance ms => s.advance ms

end Session

end LivePreview
