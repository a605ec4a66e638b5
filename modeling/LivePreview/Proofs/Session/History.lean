/-
What a history of events says about a session.

No controller and no timer occur here.  A history starts a run with each draft, and with each
retry once there is a draft.  How its last run stands depends on what the draft comes to under
the number of the run, on the first failure that is reported for it, and on the time since its
start.  The page on show is that of the last run with something to see.

Each view of a history is followed by what one more event does to it.
-/
import LivePreview.Session
import Mathlib.Algebra.GroupWithZero.Nat

namespace LivePreview.Session

/-! ### Events -/

/-- The draft that an event starts a run of, where `last` is the last draft in front of it. -/
def Event.started? (last : Option Draft) : Event → Option Draft
  | .draft d => some d
  | .retry => last
  | _ => none

/-- True of drafts and retries. -/
def Event.mayStart : Event → Bool
  | .draft _ | .retry => true
  | _ => false

/-- The failure that an event reports, if it reports one. -/
def Event.report? [Platform] : Event → Option FailureReport
  | .receive payload => FailureReport.read? payload
  | _ => none

/-- How far an event moves the clock. -/
def Event.duration : Event → Nat
  | .advance ms => ms
  | _ => 0

/-! ### Runs -/

/-- The drafts of the runs that are started behind the draft `last`, first one first. -/
def runsFrom (last : Option Draft) : List Event → List Draft
  | [] => []
  | e :: later =>
    match e.started? last with
    | some d => d :: runsFrom (some d) later
    | none => runsFrom last later

/-- The drafts of the runs of a history, first one first. -/
def runs (events : List Event) : List Draft := runsFrom none events

/-- The events behind the last start. -/
def sinceStart (events : List Event) : List Event :=
  (events.reverse.takeWhile fun e => !e.mayStart).reverse

/-- The time since the last start. -/
def elapsed (events : List Event) : Nat := ((sinceStart events).map Event.duration).sum

/-- The first failure that was reported for a run since the last start. -/
def firstReport? [Platform] (run : Text) (events : List Event) : Option FailureReport :=
  (sinceStart events).findSome? fun e => e.report?.filter fun r => r.runId = run

/-- What the run of a draft starts with: its page, or the message that stands in place of it. -/
def opening [Platform] (options : Options) (d : Draft) (token : Nat) : Except Text Page :=
  if d.isBlank then .error Failure.emptyInput.message
  else (d.tryPage options token).mapError Failure.message

/-- What the last run of a history starts with. -/
def lastOpening? [Platform] (options : Options) (events : List Event) : Option (Except Text Page) :=
  (runs events).getLast?.map fun d => opening options d (runs events).length

/-- How a run with a page stands, by the first failure that was reported for it and the time
since its start. -/
def standing (gracePeriodMs : Nat) (report? : Option FailureReport) (time : Nat) : Phase :=
  match report? with
  | some r => .error r.message
  | none => if gracePeriodMs ≤ time then .success else .loading

/-- How a history leaves the preview. -/
def phaseOf [Platform] (options : Options) (events : List Event) : Phase :=
  match lastOpening? options events with
  | none => .idle
  | some (.error message) => .error message
  | some (.ok page) =>
    standing options.gracePeriodMs (firstReport? page.runId events) (elapsed events)

/-- What can be seen behind a history. -/
def snapshotOf [Platform] (options : Options) (events : List Event) : Snapshot :=
  ⟨phaseOf options events, (runs events).length⟩

/-- The page that a history leaves in the frame: that of its last run with something to see. -/
def pageOf [Platform] (options : Options) (events : List Event) : Option Page :=
  (((runs events).zipIdx 1).reverse.find? fun run => !run.1.isBlank).map
    fun (d, token) => d.page options token

variable {options : Options} {e : Event} {d : Draft} {last : Option Draft}

/-- More time lets a run succeed that is loading, and changes nothing else. -/
theorem standing_add (gracePeriodMs : Nat) (report? : Option FailureReport) (time ms : Nat) :
    standing gracePeriodMs report? (time + ms)
      = if standing gracePeriodMs report? time = .loading ∧ gracePeriodMs ≤ time + ms then .success
        else standing gracePeriodMs report? time := by
  cases report? with
  | some r => rfl
  | none =>
    unfold standing
    by_cases hpassed : gracePeriodMs ≤ time
    · have hlater : gracePeriodMs ≤ time + ms := by omega
      simp [hpassed, hlater]
    · simp [hpassed]

theorem phaseOf_of_page [Platform] {events : List Event} {page : Page}
    (h : lastOpening? options events = some (.ok page)) :
    phaseOf options events
      = standing options.gracePeriodMs (firstReport? page.runId events) (elapsed events) := by
  rw [phaseOf, h]

/-! ### One more event -/

theorem runsFrom_concat (last : Option Draft) (events : List Event) (e : Event) :
    runsFrom last (events ++ [e])
      = runsFrom last events ++ (e.started? ((runsFrom last events).getLast?.or last)).toList := by
  induction events generalizing last with
  | nil =>
    rw [List.nil_append, runsFrom, runsFrom, List.getLast?_nil, Option.none_or]
    cases e.started? last <;> rfl
  | cons e' events ih =>
    rw [List.cons_append, runsFrom, runsFrom]
    cases hd : e'.started? last with
    | none => exact ih last
    | some d =>
      have hlast : ((d :: runsFrom (some d) events).getLast?.or last)
          = (runsFrom (some d) events).getLast?.or (some d) := by
        rw [List.getLast?_cons]
        cases (runsFrom (some d) events).getLast? <;> rfl
      rw [hlast, List.cons_append]
      exact congrArg (d :: ·) (ih (some d))

variable (events : List Event)

theorem runs_concat (e : Event) :
    runs (events ++ [e]) = runs events ++ (e.started? (runs events).getLast?).toList := by
  rw [runs, runsFrom_concat, Option.or_none]
  rfl

theorem runs_concat_of_started (h : e.started? (runs events).getLast? = some d) :
    runs (events ++ [e]) = runs events ++ [d] := by
  rw [runs_concat, h]
  rfl

theorem runs_concat_of_none (h : e.started? (runs events).getLast? = none) :
    runs (events ++ [e]) = runs events := by
  rw [runs_concat, h]
  exact List.append_nil _

theorem sinceStart_concat (e : Event) :
    sinceStart (events ++ [e]) = if e.mayStart then [] else sinceStart events ++ [e] := by
  unfold sinceStart
  cases he : e.mayStart <;> simp [he]

theorem elapsed_concat_of_start (he : e.mayStart = true) : elapsed (events ++ [e]) = 0 := by
  rw [elapsed, sinceStart_concat, if_pos he]
  rfl

theorem elapsed_concat (he : e.mayStart = false) :
    elapsed (events ++ [e]) = elapsed events + e.duration := by
  rw [elapsed, sinceStart_concat, he]
  simp [elapsed]

theorem firstReport?_concat_of_start [Platform] (run : Text) (he : e.mayStart = true) :
    firstReport? run (events ++ [e]) = none := by
  rw [firstReport?, sinceStart_concat, if_pos he]
  rfl

theorem firstReport?_concat [Platform] (run : Text) (he : e.mayStart = false) :
    firstReport? run (events ++ [e])
      = (firstReport? run events).or (e.report?.filter fun r => r.runId = run) := by
  rw [firstReport?, sinceStart_concat, he]
  simp [firstReport?, List.findSome?_append]

theorem mayStart_of_started (h : e.started? last = some d) : e.mayStart = true := by
  cases e with
  | draft | retry => rfl
  | receive | advance => cases h

theorem lastOpening?_concat_of_started [Platform] (h : e.started? (runs events).getLast? = some d) :
    lastOpening? options (events ++ [e])
      = some (opening options d ((runs events).length + 1)) := by
  rw [lastOpening?, runs_concat_of_started events h]
  simp

theorem lastOpening?_concat_of_none [Platform] (h : e.started? (runs events).getLast? = none) :
    lastOpening? options (events ++ [e]) = lastOpening? options events := by
  rw [lastOpening?, runs_concat_of_none events h]
  rfl

theorem pageOf_concat_of_started [Platform] (h : e.started? (runs events).getLast? = some d) :
    pageOf options (events ++ [e])
      = if d.isBlank then pageOf options events
        else some (d.page options ((runs events).length + 1)) := by
  unfold pageOf
  rw [runs_concat_of_started events h, List.zipIdx_append]
  cases hblank : d.isBlank <;> simp [hblank, Nat.add_comm]

theorem pageOf_concat_of_none [Platform] (h : e.started? (runs events).getLast? = none) :
    pageOf options (events ++ [e]) = pageOf options events := by
  rw [pageOf, runs_concat_of_none events h]
  rfl

/-- A run that starts with its page is loading at first. -/
theorem phaseOf_concat_of_started [Platform] (hgrace : 0 < options.gracePeriodMs)
    (h : e.started? (runs events).getLast? = some d) :
    phaseOf options (events ++ [e])
      = match opening options d ((runs events).length + 1) with
        | .error message => .error message
        | .ok _ => .loading := by
  have he := mayStart_of_started h
  rw [phaseOf, lastOpening?_concat_of_started events h]
  cases opening options d ((runs events).length + 1) with
  | error message => rfl
  | ok page =>
    show standing options.gracePeriodMs (firstReport? page.runId (events ++ [e]))
      (elapsed (events ++ [e])) = .loading
    rw [firstReport?_concat_of_start events page.runId he, elapsed_concat_of_start events he]
    exact if_neg (Nat.not_le_of_lt hgrace)

/-- Behind an event that starts no run, the last run may have one more report and more time. -/
theorem phaseOf_concat_of_none [Platform] (h : e.started? (runs events).getLast? = none) :
    phaseOf options (events ++ [e])
      = match lastOpening? options events with
        | none => .idle
        | some (.error message) => .error message
        | some (.ok page) =>
          standing options.gracePeriodMs
            ((firstReport? page.runId events).or (e.report?.filter fun r => r.runId = page.runId))
            (elapsed events + e.duration) := by
  rw [phaseOf, lastOpening?_concat_of_none events h]
  cases hlast : lastOpening? options events with
  | none => rfl
  | some start =>
    cases start with
    | error message => rfl
    | ok page =>
      have he : e.mayStart = false := by
        cases e with
        | draft d => cases h
        | retry =>
          have hnil : (runs events).getLast? = none := h
          rw [lastOpening?, hnil] at hlast
          cases hlast
        | receive | advance => rfl
      simp only [firstReport?_concat events page.runId he, elapsed_concat events he]

end LivePreview.Session
