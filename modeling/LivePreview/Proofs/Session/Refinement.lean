/-
A session shows what its history says.

A session keeps the life of a preview, a timer and a page apart, and each of them moves in its
own way.  `Tracks` says what each is in terms of the history: the last run of the life is the
last run of the history, and the timer, if there is one, is that of the run which is loading and
is due when the grace period since its start ends.  One more event keeps that, so what is
published can be read off the history.
-/
import LivePreview.Proofs.Lifecycle.Invariant
import LivePreview.Proofs.Session.History

namespace LivePreview.Session

open Lifecycle (Coherent Started Answered)

variable {options : Options} {s : Session} {events : List Event} {e : Event}

/-! ### Runs of a session -/

/-- The session behind the events, first one first. -/
def run [Platform] (s : Session) (events : List Event) : Session := events.foldl step s

theorem run_concat [Platform] (s : Session) (events : List Event) (e : Event) :
    s.run (events ++ [e]) = (s.run events).step e := by
  simp [run]

/-! ### Timers -/

/-- The timer that a pending grace period calls for, where the run started at `started`. -/
def timerOf (l : Lifecycle) (started : Nat) : Option Timer :=
  l.grace.map fun token => ⟨token, started + l.options.gracePeriodMs⟩

theorem timerOf_of_none {l : Lifecycle} (started : Nat) (h : l.grace = none) :
    timerOf l started = none := by
  rw [timerOf, h]
  rfl

/-- A cancellation takes away the timer that is there. -/
theorem execute_cancellation {started : Nat} (htimer : s.timer = timerOf s.lifecycle started)
    (next : Lifecycle) :
    s.lifecycle.cancellation.foldl execute { s with lifecycle := next }
      = { s with lifecycle := next, timer := none } := by
  unfold Lifecycle.cancellation
  cases hgrace : s.lifecycle.grace with
  | none =>
    rw [timerOf_of_none started hgrace] at htimer
    show { s with lifecycle := next } = _
    rw [← htimer]
  | some token =>
    have hfilter : s.timer.filter (fun t => t.token != token) = none := by
      rw [htimer, timerOf, hgrace]
      simp
    show { s with lifecycle := next, timer := s.timer.filter fun t => t.token != token } = _
    rw [hfilter]

/-! ### One step -/

/-- The session stands as its history says. -/
structure Tracks [Platform] (options : Options) (events : List Event) (s : Session) : Prop where
  coherent : Coherent s.lifecycle
  settings : s.lifecycle.options = options
  token : s.lifecycle.token = (runs events).length
  draft : s.lifecycle.draft = (runs events).getLast?
  phase : s.lifecycle.phase = phaseOf options events
  runId : ∀ page, lastOpening? options events = some (.ok page) →
    s.lifecycle.runId = some page.runId
  timer : ∃ started, s.now = started + elapsed events ∧ s.timer = timerOf s.lifecycle started
  page : s.page = pageOf options events
  snapshot : s.snapshot = s.lifecycle.snapshot

theorem tracks_new [Platform] (options : Options) : Tracks options [] (new options) where
  coherent := Lifecycle.coherent_new options
  settings := rfl
  token := rfl
  draft := rfl
  phase := rfl
  runId := by
    intro page hpage
    cases hpage
  timer := ⟨0, rfl, rfl⟩
  page := rfl
  snapshot := rfl

namespace Tracks

/-- A history without runs leaves the preview idle. -/
theorem idle_of_none [Platform]
    (h : Tracks options events s) (hnone : lastOpening? options events = none) :
    s.lifecycle.phase = .idle := by
  rw [h.phase, phaseOf, hnone]

/-- The published snapshot is that of the history. -/
theorem snapshot_eq [Platform]
    (h : Tracks options events s) : s.snapshot = snapshotOf options events := by
  rw [h.snapshot, Lifecycle.snapshot, h.phase, h.token]
  rfl

/-! #### New runs -/

theorem started [Platform]
    (h : Tracks options events s) (hgrace : 0 < options.gracePeriodMs) {d : Draft}
    (hstarted? : e.started? (runs events).getLast? = some d) {next : Lifecycle × List Command}
    (hstarted : Started s.lifecycle d next) :
    Tracks options (events ++ [e]) (s.apply next) := by
  obtain ⟨started, -, htimer⟩ := h.timer
  obtain rfl := h.settings
  have hruns := runs_concat_of_started events hstarted?
  have hopening : lastOpening? s.lifecycle.options (events ++ [e])
      = some (opening s.lifecycle.options d ((runs events).length + 1)) :=
    lastOpening?_concat_of_started events hstarted?
  have hphase := phaseOf_concat_of_started events hgrace hstarted?
  have hpage : pageOf s.lifecycle.options (events ++ [e])
      = if d.isBlank then pageOf s.lifecycle.options events
        else some (d.page s.lifecycle.options ((runs events).length + 1)) :=
    pageOf_concat_of_started events hstarted?
  have helapsed := elapsed_concat_of_start events (mayStart_of_started hstarted?)
  have htoken : s.lifecycle.token + 1 = (runs (events ++ [e])).length := by
    rw [hruns, List.length_append, h.token]
    rfl
  have hdraft : some d = (runs (events ++ [e])).getLast? := by
    rw [hruns, List.getLast?_append]
    rfl
  have hcoherent := hstarted.coherent
  rw [← h.token] at hopening hphase hpage
  unfold apply
  cases hstarted with
  | blank hblank =>
    rw [opening, if_pos hblank] at hopening hphase
    rw [if_pos hblank] at hpage
    rw [execute_cancellation htimer]
    refine ⟨hcoherent, rfl, htoken, hdraft, hphase.symm, ?_, ⟨s.now, ?_, rfl⟩, ?_, rfl⟩
    · intro page hok
      rw [hopening] at hok
      cases hok
    · rw [helapsed]
      rfl
    · rw [hpage]
      exact h.page
  | @loading page hblank htry =>
    rw [opening, hblank, if_neg Bool.false_ne_true, htry] at hopening hphase
    rw [hblank, if_neg Bool.false_ne_true, Draft.page, htry] at hpage
    rw [List.foldl_append, execute_cancellation htimer]
    refine ⟨hcoherent, rfl, htoken, hdraft, hphase.symm, ?_, ⟨s.now, ?_, rfl⟩, hpage.symm, rfl⟩
    · intro page' hok
      rw [hopening] at hok
      cases hok
      rfl
    · rw [helapsed]
      rfl
  | @failed failure hblank htry =>
    rw [opening, hblank, if_neg Bool.false_ne_true, htry] at hopening hphase
    rw [hblank, if_neg Bool.false_ne_true, Draft.page, htry] at hpage
    rw [List.foldl_append, execute_cancellation htimer]
    refine ⟨hcoherent, rfl, htoken, hdraft, hphase.symm, ?_, ⟨s.now, ?_, rfl⟩, hpage.symm, rfl⟩
    · intro page hok
      rw [hopening] at hok
      cases hok
    · rw [helapsed]
      rfl

/-! #### Answers to the last run -/

/-- Where no run starts and the life keeps the one it has, the phase and the timer decide. -/
theorem concat [Platform]
    (h : Tracks options events s) (hnone : e.started? (runs events).getLast? = none)
    {le : Lifecycle.Event} {next : Lifecycle × List Command} {s' : Session}
    (hanswered : Answered s.lifecycle le next) (hnext : s'.lifecycle = next.1)
    (hphase : next.1.phase = phaseOf options (events ++ [e]))
    (htimer : ∃ started, s'.now = started + elapsed (events ++ [e]) ∧
      s'.timer = timerOf next.1 started)
    (hpage : s'.page = s.page) (hsnapshot : s'.snapshot = s'.lifecycle.snapshot) :
    Tracks options (events ++ [e]) s' := by
  have hruns := runs_concat_of_none events hnone
  refine ⟨?_, ?_, ?_, ?_, ?_, ?_, ?_, ?_, hsnapshot⟩
  · rw [hnext]
    exact hanswered.coherent h.coherent
  · rw [hnext, hanswered.options]
    exact h.settings
  · rw [hnext, hanswered.token, hruns]
    exact h.token
  · rw [hnext, hanswered.draft, hruns]
    exact h.draft
  · rw [hnext]
    exact hphase
  · rw [hnext, hanswered.runId, lastOpening?_concat_of_none events hnone]
    exact h.runId
  · rw [hnext]
    exact htimer
  · rw [hpage, pageOf_concat_of_none events hnone]
    exact h.page

/-- A run that has not failed and has a name has its page, and nothing was reported for it. -/
theorem exists_page [Platform] (h : Tracks options events s) {id : Text}
    (hrun : s.lifecycle.runId = some id) (hphase : s.lifecycle.phase.message? = none) :
    ∃ page, lastOpening? options events = some (.ok page) ∧ page.runId = id ∧
      firstReport? page.runId events = none := by
  cases hlast : lastOpening? options events with
  | none =>
    have hdraft : s.lifecycle.draft = none := h.coherent.idle.mp (h.idle_of_none hlast)
    exact absurd hdraft (h.coherent.draft_ne_none hrun)
  | some start =>
    cases start with
    | error message =>
      rw [h.phase, phaseOf, hlast] at hphase
      cases hphase
    | ok page =>
      have hid : some page.runId = some id := (h.runId page hlast).symm.trans hrun
      refine ⟨page, rfl, Option.some.inj hid, ?_⟩
      cases hreport : firstReport? page.runId events with
      | none => rfl
      | some r =>
        rw [h.phase, phaseOf_of_page hlast, hreport] at hphase
        cases hphase

/-- A report that is ignored changes nothing in what the history says. -/
theorem phaseOf_of_ignored [Platform] (h : Tracks options events s)
    (hnone : e.started? (runs events).getLast? = none) (hduration : e.duration = 0)
    (hreport : ∀ r, e.report? = some r →
      ¬(s.lifecycle.runId = some r.runId ∧ s.lifecycle.phase.message? = none)) :
    phaseOf options (events ++ [e]) = s.lifecycle.phase := by
  rw [phaseOf_concat_of_none events hnone, h.phase, phaseOf]
  cases hlast : lastOpening? options events with
  | none => rfl
  | some start =>
    cases start with
    | error message => rfl
    | ok page =>
      show standing _ _ (elapsed events + e.duration) = standing _ _ (elapsed events)
      rw [hduration, Nat.add_zero]
      cases hfirst : firstReport? page.runId events with
      | some r => rfl
      | none =>
        have hmessage : s.lifecycle.phase.message? = none := by
          rw [h.phase, phaseOf_of_page hlast, hfirst, standing]
          split <;> rfl
        have hother : (e.report?.filter fun r => r.runId = page.runId) = none := by
          rw [Option.filter_eq_none_iff]
          intro r hr hrun
          refine hreport r hr ⟨?_, hmessage⟩
          rw [h.runId page hlast, of_decide_eq_true hrun]
        rw [hother]
        rfl

theorem received [Platform]
    (h : Tracks options events s) {payload : Text} {next : Lifecycle × List Command}
    (hanswered : Answered s.lifecycle (.receive payload) next) :
    Tracks options (events ++ [.receive payload]) (s.apply next) := by
  obtain ⟨started, hnow, htimer⟩ := h.timer
  have hnone : (Event.receive payload).started? (runs events).getLast? = none := rfl
  have helapsed : elapsed (events ++ [.receive payload]) = elapsed events :=
    elapsed_concat events rfl
  rw [← helapsed] at hnow
  unfold apply
  have hanswered' := hanswered
  cases hanswered with
  | succeeded hevent hgrace hloading => cases hevent
  | @failed r hevent hrun hmessage =>
    obtain ⟨page, hlast, hid, hreport⟩ := h.exists_page hrun hmessage
    have hread : (Event.receive payload).report? = some r := hevent
    rw [execute_cancellation htimer]
    refine h.concat hnone hanswered' rfl ?_ ⟨started, hnow, rfl⟩ rfl rfl
    rw [phaseOf_concat_of_none events hnone, hlast]
    show Phase.error r.message = standing _ _ _
    rw [hreport, hread, Option.filter_some, if_pos (decide_eq_true hid.symm)]
    rfl
  | ignored hgrace hreport =>
    refine h.concat hnone hanswered' rfl ?_ ⟨started, hnow, htimer⟩ rfl rfl
    exact (h.phaseOf_of_ignored hnone rfl hreport).symm

/-- A retry in front of the first draft does nothing. -/
theorem retried [Platform] (h : Tracks options events s) (hnil : (runs events).getLast? = none) :
    Tracks options (events ++ [.retry]) (s.apply (s.lifecycle, [])) := by
  have hanswered : Answered s.lifecycle .retry (s.lifecycle, []) := .ignored nofun nofun
  have hidle : s.lifecycle.phase = .idle := by
    rw [h.coherent.idle, h.draft, hnil]
  have hgrace : s.lifecycle.grace = none := by
    rw [h.coherent.grace, hidle]
    rfl
  obtain ⟨started, -, htimer⟩ := h.timer
  refine h.concat (e := .retry) hnil hanswered rfl ?_ ⟨s.now, ?_, ?_⟩ rfl rfl
  · exact (h.phaseOf_of_ignored (e := .retry) hnil rfl nofun).symm
  · rw [elapsed_concat_of_start events rfl]
    rfl
  · show s.timer = timerOf s.lifecycle s.now
    rw [htimer, timerOf_of_none _ hgrace, timerOf_of_none _ hgrace]

/-! #### The clock -/

/-- What more time does to a run that is loading, and to no other. -/
theorem phaseOf_advance [Platform] (h : Tracks options events s) (ms : Nat) :
    phaseOf options (events ++ [.advance ms])
      = if s.lifecycle.phase = .loading ∧ options.gracePeriodMs ≤ elapsed events + ms then .success
        else s.lifecycle.phase := by
  rw [phaseOf_concat_of_none (e := .advance ms) events rfl, h.phase]
  cases hlast : lastOpening? options events with
  | none =>
    rw [phaseOf, hlast]
    rfl
  | some start =>
    cases start with
    | error message =>
      rw [phaseOf, hlast]
      rfl
    | ok page =>
      rw [phaseOf_of_page hlast]
      show standing _ ((firstReport? page.runId events).or none) (elapsed events + ms) = _
      rw [Option.or_none]
      exact standing_add _ _ _ ms

/-- A timer that is due ends the grace period that is pending. -/
theorem advanced [Platform] (h : Tracks options events s) (ms : Nat) :
    Tracks options (events ++ [.advance ms]) (s.advance ms) := by
  obtain ⟨started, hnow, htimer⟩ := h.timer
  have hnone : (Event.advance ms).started? (runs events).getLast? = none := rfl
  have hlater : s.now + ms = started + elapsed (events ++ [.advance ms]) := by
    rw [elapsed_concat events rfl, hnow, Nat.add_assoc]
    rfl
  have hphase := h.phaseOf_advance ms
  have hunanswered : Answered s.lifecycle .retry (s.lifecycle, []) := .ignored nofun nofun
  unfold advance
  cases hgrace : s.lifecycle.grace with
  | none =>
    have hnotLoading : s.lifecycle.phase ≠ .loading := by
      intro hloading
      rw [h.coherent.grace, if_pos hloading] at hgrace
      cases hgrace
    rw [if_neg fun hboth => hnotLoading hboth.1] at hphase
    rw [timerOf_of_none started hgrace] at htimer
    simp only [htimer]
    refine h.concat hnone hunanswered rfl hphase.symm ⟨started, hlater, ?_⟩ rfl h.snapshot
    rw [timerOf_of_none started hgrace]
  | some token =>
    have hloading : s.lifecycle.phase = .loading := by
      by_contra hnot
      rw [h.coherent.grace, if_neg hnot] at hgrace
      cases hgrace
    have hdue : s.timer = some ⟨token, started + options.gracePeriodMs⟩ := by
      rw [htimer, timerOf, hgrace, h.settings]
      rfl
    simp only [hdue]
    by_cases hpassed : started + options.gracePeriodMs ≤ s.now + ms
    · have hgracePassed : options.gracePeriodMs ≤ elapsed events + ms := by omega
      have hfires : s.lifecycle.graceElapsed? token
          = some { s.lifecycle with grace := none, phase := .success } :=
        if_pos ⟨hgrace, hloading⟩
      rw [if_pos ⟨hloading, hgracePassed⟩] at hphase
      rw [if_pos hpassed, fire, hfires]
      exact h.concat hnone (.succeeded rfl hgrace hloading) rfl hphase.symm
        ⟨started, hlater, rfl⟩ rfl rfl
    · have hnotPassed : ¬options.gracePeriodMs ≤ elapsed events + ms := by omega
      rw [if_neg fun hboth => hnotPassed hboth.2] at hphase
      rw [if_neg hpassed]
      exact h.concat hnone hunanswered rfl hphase.symm
        ⟨started, hlater, hdue.symm.trans htimer⟩ rfl h.snapshot

/-- **One more event keeps a session in step with its history.** -/
theorem step [Platform]
    (h : Tracks options events s) (hgrace : 0 < options.gracePeriodMs) (e : Event) :
    Tracks options (events ++ [e]) (s.step e) := by
  cases e with
  | draft d => exact h.started hgrace rfl (Lifecycle.started_start s.lifecycle d)
  | retry =>
    show Tracks options (events ++ [.retry]) (s.apply s.lifecycle.retry)
    unfold Lifecycle.retry
    cases hdraft : s.lifecycle.draft with
    | none =>
      rw [h.draft] at hdraft
      exact h.retried hdraft
    | some d =>
      rw [h.draft] at hdraft
      exact h.started (e := .retry) hgrace hdraft (Lifecycle.started_start s.lifecycle d)
  | receive payload =>
    obtain ⟨d, hd, -⟩ | ⟨-, hanswered⟩ := s.lifecycle.step_transition (.receive payload)
    · cases hd
    · exact h.received hanswered
  | advance ms => exact h.advanced ms

end Tracks

/-- **A session shows what its history says.** -/
theorem tracks_run [Platform] (hgrace : 0 < options.gracePeriodMs) (events : List Event) :
    Tracks options events ((new options).run events) := by
  induction events using List.reverseRecOn with
  | nil => exact tracks_new options
  | append_singleton events e ih =>
    rw [run_concat]
    exact ih.step hgrace e

end LivePreview.Session
