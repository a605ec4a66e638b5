/-
Timers that fire late.

An event may take a timer away: its run has failed, or another run has started.  If the timer
cannot be stopped it still fires, at any time after that.  `Race` lets every such timer do so,
once, between any two events.  Its token is then not the one that the life waits for and never
will be again, because the tokens of later runs are greater.  So it has no effect, and a session
with late timers shows the same as one without.
-/
import LivePreview.Bundled
import LivePreview.Proofs.Lifecycle.LastStart
import LivePreview.Proofs.Session.Refinement

namespace LivePreview.Session

variable {options : Options} {s : Session}

/-! ### Races -/

/-- The timer that an event takes away.  A timer that the clock lets fire is not taken away. -/
def takenAway? [Platform] (s : Session) : Event → Option Timer
  | .advance _ => none
  | e => s.timer.filter fun timer => (s.step e).timer ≠ some timer

/-- What happens in a race: an event, or a timer that was taken away fires. -/
inductive Occurrence where
  | event (e : Event)
  | late (token : Nat)

/-- The event, if it is one. -/
def Occurrence.event? : Occurrence → Option Event
  | event e => some e
  | late _ => none

/-- The events of a race. -/
def eventsOf (trace : List Occurrence) : List Event := trace.filterMap Occurrence.event?

/-- The sessions that a trace can lead to, with the tokens of the timers that were taken away and
have not fired yet. -/
inductive Race [Platform] (options : Options) : List Occurrence → Session → List Nat → Prop
  | start : Race options [] (new options) []
  | event {trace : List Occurrence} {s : Session} {waiting : List Nat}
      (h : Race options trace s waiting) (e : Event) :
      Race options (trace ++ [.event e]) (s.step e)
        ((s.takenAway? e).toList.map Timer.token ++ waiting)
  | late {trace : List Occurrence} {s : Session} {waiting : List Nat}
      (h : Race options trace s waiting) {token : Nat} (hwaiting : token ∈ waiting) :
      Race options (trace ++ [.late token]) (s.fire token) (waiting.erase token)

/-! ### Late timers are not heard -/

/-- The token belongs to a run that is over, or whose grace period is. -/
structure Over (s : Session) (token : Nat) : Prop where
  le_token : token ≤ s.lifecycle.token
  grace : s.lifecycle.grace ≠ some token

theorem Over.fire_eq {token : Nat} (h : Over s token) : s.fire token = s := by
  have hnone : s.lifecycle.graceElapsed? token = none := if_neg fun hboth => h.grace hboth.1
  rw [fire, hnone]

/-- Carrying out commands leaves the life alone. -/
theorem lifecycle_apply (s : Session) (next : Lifecycle × List Command) :
    (s.apply next).lifecycle = next.1 := by
  have hfold : ∀ (commands : List Command) (s : Session),
      (commands.foldl execute s).lifecycle = s.lifecycle := by
    intro commands
    induction commands with
    | nil => exact fun _ => rfl
    | cons c later ih =>
      intro s
      rw [List.foldl_cons, ih]
      cases c <;> rfl
  exact hfold next.2 { s with lifecycle := next.1 }

/-- To the life of the preview, an event of a session is an event of its own or nothing. -/
theorem lifecycle_step [Platform] (s : Session) (e : Event) :
    (∃ le, (s.step e).lifecycle = (s.lifecycle.step le).1) ∨
      (s.step e).lifecycle = s.lifecycle := by
  cases e with
  | draft d => exact Or.inl ⟨.draft d, lifecycle_apply _ _⟩
  | retry => exact Or.inl ⟨.retry, lifecycle_apply _ _⟩
  | receive payload => exact Or.inl ⟨.receive payload, lifecycle_apply _ _⟩
  | advance ms =>
    show (∃ le, (s.advance ms).lifecycle = _) ∨ (s.advance ms).lifecycle = _
    simp only [advance]
    split
    · rename_i timer _
      split
      · refine Or.inl ⟨.graceElapsed timer.token, ?_⟩
        unfold fire
        show _ = (s.lifecycle.graceElapsed? timer.token).getD s.lifecycle
        cases s.lifecycle.graceElapsed? timer.token <;> rfl
      · exact Or.inr rfl
    · exact Or.inr rfl

/-- What is over stays over. -/
theorem Over.step [Platform]
    {token : Nat} (h : Over s token) (e : Event) : Over (s.step e) token := by
  obtain ⟨le, hnext⟩ | hnext := s.lifecycle_step e
  · obtain ⟨-, hstarts⟩ | ⟨-, hkeeps⟩ := s.lifecycle.step_cases le
    · constructor
      · rw [hnext, hstarts.token]
        exact Nat.le_succ_of_le h.le_token
      · intro hgrace
        rw [hnext] at hgrace
        have hnew := hstarts.grace token hgrace
        have hle := h.le_token
        omega
    · constructor
      · rw [hnext, hkeeps.token]
        exact h.le_token
      · intro hgrace
        rw [hnext] at hgrace
        exact h.grace (hkeeps.grace token hgrace)
  · constructor
    · rw [hnext]
      exact h.le_token
    · rw [hnext]
      exact h.grace

theorem Tracks.of_timer [Platform]
    {events : List Event} (h : Tracks options events s) {timer : Timer}
    (htimer : s.timer = some timer) : timer.token = s.lifecycle.token := by
  obtain ⟨started, -, hdue⟩ := h.timer
  rw [htimer, timerOf, eq_comm, Option.map_eq_some_iff] at hdue
  obtain ⟨token, hgrace, rfl⟩ := hdue
  rw [h.coherent.grace] at hgrace
  split at hgrace
  · exact (Option.some.inj hgrace).symm
  · cases hgrace

/-- A new run ends the grace period of the one before. -/
theorem over_of_started [Platform] {token : Nat} (d : Draft) (htoken : token = s.lifecycle.token) :
    Over (s.apply (s.lifecycle.start d)) token := by
  have hstarts := Lifecycle.start_startsRun s.lifecycle d
  constructor
  · rw [lifecycle_apply, hstarts.token, htoken]
    exact Nat.le_succ _
  · intro hgrace
    rw [lifecycle_apply] at hgrace
    have hnew := hstarts.grace token hgrace
    omega

/-- A timer that is taken away belongs to what is over. -/
theorem Tracks.over_of_takenAway [Platform]
    {events : List Event} (h : Tracks options events s) {e : Event}
    {timer : Timer} (htaken : s.takenAway? e = some timer) : Over (s.step e) timer.token := by
  cases e with
  | advance ms => cases htaken
  | draft d =>
    obtain ⟨htimer, -⟩ := Option.filter_eq_some_iff.mp htaken
    exact over_of_started d (h.of_timer htimer)
  | retry =>
    obtain ⟨htimer, hgone⟩ := Option.filter_eq_some_iff.mp htaken
    have hgone := of_decide_eq_true hgone
    have hstep : s.step .retry = s.apply s.lifecycle.retry := rfl
    rw [hstep, Lifecycle.retry] at hgone ⊢
    cases hdraft : s.lifecycle.draft with
    | none =>
      rw [hdraft] at hgone
      exact absurd htimer hgone
    | some d => exact over_of_started d (h.of_timer htimer)
  | receive payload =>
    obtain ⟨htimer, hgone⟩ := Option.filter_eq_some_iff.mp htaken
    have hgone := of_decide_eq_true hgone
    have hstep : s.step (.receive payload) = s.apply (s.lifecycle.step (.receive payload)) := rfl
    rw [hstep] at hgone ⊢
    obtain ⟨d, hd, -⟩ | ⟨-, hanswered⟩ := s.lifecycle.step_transition (.receive payload)
    · cases hd
    generalize s.lifecycle.step (.receive payload) = next at hanswered hgone ⊢
    cases hanswered with
    | succeeded hevent hgrace hphase => cases hevent
    | failed hevent hrun hphase =>
      constructor
      · rw [lifecycle_apply]
        exact (h.of_timer htimer).le
      · rw [lifecycle_apply]
        exact nofun
    | ignored hgrace hreport => exact absurd htimer hgone

/-! ### All histories and all races -/

/-- A race leads where its events lead without the late timers. -/
theorem Race.run_eq [Platform] (hgrace : 0 < options.gracePeriodMs) {trace : List Occurrence}
    {waiting : List Nat} (h : Race options trace s waiting) :
    s = (new options).run (eventsOf trace) ∧ ∀ token ∈ waiting, Over s token := by
  induction h with
  | start =>
    refine ⟨rfl, ?_⟩
    intro token htoken
    cases htoken
  | @event trace s waiting h e ih =>
    obtain ⟨hs, hwaiting⟩ := ih
    have htracks : Tracks options (eventsOf trace) s := by
      rw [hs]
      exact tracks_run hgrace (eventsOf trace)
    have hevents : eventsOf (trace ++ [.event e]) = eventsOf trace ++ [e] :=
      List.filterMap_append
    refine ⟨?_, ?_⟩
    · rw [hevents, run_concat, ← hs]
    · intro token htoken
      obtain htaken | hbefore := List.mem_append.mp htoken
      · obtain ⟨timer, htimer, rfl⟩ := List.mem_map.mp htaken
        exact htracks.over_of_takenAway (Option.mem_toList.mp htimer)
      · exact (hwaiting token hbefore).step e
  | @late trace s waiting h token hmem ih =>
    obtain ⟨hs, hwaiting⟩ := ih
    have hevents : eventsOf (trace ++ [.late token]) = eventsOf trace :=
      List.filterMap_append.trans (List.append_nil _)
    rw [(hwaiting token hmem).fire_eq, hevents]
    exact ⟨hs, fun t ht => hwaiting t (List.mem_of_mem_erase ht)⟩

/-- **What a session shows is determined by its history**, whether the timers that were taken
away stay silent or fire later, in whatever order. -/
theorem shows_history [Platform] (options : Options) (hgrace : 0 < options.gracePeriodMs) :
    (∀ events,
      ((new options).run events).snapshot = snapshotOf options events ∧
      ((new options).run events).page = pageOf options events) ∧
    ∀ trace s waiting, Race options trace s waiting →
      s.snapshot = snapshotOf options (eventsOf trace) ∧
      s.page = pageOf options (eventsOf trace) := by
  have hrun : ∀ events,
      ((new options).run events).snapshot = snapshotOf options events ∧
      ((new options).run events).page = pageOf options events := by
    intro events
    have htracks := tracks_run hgrace events
    exact ⟨htracks.snapshot_eq, htracks.page⟩
  refine ⟨hrun, ?_⟩
  intro trace s waiting hrace
  obtain ⟨rfl, -⟩ := hrace.run_eq hgrace
  exact hrun (eventsOf trace)

section

open scoped Bundled

/-- The timer of the first run fires in the middle of the second, which still succeeds in its own
time. -/
theorem late_timer_of_first_run :
    let d : Draft := ⟨['x'], none, none⟩
    ∃ s waiting,
      Race {} [.event (.draft d), .event (.advance 600), .event (.draft d), .late 1,
        .event (.advance 900), .event (.advance 700)] s waiting ∧
      s.snapshot = ⟨.success, 2⟩ ∧ s.page = some (d.page {} 2) := by
  intro d
  have hstart : Race {} [] (new {}) [] := .start
  have hsecond := ((hstart.event (.draft d)).event (.advance 600)).event (.draft d)
  have hlate := hsecond.late (show 1 ∈ _ by decide +kernel)
  have hrace := (hlate.event (.advance 900)).event (.advance 700)
  obtain ⟨hsnapshot, hpage⟩ := (shows_history {} (by decide)).2 _ _ _ hrace
  refine ⟨_, _, hrace, ?_, ?_⟩
  · rw [hsnapshot]
    decide +kernel
  · rw [hpage]
    rfl

end

end LivePreview.Session
