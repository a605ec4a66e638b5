/-
The page that a run loads is the page of its draft.

The life of a preview tries a draft on its own and writes the notice for a failure itself, and so
does `Draft.page`, which knows of no life.  Both come to the same page.  A run of a draft that is
not blank loads this page and no other, under the name that the page bears; and it waits for a grace
period if, and only if, the page is one that shows the component.
-/
import LivePreview.Bundled
import LivePreview.Proofs.Lifecycle.Transition

namespace LivePreview.Lifecycle

variable {l : Lifecycle} {d : Draft} {next : Lifecycle × List Command}

/-! ### What commands load and await -/

/-- The page that a command loads. -/
def Command.page? : Command → Option Page
  | .mount page => some page
  | _ => none

/-- The grace period that a command starts: its token and how long it is. -/
def Command.grace? : Command → Option (Nat × Nat)
  | .scheduleGrace token afterMs => some (token, afterMs)
  | _ => none

/-- The pages that commands load, first one first. -/
def loaded (commands : List Command) : List Page := commands.filterMap Command.page?

/-- The grace periods that commands start, first one first. -/
def awaited (commands : List Command) : List (Nat × Nat) := commands.filterMap Command.grace?

theorem loaded_cancellation (l : Lifecycle) (commands : List Command) :
    loaded (l.cancellation ++ commands) = loaded commands := by
  unfold cancellation loaded
  cases l.grace <;> rfl

theorem awaited_cancellation (l : Lifecycle) (commands : List Command) :
    awaited (l.cancellation ++ commands) = awaited commands := by
  unfold cancellation awaited
  cases l.grace <;> rfl

/-! ### One run -/

/-- A run of a draft shows the page of the draft: under the token `token` it comes to `next`, where
only a page that shows the component is waited for. -/
structure ShowsPage [Platform] (options : Options) (d : Draft) (token : Nat)
    (next : Lifecycle × List Command) : Prop where
  token_eq : next.1.token = token
  loaded_eq : loaded next.2 = if d.isBlank then [] else [d.page options token]
  runId_eq : next.1.runId = if d.isBlank then none else some (d.page options token).runId
  failed : (d.page options token).isError = true → awaited next.2 = [] ∧
    ∃ failure, d.tryPage options token = .error failure ∧ next.1.phase = .error failure.message
  loading : (d.page options token).isError = false →
    awaited next.2 = [(token, options.gracePeriodMs)] ∧ next.1.phase = .loading
  blank : d.isBlank = true → (d.page options token).isError = true

/-- Where the draft fails, its page is a notice. -/
theorem Started.showsPage [Platform]
    (h : Started l d next) : ShowsPage l.options d (l.token + 1) next := by
  cases h with
  | blank hblank =>
    have hfails : d.tryPage l.options (l.token + 1) = .error .emptyInput :=
      Draft.tryPage_of_isBlank hblank
    have herror : (d.page l.options (l.token + 1)).isError = true :=
      Draft.isError_page_iff.mpr ⟨_, hfails⟩
    have hnothing := loaded_cancellation l []
    have hnone := awaited_cancellation l []
    rw [List.append_nil] at hnothing hnone
    refine ⟨rfl, ?_, ?_, ?_, ?_, fun _ => herror⟩
    · rw [if_pos hblank]
      exact hnothing
    · rw [if_pos hblank]
    · intro _
      exact ⟨hnone, _, hfails, rfl⟩
    · intro hpage
      rw [herror] at hpage
      cases hpage
  | @loading page hblank hpage =>
    have hshown : d.page l.options (l.token + 1) = page := Draft.page_of_ok hpage
    have hfine : page.isError = false := Draft.isError_of_ok hpage
    refine ⟨rfl, ?_, ?_, ?_, ?_, ?_⟩
    · rw [hblank, hshown]
      exact loaded_cancellation l _
    · rw [hblank, hshown]
      rfl
    · intro herror
      rw [hshown, hfine] at herror
      cases herror
    · intro _
      exact ⟨awaited_cancellation l _, rfl⟩
    · intro h
      rw [hblank] at h
      cases h
  | @failed failure hblank hpage =>
    have hshown := Draft.page_of_error hpage
    refine ⟨rfl, ?_, ?_, ?_, ?_, ?_⟩
    · rw [hblank, hshown]
      exact loaded_cancellation l _
    · rw [hblank, hshown]
      rfl
    · intro _
      exact ⟨awaited_cancellation l _, failure, hpage, rfl⟩
    · intro hfine
      rw [hshown] at hfine
      cases hfine
    · intro h
      rw [hblank] at h
      cases h

theorem showsPage_step [Platform] {e : Event} (h : l.started? e = some d) :
    ShowsPage l.options d (l.token + 1) (l.step e) := by
  obtain ⟨d', hd', hstarted⟩ | ⟨hnone, -⟩ := l.step_transition e
  · rw [h] at hd'
    cases hd'
    exact hstarted.showsPage
  · rw [h] at hnone
    cases hnone

theorem Answered.loaded_eq [Platform] {e : Event} (h : Answered l e next) : loaded next.2 = [] := by
  have hcancelled := loaded_cancellation l []
  rw [List.append_nil] at hcancelled
  cases h with
  | succeeded => rfl
  | failed => exact hcancelled
  | ignored => rfl

/-! ### Histories -/

/-- The drafts that events start runs of, each with the token of its run. -/
def runs [Platform] (l : Lifecycle) : List Event → List (Draft × Nat)
  | [] => []
  | e :: later =>
    ((l.started? e).map fun d => (d, l.token + 1)).toList ++ (l.step e).1.runs later

/-- **The pages that are loaded on the way are those of the drafts, blank ones left out.** -/
theorem loaded_run [Platform] (l : Lifecycle) (events : List Event) :
    loaded (l.run events).2 = ((l.runs events).filter fun r => !r.1.isBlank).map fun r =>
      r.1.page l.options r.2 := by
  induction events generalizing l with
  | nil => rfl
  | cons e later ih =>
    have hlater := ih (l.step e).1
    rw [l.options_step e] at hlater
    have hsplit : loaded (l.run (e :: later)).2
        = loaded (l.step e).2 ++ loaded ((l.step e).1.run later).2 := List.filterMap_append
    rw [hsplit, hlater, runs, List.filter_append, List.map_append]
    congr 1
    obtain ⟨d, hd, hstarted⟩ | ⟨hnone, hanswered⟩ := l.step_transition e
    · rw [hd, hstarted.showsPage.loaded_eq]
      by_cases hblank : d.isBlank = true
      · simp [hblank]
      · simp [hblank]
    · rw [hnone, hanswered.loaded_eq]
      rfl

/-- **A run shows the page of its draft, whatever happened before.** -/
theorem showsPage_run [Platform] (options : Options) (past : List Event) (e : Event) (d : Draft)
    (h : ((new options).run past).1.started? e = some d) :
    ShowsPage options d (((new options).run past).1.token + 1)
      (((new options).run past).1.step e) := by
  have hstep := showsPage_step h
  rw [options_run] at hstep
  exact hstep

section

open scoped Bundled

/-- A draft is given and then tried again. -/
theorem showsPage_retry :
    ((new {}).run [.draft { code := "const App = () => 1".toList }]).1.started? .retry
        = some { code := "const App = () => 1".toList } ∧
      ShowsPage {} { code := "const App = () => 1".toList }
        (((new {}).run [.draft { code := "const App = () => 1".toList }]).1.token + 1)
        (((new {}).run [.draft { code := "const App = () => 1".toList }]).1.step .retry) := by
  have hstarted : ((new {}).run [.draft { code := "const App = () => 1".toList }]).1.started? .retry
      = some { code := "const App = () => 1".toList } := by
    rw [run_draft]
    exact draft_start _ _
  exact ⟨hstarted, showsPage_run {} _ .retry _ hstarted⟩

end

end LivePreview.Lifecycle
