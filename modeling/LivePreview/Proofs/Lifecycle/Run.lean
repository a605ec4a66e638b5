/-
What every history of a preview has in common.

A transition either starts a run under the next token, or it keeps the token and the name
of the run and mounts nothing.  This is said once, in `step_cases`, and both facts about
histories rest on it.

  * All that a life waits for belongs to its last run: the pending grace period has the
    token of that run, and so has the name of the run in the frame.
  * A page that was mounted on the way is named for a token that was the last one then,
    so the token it is named for is at most the token now.
-/
import LivePreview.Lifecycle.Basic
import LivePreview.Proofs.Page.Outcome
import LivePreview.Proofs.Page.RunId

namespace LivePreview

/-! ### Names of pages -/

/-- A page that was built is named for the token it was built under. -/
theorem Draft.runId_of_tryPage [Platform]
    {d : Draft} {options : Options} {token : Nat} {page : Page}
    (h : d.tryPage options token = .ok page) : ∃ code, page.runId = runIdOf token code := by
  have htried := d.tried_tryPage options token
  rw [h] at htried
  cases htried with
  | shown _ _ => exact ⟨_, rfl⟩

namespace Lifecycle

variable {l : Lifecycle} {e : Event} {page : Page}

/-! ### Histories -/

/-- The life behind the events, first one first, and the commands on the way. -/
def run [Platform] (l : Lifecycle) : List Event → Lifecycle × List Command
  | [] => (l, [])
  | e :: later =>
    let front := l.step e
    let back := front.1.run later
    (back.1, front.2 ++ back.2)

@[simp] theorem run_nil [Platform] (l : Lifecycle) : l.run [] = (l, []) := rfl

theorem run_cons [Platform] (l : Lifecycle) (e : Event) (later : List Event) :
    l.run (e :: later) = (((l.step e).1.run later).1, (l.step e).2 ++ ((l.step e).1.run later).2) :=
  rfl

theorem run_draft [Platform] (l : Lifecycle) (d : Draft) : l.run [.draft d] = l.start d := by
  rw [run_cons, run_nil, List.append_nil]
  rfl

theorem run_append [Platform] (l : Lifecycle) (past later : List Event) :
    (l.run (past ++ later)).1 = ((l.run past).1.run later).1 := by
  induction past generalizing l with
  | nil => rfl
  | cons e past ih =>
    rw [List.cons_append, run_cons, run_cons]
    exact ih (l.step e).1

/-- The event starts a run.  A draft always does, and a retry does once there is a draft. -/
def Starts (l : Lifecycle) : Event → Prop
  | .draft _ => True
  | .retry => l.draft ≠ none
  | _ => False

/-! ### What a transition can do -/

theorem mount_notMem_cancellation : .mount page ∉ l.cancellation := by
  intro h
  obtain ⟨token, -, htoken⟩ := List.mem_map.mp h
  cases htoken

/-- What a new run is: it has the next token, and all that the life waits for is named for
that token. -/
structure StartsRun [Platform] (l : Lifecycle) (next : Lifecycle × List Command) : Prop where
  token : next.1.token = l.token + 1
  grace : ∀ t, next.1.grace = some t → t = l.token + 1
  runId : ∀ id, next.1.runId = some id → ∃ code, id = runIdOf (l.token + 1) code
  mounted : ∀ page, .mount page ∈ next.2 → next.1.runId = some page.runId

theorem start_startsRun [Platform] (l : Lifecycle) (d : Draft) : StartsRun l (l.start d) := by
  unfold start
  by_cases hblank : d.isBlank = true
  · rw [if_pos hblank]
    refine ⟨rfl, ?_, ?_, ?_⟩
    · intro t ht
      cases ht
    · intro id hid
      cases hid
    · intro page hpage
      exact absurd hpage mount_notMem_cancellation
  · rw [if_neg hblank]
    cases hbuilt : d.tryPage l.options (l.token + 1) with
    | ok page =>
      refine ⟨rfl, ?_, ?_, ?_⟩
      · intro t ht
        exact (Option.some.inj ht).symm
      · intro id hid
        obtain ⟨code, hcode⟩ := Draft.runId_of_tryPage hbuilt
        exact ⟨code, (Option.some.inj hid).symm.trans hcode⟩
      · intro other hother
        have hother : other = page := by simpa [mount_notMem_cancellation] using hother
        rw [hother]
    | error failure =>
      refine ⟨rfl, ?_, ?_, ?_⟩
      · intro t ht
        cases ht
      · intro id hid
        exact ⟨d.code, (Option.some.inj hid).symm⟩
      · intro other hother
        have hother : other = Page.ofFailure failure (l.token + 1) d.code l.options := by
          simpa [mount_notMem_cancellation] using hother
        rw [hother]

/-- The last draft is the one that was started. -/
theorem draft_start [Platform] (l : Lifecycle) (d : Draft) : (l.start d).1.draft = some d := by
  unfold start
  by_cases hblank : d.isBlank = true
  · rw [if_pos hblank]
  · rw [if_neg hblank]
    cases d.tryPage l.options (l.token + 1) <;> rfl

/-- A run of a draft that is not blank mounts a page, be it a notice. -/
theorem exists_mount_start [Platform] (l : Lifecycle) {d : Draft} (hblank : d.isBlank = false) :
    ∃ page, .mount page ∈ (l.start d).2 := by
  unfold start
  rw [if_neg (ne_true_of_eq_false hblank)]
  cases d.tryPage l.options (l.token + 1) with
  | ok page => exact ⟨page, by simp⟩
  | error failure => exact ⟨.ofFailure failure (l.token + 1) d.code l.options, by simp⟩

/-- What a transition that starts no run leaves as it is. -/
structure KeepsRun (l : Lifecycle) (next : Lifecycle × List Command) : Prop where
  token : next.1.token = l.token
  runId : next.1.runId = l.runId
  grace : ∀ t, next.1.grace = some t → l.grace = some t
  mounted : ∀ page, .mount page ∉ next.2

theorem keepsRun_self (l : Lifecycle) : KeepsRun l (l, []) :=
  ⟨rfl, rfl, fun _ h => h, fun _ => List.not_mem_nil⟩

theorem keepsRun_graceElapsed (l : Lifecycle) (token : Nat) :
    KeepsRun l ((l.graceElapsed? token).getD l, []) := by
  unfold graceElapsed?
  split
  · refine ⟨rfl, rfl, ?_, fun _ => List.not_mem_nil⟩
    intro t ht
    cases ht
  · exact keepsRun_self l

theorem keepsRun_report (l : Lifecycle) (r : FailureReport) : KeepsRun l (l.report r) := by
  unfold report
  split
  · refine ⟨rfl, rfl, ?_, fun _ => mount_notMem_cancellation⟩
    intro t ht
    cases ht
  · exact keepsRun_self l

/-- **An event starts a run or keeps the one there is.** -/
theorem step_cases [Platform] (l : Lifecycle) (e : Event) :
    l.Starts e ∧ StartsRun l (l.step e) ∨ ¬l.Starts e ∧ KeepsRun l (l.step e) := by
  cases e with
  | draft d => exact Or.inl ⟨trivial, start_startsRun l d⟩
  | retry =>
    show _ ∧ StartsRun l l.retry ∨ _ ∧ KeepsRun l l.retry
    unfold retry
    cases hdraft : l.draft with
    | none => exact Or.inr ⟨fun h => h hdraft, keepsRun_self l⟩
    | some d =>
      refine Or.inl ⟨?_, start_startsRun l d⟩
      intro hnone
      rw [hdraft] at hnone
      cases hnone
  | graceElapsed token => exact Or.inr ⟨id, keepsRun_graceElapsed l token⟩
  | report r => exact Or.inr ⟨id, keepsRun_report l r⟩
  | receive payload =>
    refine Or.inr ⟨id, ?_⟩
    show KeepsRun l (l.receive payload)
    unfold receive
    split
    · exact keepsRun_report l _
    · exact keepsRun_self l

/-! ### All that is awaited belongs to the last run -/

/-- The pending grace period and the run in the frame are those of the last token. -/
structure Current [Platform] (l : Lifecycle) : Prop where
  grace : ∀ t, l.grace = some t → t = l.token
  runId : ∀ id, l.runId = some id → ∃ code, id = runIdOf l.token code

theorem current_new [Platform] (options : Options) : Current (new options) := by
  constructor
  · intro t ht
    cases ht
  · intro id hid
    cases hid

theorem Current.step [Platform] (h : Current l) (e : Event) : Current (l.step e).1 := by
  obtain ⟨-, hstarts⟩ | ⟨-, hkeeps⟩ := l.step_cases e
  · constructor
    · rw [hstarts.token]
      exact hstarts.grace
    · rw [hstarts.token]
      exact hstarts.runId
  · constructor
    · intro t ht
      rw [hkeeps.token]
      exact h.grace t (hkeeps.grace t ht)
    · rw [hkeeps.token, hkeeps.runId]
      exact h.runId

theorem Current.run [Platform]
    (h : Current l) (events : List Event) : Current (l.run events).1 := by
  induction events generalizing l with
  | nil => exact h
  | cons e later ih => exact ih (h.step e)

/-! ### Tokens grow -/

theorem token_le_step [Platform] (l : Lifecycle) (e : Event) : l.token ≤ (l.step e).1.token := by
  obtain ⟨-, hstarts⟩ | ⟨-, hkeeps⟩ := l.step_cases e
  · rw [hstarts.token]
    exact Nat.le_succ _
  · exact Nat.le_of_eq hkeeps.token.symm

theorem token_lt_step [Platform] (h : l.Starts e) : l.token < (l.step e).1.token := by
  obtain ⟨-, hstarts⟩ | ⟨hnot, -⟩ := l.step_cases e
  · rw [hstarts.token]
    exact Nat.lt_succ_self _
  · exact absurd h hnot

theorem token_le_run [Platform]
    (l : Lifecycle) (events : List Event) : l.token ≤ (l.run events).1.token := by
  induction events generalizing l with
  | nil => exact Nat.le_refl _
  | cons e later ih => exact Nat.le_trans (l.token_le_step e) (ih (l.step e).1)

/-! ### Pages that were mounted -/

/-- A page that an event mounts is named for the token behind the event. -/
theorem runId_of_mount_step [Platform] (h : Current l) (hpage : .mount page ∈ (l.step e).2) :
    ∃ code, page.runId = runIdOf (l.step e).1.token code := by
  obtain ⟨-, hstarts⟩ | ⟨-, hkeeps⟩ := l.step_cases e
  · exact (h.step e).runId _ (hstarts.mounted page hpage)
  · exact absurd hpage (hkeeps.mounted page)

/-- **A page that was mounted is named for a token up to the last one.** -/
theorem runId_of_mount_run [Platform] {events : List Event} (h : Current l)
    (hpage : .mount page ∈ (l.run events).2) :
    ∃ t ≤ (l.run events).1.token, ∃ code, page.runId = runIdOf t code := by
  induction events generalizing l with
  | nil => cases hpage
  | cons e later ih =>
    rw [run_cons] at hpage ⊢
    obtain hnow | hthen := List.mem_append.mp hpage
    · exact ⟨_, (l.step e).1.token_le_run later, runId_of_mount_step h hnow⟩
    · exact ih (h.step e) hthen

end Lifecycle

end LivePreview
