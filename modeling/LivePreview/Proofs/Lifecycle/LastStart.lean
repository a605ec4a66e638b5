/-
The last input wins.

What comes back for an earlier run names that run: a timer by its token, a page by the
name of the run.  Behind a later start the token has grown past both, and names with
different tokens differ.  So neither is what the life waits for, also when the two runs
show the same code.
-/
import LivePreview.Bundled
import LivePreview.Proofs.Lifecycle.Run

namespace LivePreview.Lifecycle

variable {l : Lifecycle}

/-! ### One life -/

/-- A timer with another token than the last one has no effect. -/
theorem Current.graceElapsed?_eq_none [Platform]
    (h : Current l) {token : Nat} (hne : token ≠ l.token) :
    l.graceElapsed? token = none := by
  unfold graceElapsed?
  refine if_neg ?_
  rintro ⟨hgrace, -⟩
  exact hne (h.grace token hgrace)

/-- A report from a run with another token than the last one has no effect. -/
theorem Current.report_eq_self [Platform]
    (h : Current l) {r : FailureReport} {t : Nat} {code : Text}
    (hname : r.runId = runIdOf t code) (hne : t ≠ l.token) : l.report r = (l, []) := by
  unfold report
  refine if_neg ?_
  rintro ⟨hrun, -⟩
  obtain ⟨code', hcode⟩ := h.runId r.runId hrun
  rw [hname] at hcode
  exact hne (token_eq_of_runIdOf_eq hcode)

/-- A message has no effect if the report in it has none. -/
theorem receive_eq_self [Platform] {payload : Text}
    (h : ∀ r, FailureReport.read? payload = some r → l.report r = (l, [])) :
    l.receive payload = (l, []) := by
  unfold receive
  cases hread : FailureReport.read? payload with
  | none => rfl
  | some r => exact h r hread

/-! ### All histories -/

/-- A page that was mounted in front of a later start is named for an earlier token. -/
theorem runId_of_mount_before [Platform]
    {past : List Event} {e : Event} {page : Page} (h : Current l)
    (hstarts : (l.run past).1.Starts e) (hpage : .mount page ∈ (l.run past).2)
    (later : List Event) :
    ∃ t < (l.run (past ++ e :: later)).1.token, ∃ code, page.runId = runIdOf t code := by
  obtain ⟨t, ht, hname⟩ := runId_of_mount_run h hpage
  refine ⟨t, ?_, hname⟩
  rw [run_append, run_cons]
  calc t ≤ (l.run past).1.token := ht
    _ < ((l.run past).1.step e).1.token := token_lt_step hstarts
    _ ≤ (((l.run past).1.step e).1.run later).1.token := token_le_run _ later

/-- **The last input wins.**  Behind a start, whatever else happened before and after it, a
timer has no effect unless it has the last token, and neither has a report or a message that
names a page mounted in front of the start. -/
theorem last_start_wins [Platform] (options : Options) (past later : List Event) (e : Event)
    (hstarts : ((new options).run past).1.Starts e) :
    let l := ((new options).run (past ++ e :: later)).1
    (∀ token, token ≠ l.token →
      l.graceElapsed? token = none ∧ l.step (.graceElapsed token) = (l, [])) ∧
    (∀ page, .mount page ∈ ((new options).run past).2 →
      (∀ message, l.step (.report ⟨page.runId, message⟩) = (l, [])) ∧
      (∀ payload r, FailureReport.read? payload = some r → r.runId = page.runId →
        l.step (.receive payload) = (l, []))) := by
  intro l
  have hcurrent : Current l := (current_new options).run _
  refine ⟨?_, ?_⟩
  · intro token hne
    have hnone := hcurrent.graceElapsed?_eq_none hne
    refine ⟨hnone, ?_⟩
    show ((l.graceElapsed? token).getD l, []) = (l, [])
    rw [hnone, Option.getD_none]
  · intro page hpage
    obtain ⟨t, hlt, code, hname⟩ := runId_of_mount_before (current_new options)
      hstarts hpage later
    refine ⟨?_, ?_⟩
    · intro message
      exact hcurrent.report_eq_self hname (Nat.ne_of_lt hlt)
    · intro payload r hread hrun
      refine receive_eq_self ?_
      intro r' hread'
      rw [hread] at hread'
      cases hread'
      exact hcurrent.report_eq_self (hrun.trans hname) (Nat.ne_of_lt hlt)

section

open scoped Bundled

/-- A retry of the same draft: neither the timer of the first run nor its page is heard. -/
theorem retry_supersedes_draft :
    let d : Draft := ⟨['x'], none, none⟩
    let l := ((new {}).run [.draft d, .retry]).1
    l.graceElapsed? 1 = none ∧ ∃ page, .mount page ∈ ((new {}).run [.draft d]).2 ∧
      ∀ message, l.step (.report ⟨page.runId, message⟩) = (l, []) := by
  intro d
  have hblank : d.isBlank = false := by decide
  -- from here on nothing may compute with the draft
  clear_value d
  intro l
  have hstarts : ((new {}).run [.draft d]).1.Starts .retry := by
    rw [run_draft]
    show ((new {}).start d).1.draft ≠ none
    rw [draft_start]
    exact Option.some_ne_none d
  obtain ⟨htimer, hpages⟩ := last_start_wins {} [.draft d] [] .retry hstarts
  have htoken : 1 < l.token := by
    have hfirst : ((new {}).run [.draft d]).1.token = 1 := by
      rw [run_draft]
      exact (start_startsRun (new {}) d).token
    show 1 < ((new {}).run ([.draft d] ++ [.retry])).1.token
    rw [run_append, run_cons, run_nil, ← hfirst]
    exact token_lt_step hstarts
  obtain ⟨page, hpage⟩ := exists_mount_start (new {}) hblank
  rw [← run_draft] at hpage
  exact ⟨(htimer 1 (Nat.ne_of_lt htoken)).1, page, hpage, (hpages page hpage).1⟩

end

end LivePreview.Lifecycle
