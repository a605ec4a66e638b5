/-
What comes of a draft.

A draft that is tried comes to a page that shows its component, or to a failure: it could not be
processed, or the name of the component is none that can be mounted.  A failure never looks like a
page that shows something: `Draft.page` is an error page exactly where `Draft.tryPage` fails.
-/
import LivePreview.Preview

namespace LivePreview.Draft

variable {d : Draft} {options : Options} {token : Nat} {page : Page} {failure : Failure}

/-- What comes of a draft that is tried. -/
inductive Tried [Platform]
    (d : Draft) (options : Options) (token : Nat) : Except Failure Page → Prop
  | unprocessed {failure : Failure} (hdraft : Processed.ofDraft d options = .error failure) :
      Tried d options token (.error failure)
  | unmountable {p : Processed} (hdraft : Processed.ofDraft d options = .ok p)
      (hname : Script.isIdentifier p.component.name = false) :
      Tried d options token (.error (.invalidComponent p.component.name))
  | shown {p : Processed} (hdraft : Processed.ofDraft d options = .ok p)
      (hname : Script.isIdentifier p.component.name = true) :
      Tried d options token (.ok ((p.content d.className token).page options))

theorem tryPage_of_unprocessed [Platform] (hdraft : Processed.ofDraft d options = .error failure) :
    d.tryPage options token = .error failure := by
  unfold tryPage build
  rw [hdraft]
  rfl

theorem tryPage_of_processed [Platform]
    {p : Processed} (hdraft : Processed.ofDraft d options = .ok p) :
    d.tryPage options token =
      if Script.isIdentifier p.component.name then .ok ((p.content d.className token).page options)
      else .error (.invalidComponent p.component.name) := by
  have hcomponent : (p.content d.className token).component = p.component := rfl
  unfold tryPage build
  rw [hdraft]
  simp only [bind, Except.bind, PageContent.build, hcomponent]
  by_cases hname : Script.isIdentifier p.component.name = true
  · rw [if_pos hname, if_pos hname]
    rfl
  · rw [if_neg hname, if_neg hname]
    rfl

theorem tried_tryPage [Platform] (d : Draft) (options : Options) (token : Nat) :
    d.Tried options token (d.tryPage options token) := by
  cases hdraft : Processed.ofDraft d options with
  | error failure =>
    rw [tryPage_of_unprocessed hdraft]
    exact .unprocessed hdraft
  | ok p =>
    rw [tryPage_of_processed hdraft]
    by_cases hname : Script.isIdentifier p.component.name = true
    · rw [if_pos hname]
      exact .shown hdraft hname
    · rw [if_neg hname]
      exact .unmountable hdraft (by simpa using hname)

/-- A blank draft comes to nothing. -/
theorem tryPage_of_isBlank [Platform] (hblank : d.isBlank = true) :
    d.tryPage options token = .error .emptyInput := by
  refine tryPage_of_unprocessed ?_
  unfold Processed.ofDraft
  rw [if_pos hblank]
  rfl

theorem page_of_ok [Platform]
    (h : d.tryPage options token = .ok page) : d.page options token = page := by
  rw [Draft.page, h]

theorem page_of_error [Platform] (h : d.tryPage options token = .error failure) :
    d.page options token = .ofFailure failure token d.code options := by
  rw [Draft.page, h]

theorem isError_of_ok [Platform]
    (h : d.tryPage options token = .ok page) : page.isError = false := by
  have htried := d.tried_tryPage options token
  rw [h] at htried
  cases htried
  rfl

/-- **The page of a draft is an error page exactly where the draft fails.** -/
theorem isError_page_iff [Platform] : (d.page options token).isError = true ↔
    ∃ failure, d.tryPage options token = .error failure := by
  cases h : d.tryPage options token with
  | ok page =>
    rw [page_of_ok h, isError_of_ok h]
    simp
  | error failure =>
    rw [page_of_error h]
    exact iff_of_true rfl ⟨failure, rfl⟩

end LivePreview.Draft
