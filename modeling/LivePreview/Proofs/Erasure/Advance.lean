/-
What a step of the eraser does to where it stands.

Whatever a step decides, it goes on by keeping and erasing, one piece behind the other, and each
piece is a slice of the text: `Advances`.  A step also leaves the modes around its own in place,
under those that it enters, and it reads at least one character: `StepsTo`.  Both are what remains
of `Cuts` and `CutsTo` if one asks only where the pieces are.

Only erasing touches the report, and it adds a hit.  So the hits of a state are the older hits of
every state that it leads to, and one hit that should not be there settles what a run is not.
-/
import LivePreview.Proofs.Erasure.Cuts

namespace LivePreview.Erasure.Eraser

open Text (IsSlice isSlice_of_suffix)

/-! ### Going on -/

/-- From `e` on, slices of `code` were kept or erased, one behind the other.  Blanks may be taken
off the end of the output, and something else may be written. -/
inductive Advances (code : Text) (e : Eraser) : Eraser → Prop where
  | refl (h : e.rest <:+ code) : Advances code e e
  | keep {e' : Eraser} (h : Advances code e e') {rest : Text}
      (hslice : IsSlice code e'.rest rest) : Advances code e (e'.keep rest)
  | erase {e' : Eraser} (h : Advances code e e') (rule : ErasureRule) {rest : Text}
      (hslice : IsSlice code e'.rest rest) : Advances code e (e'.erase rule rest)
  | trimOut {e' : Eraser} (h : Advances code e e') : Advances code e e'.trimOut
  | write {e' : Eraser} (h : Advances code e e') (s : Text) : Advances code e (e'.write s)

variable {code : Text} {e e' : Eraser}

namespace Advances

theorem suffix_code (h : Advances code e e') : e'.rest <:+ code := by
  induction h with
  | refl h => exact h
  | keep _ hslice | erase _ _ hslice => exact hslice.stop.trans hslice.start
  | trimOut _ ih | write _ _ ih => exact ih

theorem modes_eq (h : Advances code e e') : e'.modes = e.modes := by
  induction h with
  | refl => rfl
  | keep _ _ ih | erase _ _ _ ih | trimOut _ ih | write _ _ ih => exact ih

/-- Hits are never taken back. -/
theorem hits (h : Advances code e e') : e.report.hits <:+ e'.report.hits := by
  induction h with
  | refl => exact List.suffix_rfl
  | keep _ _ ih | trimOut _ ih | write _ _ ih => exact ih
  | erase _ rule _ ih => exact ih.trans (List.suffix_cons rule _)

end Advances

/-- The pieces that are cut from an end piece of `code` on are slices of `code`. -/
theorem Cuts.advances (h : Cuts e e') (he : e.rest <:+ code) : Advances code e e' := by
  induction h with
  | refl => exact .refl he
  | keep _ hrest ih => exact ih.keep (isSlice_of_suffix ih.suffix_code hrest)
  | erase _ rule hcut ih => exact ih.erase rule (isSlice_of_suffix ih.suffix_code hcut.suffix)
  | trim _ rule hcut ih =>
    exact ih.trimOut.erase rule (isSlice_of_suffix ih.suffix_code hcut.suffix)
  | convert _ object hcut ih =>
    exact (ih.write object).erase .enumDecl (isSlice_of_suffix ih.suffix_code hcut.suffix)

/-! ### Steps -/

/-- A step from a mode inside of those of `e`: it reads at least one character, in slices one
behind the other, and leaves the modes of `e` under those that it enters. -/
inductive StepsTo (code : Text) (e : Eraser) : List Mode → Eraser → Prop where
  | intro {x : Eraser} (h : Advances code e x) (hread : x.rest <:+ e.rest.tail)
      (entered : List Mode) : StepsTo code e entered (x.within entered)

namespace StepsTo

variable {entered : List Mode}

theorem modes_eq (h : StepsTo code e entered e') : e'.modes = entered ++ e.modes := by
  obtain ⟨hadvances, -, -⟩ := h
  exact congrArg (entered ++ ·) hadvances.modes_eq

theorem suffix_code (h : StepsTo code e entered e') : e'.rest <:+ code := by
  obtain ⟨hadvances, -, -⟩ := h
  exact hadvances.suffix_code

theorem suffix_tail (h : StepsTo code e entered e') : e'.rest <:+ e.rest.tail := by
  obtain ⟨-, hread, -⟩ := h
  exact hread

theorem length_lt (h : StepsTo code e entered e') (hrest : e.rest ≠ []) :
    e'.rest.length < e.rest.length := by
  have hle := h.suffix_tail.length_le
  have hpos := List.length_pos_iff.mpr hrest
  rw [List.length_tail] at hle
  omega

/-- Hits are never taken back. -/
theorem hits (h : StepsTo code e entered e') : e.report.hits <:+ e'.report.hits := by
  obtain ⟨hadvances, -, -⟩ := h
  exact hadvances.hits

end StepsTo

/-- **A step reads at least one character, in slices of the text.** -/
theorem stepsTo_step (he : e.rest <:+ code) (hrest : e.rest ≠ []) {mode : Mode}
    {outer : List Mode} (hmodes : e.modes = mode :: outer) (h : e.step = .ok e') :
    ∃ entered, StepsTo code { e with modes := outer } entered e' ∧
      ((∃ m, mode = .code m) → outer = [] → Grounded entered) := by
  obtain ⟨entered, ⟨hcuts, hread, _⟩, hground⟩ := cutsTo_step hrest hmodes h
  exact ⟨entered, .intro (hcuts.advances he) hread entered, hground⟩

/-! ### Hits -/

/-- Where nothing is left to read, or no mode to read it in, a step changes nothing. -/
theorem step_of_nil {e : Eraser} (h : e.rest = [] ∨ e.modes = []) : e.step = .ok e := by
  unfold step
  obtain hrest | hmodes := h
  · rw [hrest]
  · rw [hmodes]
    cases e.rest <;> rfl

theorem hits_step {e e' : Eraser} (h : e.step = .ok e') : e.report.hits <:+ e'.report.hits := by
  by_cases hrest : e.rest = []
  · rw [step_of_nil (Or.inl hrest)] at h
    cases h
    exact List.suffix_rfl
  cases hmodes : e.modes with
  | nil =>
    rw [step_of_nil (Or.inr hmodes)] at h
    cases h
    exact List.suffix_rfl
  | cons mode outer =>
    obtain ⟨entered, hsteps, -⟩ := stepsTo_step List.suffix_rfl hrest hmodes h
    exact hsteps.hits

/-- **A run never takes a hit back.** -/
theorem hits_run {n : Nat} {e e' : Eraser} (h : run n e = .ok e') :
    e.report.hits <:+ e'.report.hits := by
  induction n generalizing e with
  | zero =>
    cases h
    exact List.suffix_rfl
  | succ n ih =>
    unfold run at h
    split at h
    · cases h
      exact List.suffix_rfl
    · cases hstep : e.step with
      | error o =>
        rw [hstep] at h
        cases h
      | ok e₁ =>
        rw [hstep] at h
        exact (hits_step hstep).trans (ih h)

end LivePreview.Erasure.Eraser
