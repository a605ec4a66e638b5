/-
Erasing is total and safe.

`Visits` are the states that the steps of erasing a text lead through.  Each of them stands at a
place of the text, inside of a mode, and the next step reads at least one character, so a run ends
with its text and no bound has a say in it.

The steps of erasing the bytes of a text lead through the same states, one step for one step, and
whatever these steps take out of the bytes is a slice: none is out of range, and none cuts a
character.  What remains is the one thing that can fail, an enum with a member at the largest value.
-/
import LivePreview.Proofs.Erasure.ByteRuns
import LivePreview.Proofs.Erasure.EnumOverflow

namespace LivePreview

open Script

namespace Erasure

open EnumObject

namespace Eraser

variable {code : Text} {e e' : Eraser}

/-! ### The states of a run -/

/-- The states that the steps of erasing a text lead through. -/
inductive Visits (code : Text) : Eraser → Prop where
  | start : Visits code (start code)
  | step {e e' : Eraser} (h : Visits code e) (hstep : e.step = .ok e') : Visits code e'

/-- The eraser stands at a place of the text, inside of a mode, and a step from there leaves what
is around that mode in place and reads on, in slices of the text. -/
structure GoesOn (code : Text) (e : Eraser) : Prop where
  place : e.rest <:+ code
  inMode : ∃ mode outer, e.modes = mode :: outer ∧ ∀ {e'}, e.rest ≠ [] → e.step = .ok e' →
    ∃ entered, StepsTo code { e with modes := outer } entered e'

theorem Visits.grounded (h : Visits code e) : e.rest <:+ code ∧ Grounded e.modes := by
  induction h with
  | start => exact ⟨List.suffix_rfl, {}, rfl⟩
  | @step e e' _ hstep ih =>
    obtain ⟨hplace, hground⟩ := ih
    by_cases hrest : e.rest = []
    · rw [step_of_nil (Or.inl hrest)] at hstep
      cases hstep
      exact ⟨hplace, hground⟩
    · cases hmodes : e.modes with
      | nil =>
        rw [hmodes] at hground
        obtain ⟨m, hm⟩ := hground
        cases hm
      | cons mode outer =>
        obtain ⟨entered, hsteps, hcode⟩ := stepsTo_step hplace hrest hmodes hstep
        rw [hmodes] at hground
        refine ⟨hsteps.suffix_code, ?_⟩
        rw [hsteps.modes_eq]
        exact hground.step hcode

theorem Visits.goesOn (h : Visits code e) : GoesOn code e := by
  obtain ⟨hplace, m, hm⟩ := h.grounded
  refine ⟨hplace, ?_⟩
  cases hmodes : e.modes with
  | nil =>
    rw [hmodes] at hm
    cases hm
  | cons mode outer =>
    refine ⟨mode, outer, rfl, ?_⟩
    intro e' hrest hstep
    obtain ⟨entered, hsteps, -⟩ := stepsTo_step hplace hrest hmodes hstep
    exact ⟨entered, hsteps⟩

theorem GoesOn.length_lt (h : GoesOn code e) (hrest : e.rest ≠ []) (hstep : e.step = .ok e') :
    e'.rest.length < e.rest.length := by
  obtain ⟨mode, outer, -, hgoesOn⟩ := h.inMode
  obtain ⟨entered, hsteps⟩ := hgoesOn hrest hstep
  exact hsteps.length_lt hrest

/-- A run goes through every state that is visited. -/
theorem Visits.reaches (h : Visits code e) : Reaches (Eraser.start code) e := by
  induction h with
  | start => exact .refl _
  | @step e e' h hstep ih =>
    by_cases hrest : e.rest = []
    · rw [step_of_nil (Or.inl hrest)] at hstep
      cases hstep
      exact ih
    · exact ih.trans (.one hstep (h.goesOn.length_lt hrest hstep))

/-- A run that ends has read its text. -/
theorem Visits.rest_eq_nil (h : Visits code e) {n : Nat} (hn : e.rest.length ≤ n)
    (hrun : run n e = .ok e') : e'.rest = [] := by
  induction n generalizing e with
  | zero =>
    cases hrun
    exact List.length_eq_zero_iff.mp (Nat.le_zero.mp hn)
  | succ n ih =>
    unfold run at hrun
    split at hrun
    · rename_i hnil
      cases hrun
      exact hnil
    · rename_i hrest
      cases hstep : e.step with
      | error o =>
        rw [hstep] at hrun
        cases hrun
      | ok e₁ =>
        rw [hstep] at hrun
        have hlt := h.goesOn.length_lt hrest hstep
        exact ih (h.step hstep) (by omega) hrun

/-- A run that fails has come to a step that fails. -/
theorem Visits.exists_step_error (h : Visits code e) {n : Nat} {o : Overflow}
    (hrun : run n e = .error o) : ∃ e', Visits code e' ∧ e'.step = .error o := by
  induction n generalizing e with
  | zero => cases hrun
  | succ n ih =>
    unfold run at hrun
    split at hrun
    · cases hrun
    · cases hstep : e.step with
      | error o' =>
        rw [hstep] at hrun
        cases hrun
        exact ⟨e, h, hstep⟩
      | ok e₁ =>
        rw [hstep] at hrun
        exact ih (h.step hstep) hrun

/-- A run fails where a step does. -/
theorem Visits.run_eq_error (h : Visits code e) {o : Overflow} (hstep : e.step = .error o) :
    run code.length (Eraser.start code) = .error o := by
  obtain ⟨k, hk, hrun⟩ := h.reaches.run_eq (Nat.le_refl code.length)
  have hrest : e.rest ≠ [] := by
    intro hnil
    rw [step_of_nil (Or.inl hnil)] at hstep
    cases hstep
  obtain ⟨n, rfl⟩ : ∃ n, k = n + 1 := by
    have hpos := List.length_pos_iff.mpr hrest
    exact ⟨k - 1, by omega⟩
  rw [show run code.length (Eraser.start code) = run (n + 1) e from hrun, run]
  split
  · contradiction
  · rw [hstep]
    rfl

/-! ### Every text -/

/-- No loop depends on its bound, as long as that is no less than the text that is left calls
for. -/
structure LoopsEnd : Prop where
  names : ∀ {n k s}, s.length ≤ n → s.length ≤ k → dottedRest n s = dottedRest k s
  types : ∀ {n k f s}, depth s ≤ n → depth s ≤ k → extent n f s = extent k f s
  statements : ∀ {n k start s}, s.length ≤ n → s.length ≤ k →
    statementRestFrom start n s = statementRestFrom start k s
  parts : ∀ {n k sep part s}, s.length ≤ n → s.length ≤ k →
    splitFrom sep n part s = splitFrom sep k part s
  comments : ∀ {n k s}, s.length ≤ n → s.length ≤ k →
    withoutCommentsFrom n s = withoutCommentsFrom k s
  headers : ∀ {n k} {e : Eraser}, e.rest.length ≤ n → e.rest.length ≤ k →
    e.eraseHeader n = e.eraseHeader k
  runs : ∀ {n k} {e : Eraser}, e.rest.length ≤ n → e.rest.length ≤ k → run n e = run k e

theorem loopsEnd : LoopsEnd where
  names := dottedRest_stable
  types := by
    intro n k f s hn hk
    have hlt := f.measure_lt_depth s
    exact extent_stable (Nat.lt_of_lt_of_le hlt hn) (Nat.lt_of_lt_of_le hlt hk)
  statements := statementRestFrom_stable
  parts := splitFrom_stable
  comments := withoutCommentsFrom_stable
  headers := eraseHeader_stable
  runs := run_stable

end Eraser

namespace Bytewise

/-- The states that the steps of erasing the bytes of a text lead through. -/
inductive Visits (code : Text) : Eraser → Prop where
  | start : Visits code { rest := Text.spread code, modes := [.code {}] }
  | step {b b' : Eraser} (h : Visits code b) (hstep : Bytewise.step code b = .ok b') : Visits code b'

/-- No slice goes wrong where the bytes of a text are erased: the steps stand where the steps of
erasing the text stand, each of them takes its slices between characters, and so do the readers of
types, which take words, and look for an arrow behind brackets, at places of their own. -/
structure TakesSlices (code : Text) : Prop where
  visits : ∀ b, Visits code b ↔ ∃ e, Eraser.Visits code e ∧ b = e.inBytes
  steps : ∀ b, Visits code b → Bytewise.step code b ≠ .error .cut
  words : ∀ t, t <:+ Text.spread code → startsIdent t = true →
    ∃ w, slice code t (skipIdent t) = .ok w
  arrows : ∀ t rest, t <:+ Text.spread code → afterGroup? t = some rest →
    ∃ w, slice code (Text.skipBlanks rest) [] = .ok w
  result : erase code = checked (eraseTypes code)

/-- No step fails for the sake of a slice. -/
theorem outcome_ne_cut (r : Except Overflow Eraser) : outcome r ≠ .error .cut := by
  cases r with
  | ok e => nofun
  | error o =>
    cases o
    nofun

theorem visits_iff (code : Text) (b : Eraser) :
    Visits code b ↔ ∃ e, Eraser.Visits code e ∧ b = e.inBytes := by
  constructor
  · intro h
    induction h with
    | start => exact ⟨Eraser.start code, .start, rfl⟩
    | step _ hstep ih =>
      obtain ⟨e, he, rfl⟩ := ih
      rw [step_inBytes he.goesOn.place] at hstep
      cases htext : e.step with
      | error o =>
        rw [htext] at hstep
        cases o
        cases hstep
      | ok e' =>
        rw [htext] at hstep
        cases hstep
        exact ⟨e', he.step htext, rfl⟩
  · rintro ⟨e, he, rfl⟩
    induction he with
    | start => exact .start
    | step he hstep ih => exact .step ih (by rw [step_inBytes he.goesOn.place, hstep]; rfl)

theorem takesSlices (code : Text) : TakesSlices code where
  visits := visits_iff code
  steps := by
    intro b hb
    obtain ⟨e, he, rfl⟩ := (visits_iff code b).mp hb
    rw [step_inBytes he.goesOn.place]
    exact outcome_ne_cut e.step
  words _ := slice_word
  arrows _ _ := slice_behind_group
  result := erase_eq code

end Bytewise

namespace Eraser

/-- **Erasing is total and safe on every text.**  Its loops end by themselves, whatever it looks for
ends inside of the text, and its steps read the text to the end, from one place to a later one.  In
the bytes of the text they take slices that are in range and lie between characters.  And it fails
exactly if an enum is converted in which a member has the largest value. -/
theorem eraseTypes_safe (code : Text) :
    LoopsEnd ∧
    (∀ (l : Lookahead) s rest, l.rest? s = some rest → rest <:+ s) ∧
    (∀ e, Visits code e → GoesOn code e) ∧
    (∀ e, run code.length (start code) = .ok e → e.rest = []) ∧
    Bytewise.TakesSlices code ∧
    (eraseTypes code = .error .overflow ↔
      ∃ e body, Visits code e ∧ e.Converts body ∧ some maxValue ∈ memberValues body) := by
  have hstart : Visits code (start code) := .start
  refine ⟨loopsEnd, fun l _ _ => l.suffix, fun e h => h.goesOn, fun e hrun => ?_,
    Bytewise.takesSlices code, ?_⟩
  · exact hstart.rest_eq_nil (Nat.le_refl code.length) hrun
  · have hfails : eraseTypes code = .error .overflow ↔
        run code.length (start code) = .error .overflow := by
      unfold eraseTypes
      cases run code.length (start code) <;> simp [Except.map]
    rw [hfails]
    constructor
    · intro hrun
      obtain ⟨e, he, hstep⟩ := hstart.exists_step_error hrun
      obtain ⟨body, hconverts, hvalue⟩ := (step_eq_error_iff e).mp hstep
      exact ⟨e, body, he, hconverts, hvalue⟩
    · rintro ⟨e, body, he, hconverts, hvalue⟩
      exact he.run_eq_error ((step_eq_error_iff e).mpr ⟨body, hconverts, hvalue⟩)

end Eraser

/-- The largest value has no successor. -/
example : eraseTypes "enum E { A, B = 9223372036854775807 }".toList = .error .overflow := by
  decide +kernel

end Erasure

end LivePreview
