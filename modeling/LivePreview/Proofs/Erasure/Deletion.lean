/-
Erasing only deletes.

What the eraser has written is what it has read, less what it has removed: `Deletes`.  A piece that
is kept is written as it was read.  A piece that is erased has a character that is no blank, so
every hit makes the output shorter than what was read, and blanks come off the end of the output
only together with such a piece.  The one thing that is written and was not read is the object for
an enum, and that is a hit of its own.  Each step keeps this, so every state of a run has it, and at
the end of a run all of the text is read.
-/
import LivePreview.Proofs.Erasure.Totality

namespace LivePreview.Erasure

namespace Eraser

variable {code read : Text} {e e' : Eraser}

/-! ### What was written of what was read -/

/-- What the eraser has written of the text `read` that it has read.  With no hit it is that text.
Unless an enum was converted it is that text with characters left out, and for each hit there is one
among them that is no blank. -/
structure Deletes (read : Text) (e : Eraser) : Prop where
  whole : e.report.hits = [] → e.out.reverse = read
  sublist : .enumDecl ∉ e.report.hits → e.out.reverse.Sublist read
  visible : .enumDecl ∉ e.report.hits →
    Text.visible e.out + e.report.hits.length ≤ Text.visible read

namespace Deletes

theorem keep (h : Deletes read e) {piece rest : Text} (hrest : e.rest = piece ++ rest) :
    Deletes (read ++ piece) (e.keep rest) := by
  have hout : (e.keep rest).out = piece.reverse ++ e.out := by
    rw [Eraser.keep, hrest, Text.consumed_append]
  have hreverse : (e.keep rest).out.reverse = e.out.reverse ++ piece := by
    rw [hout, List.reverse_append, List.reverse_reverse]
  refine ⟨fun hnone => ?_, fun henum => ?_, fun henum => ?_⟩
  · rw [hreverse, h.whole hnone]
  · rw [hreverse]
    exact (h.sublist henum).append_right piece
  · have hvisible := h.visible henum
    rw [hout, Text.visible_append, Text.visible_append, Text.visible_reverse]
    change Text.visible piece + Text.visible e.out + e.report.hits.length ≤ _
    omega

theorem erase (h : Deletes read e) (rule : ErasureRule) {piece rest : Text}
    (hpiece : 0 < Text.visible piece) : Deletes (read ++ piece) (e.erase rule rest) := by
  have hothers : .enumDecl ∉ rule :: e.report.hits → .enumDecl ∉ e.report.hits :=
    fun henum hmem => henum (List.mem_cons_of_mem rule hmem)
  refine ⟨nofun, fun henum => ?_, fun henum => ?_⟩
  · exact (h.sublist (hothers henum)).trans (List.sublist_append_left read piece)
  · have hvisible := h.visible (hothers henum)
    rw [Text.visible_append]
    change Text.visible e.out + (e.report.hits.length + 1) ≤ _
    omega

/-- In front of a piece that is erased, the output may lose its last blanks as well. -/
theorem trimErase (h : Deletes read e) (rule : ErasureRule) {piece rest : Text}
    (hpiece : 0 < Text.visible piece) :
    Deletes (read ++ piece) (e.trimOut.erase rule rest) := by
  have hout : e.out.dropWhile isInline <:+ e.out := List.dropWhile_suffix _
  have herase : Deletes (read ++ piece) (e.erase rule rest) := h.erase rule hpiece
  refine ⟨nofun, fun henum => ?_, fun henum => ?_⟩
  · exact (List.reverse_sublist.mpr hout.sublist).trans (herase.sublist henum)
  · have hvisible := herase.visible henum
    have hless := Text.visible_le_of_suffix hout
    exact (Nat.add_le_add_right hless _).trans hvisible

/-- An enum that is converted is a hit, behind which nothing more is said. -/
theorem convert (object rest : Text) : Deletes read ((e.write object).erase .enumDecl rest) := by
  have hmem : ErasureRule.enumDecl ∈ ErasureRule.enumDecl :: e.report.hits := List.mem_cons_self
  exact ⟨nofun, fun henum => absurd hmem henum, fun henum => absurd hmem henum⟩

end Deletes

/-! ### Steps and runs -/

/-- What the eraser has written of the part of `code` in front of it. -/
def OnlyDeletes (code : Text) (e : Eraser) : Prop := ∃ read, read ++ e.rest = code ∧ Deletes read e

/-- What was written does not depend on the modes. -/
theorem OnlyDeletes.inModes (he : OnlyDeletes code e) (modes : List Mode) :
    OnlyDeletes code { e with modes := modes } := by
  obtain ⟨read, hread, hdeletes⟩ := he
  exact ⟨read, hread, hdeletes.whole, hdeletes.sublist, hdeletes.visible⟩

/-- Keeping and erasing only deletes. -/
theorem Cuts.onlyDeletes (h : Cuts e e') (he : OnlyDeletes code e) : OnlyDeletes code e' := by
  have hpiece : ∀ {x : Eraser} {read rest : Text}, read ++ x.rest = code →
      Text.CutOff x.rest rest → ∃ piece, 0 < Text.visible piece ∧ (read ++ piece) ++ rest = code := by
    intro x read rest hread hcut
    obtain ⟨piece, hvisible, hrest⟩ := hcut.exists_piece
    exact ⟨piece, hvisible, by rw [← hread, ← hrest, List.append_assoc]⟩
  induction h with
  | refl => exact he
  | keep _ hrest ih =>
    obtain ⟨read, hread, hdeletes⟩ := ih
    obtain ⟨piece, hrest⟩ := hrest
    exact ⟨read ++ piece, by rw [← hread, ← hrest, List.append_assoc]; rfl,
      hdeletes.keep hrest.symm⟩
  | erase _ rule hcut ih =>
    obtain ⟨read, hread, hdeletes⟩ := ih
    obtain ⟨piece, hvisible, hcode⟩ := hpiece hread hcut
    exact ⟨read ++ piece, hcode, hdeletes.erase rule hvisible⟩
  | trim _ rule hcut ih =>
    obtain ⟨read, hread, hdeletes⟩ := ih
    obtain ⟨piece, hvisible, hcode⟩ := hpiece hread hcut
    exact ⟨read ++ piece, hcode, hdeletes.trimErase rule hvisible⟩
  | convert _ object hcut ih =>
    obtain ⟨read, hread, -⟩ := ih
    obtain ⟨piece, -, hcode⟩ := hpiece hread hcut
    exact ⟨read ++ piece, hcode, Deletes.convert object _⟩

theorem OnlyDeletes.step (he : OnlyDeletes code e) (hstep : e.step = .ok e') :
    OnlyDeletes code e' := by
  by_cases hrest : e.rest = []
  · rw [step_of_nil (Or.inl hrest)] at hstep
    cases hstep
    exact he
  cases hmodes : e.modes with
  | nil =>
    rw [step_of_nil (Or.inr hmodes)] at hstep
    cases hstep
    exact he
  | cons mode outer =>
    obtain ⟨entered, ⟨hcuts, -, -⟩, -⟩ := cutsTo_step hrest hmodes hstep
    exact (hcuts.onlyDeletes (he.inModes outer)).inModes _

/-- Every state of a run only deletes. -/
theorem Visits.onlyDeletes (h : Visits code e) : OnlyDeletes code e := by
  induction h with
  | start => exact ⟨[], rfl, fun _ => rfl, fun _ => List.Sublist.refl [], fun _ => Nat.le_refl 0⟩
  | step _ hstep ih => exact ih.step hstep

/-- A run ends in a state that is visited. -/
theorem Visits.run (h : Visits code e) {n : Nat} (hrun : Eraser.run n e = .ok e') :
    Visits code e' := by
  induction n generalizing e with
  | zero =>
    cases hrun
    exact h
  | succ n ih =>
    unfold Eraser.run at hrun
    split at hrun
    · cases hrun
      exact h
    · cases hstep : e.step with
      | error o =>
        rw [hstep] at hrun
        cases hrun
      | ok e₁ =>
        rw [hstep] at hrun
        exact ih (h.step hstep) hrun

end Eraser

open Eraser

/-! ### Every text -/

/-- At the end of a run all of the text is read. -/
theorem exists_deletes_of_eraseTypes {code : Text} {erased : Erased}
    (h : eraseTypes code = .ok erased) :
    ∃ e, Deletes code e ∧ erased = ⟨e.out.reverse, e.report⟩ := by
  unfold eraseTypes at h
  cases hrun : run code.length (start code) with
  | error o =>
    rw [hrun] at h
    cases h
  | ok e =>
    rw [hrun] at h
    cases h
    have hstart : Visits code (start code) := .start
    have hend := hstart.rest_eq_nil (Nat.le_refl code.length) hrun
    obtain ⟨read, hread, hdeletes⟩ := (hstart.run hrun).onlyDeletes
    obtain rfl : read = code := by rw [← hread, hend, List.append_nil]
    exact ⟨e, hdeletes, rfl⟩

/-- For each hit there is a character less that is no blank. -/
theorem visible_eraseTypes {code : Text} {erased : Erased} (h : eraseTypes code = .ok erased)
    (henum : erased.report.count .enumDecl = 0) :
    Text.visible erased.code + erased.report.total ≤ Text.visible code := by
  obtain ⟨e, hdeletes, rfl⟩ := exists_deletes_of_eraseTypes h
  rw [Text.visible_reverse]
  exact hdeletes.visible (List.count_eq_zero.mp henum)

/-- **Erasing only deletes.**  Unless an enum was converted, the code that is left is the text with
characters left out, in the old order, and each hit has made it shorter.  With no hit it is the
text. -/
theorem eraseTypes_deletes {code : Text} {erased : Erased} (h : eraseTypes code = .ok erased) :
    (erased.report.count .enumDecl = 0 →
      erased.code.Sublist code ∧
      Text.byteSize erased.code + erased.report.total ≤ Text.byteSize code) ∧
    (erased.report.total = 0 → erased.code = code) := by
  have hvisible := visible_eraseTypes h
  obtain ⟨e, hdeletes, rfl⟩ := exists_deletes_of_eraseTypes h
  refine ⟨fun hcount => ?_, fun htotal => hdeletes.whole (List.length_eq_zero_iff.mp htotal)⟩
  have hsublist := hdeletes.sublist (List.count_eq_zero.mp hcount)
  have hbytes := Text.byteSize_add_visible_le hsublist
  have hless := hvisible hcount
  dsimp only at hless
  refine ⟨hsublist, ?_⟩
  dsimp only
  omega

/-- A type is removed with the blank in front of it: one hit, more than one character. -/
theorem eraseTypes_deletes_annotation :
    let code := "let n : number = 1".toList
    let erased : Erased := ⟨"let n = 1".toList, ⟨[.variableType]⟩⟩
    eraseTypes code = .ok erased ∧ erased.code.Sublist code ∧
      Text.byteSize erased.code + erased.report.total ≤ Text.byteSize code := by
  have h : eraseTypes "let n : number = 1".toList
      = .ok ⟨"let n = 1".toList, ⟨[.variableType]⟩⟩ := by decide +kernel
  exact ⟨h, (eraseTypes_deletes h).1 (by decide)⟩

end LivePreview.Erasure
