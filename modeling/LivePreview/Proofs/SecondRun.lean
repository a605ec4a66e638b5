/-
Processing what processing has left.

The code that a draft comes to can be a draft itself.  It comes to itself if no pass finds anything
in it: no fence and no marker, no module statement, no type.  Such code is at rest.  Code that a
pass finds something in is not the code that it comes to, because what a pass finds it takes away: a
second import on a line, say, which becomes the first one when the first is gone.  Only what a pass
writes of its own could make up for the loss, so that is ruled out where it matters.
-/
import LivePreview.Bundled
import LivePreview.Processing
import LivePreview.Proofs.Answer.Plain
import LivePreview.Proofs.Erasure.Deletion
import LivePreview.Proofs.Module.Removal

namespace LivePreview

open Text (visible)

namespace Processed

variable {d d' : Draft} {options options' : Options} {P : Processed} {code s : Text}
  {erased : Erasure.Erased}

/-! ### One run -/

/-- The code of an answer in front of the passes for modules and types. -/
def mergedCode (raw : Text) : Text :=
  (SourceFile.merge (Answer.normalize raw).code (Answer.normalize raw).isMultiFile).code

theorem mergedCode_of_single (h : (Answer.normalize code).isMultiFile = false) :
    mergedCode code = (Answer.normalize code).code := by
  rw [mergedCode, h]
  rfl

/-- The code of a run is what the eraser leaves, without blank lines at its ends; its imports are
those that were taken out in front of the eraser. -/
theorem exists_erased_of_ofDraft [Platform] (h : ofDraft d options = .ok P) :
    ∃ erased, Erasure.eraseTypes (Module.strip (mergedCode d.code)).code = .ok erased ∧
      P.code = Answer.trimBlankLines erased.code ∧
      P.imports = (Module.strip (mergedCode d.code)).imports := by
  unfold ofDraft at h
  by_cases hblank : d.isBlank = true
  · rw [if_pos hblank] at h
    cases h
  rw [if_neg hblank] at h
  cases herased : Erasure.eraseTypes (Module.strip (mergedCode d.code)).code with
  | error o =>
    unfold mergedCode at herased
    simp only [herased] at h
    cases h
  | ok erased =>
    refine ⟨erased, rfl, ?_⟩
    unfold mergedCode at herased
    simp only [herased] at h
    by_cases hstrict : (options.strictSyntaxCheck &&
        !(verify (Answer.trimBlankLines erased.code)).parsed) = true
    · simp only [hstrict] at h
      cases h
    · simp only [hstrict] at h
      cases h
      exact ⟨rfl, rfl⟩

/-- A run that does not ask whether its code parses goes right, unless an enum overflows. -/
theorem exists_ofDraft [Platform]
    (hblank : d.isBlank = false) (hlenient : options.strictSyntaxCheck = false)
    (h : Erasure.eraseTypes (Module.strip (mergedCode d.code)).code = .ok erased) :
    ∃ Q, ofDraft d options = .ok Q ∧ Q.code = Answer.trimBlankLines erased.code := by
  unfold mergedCode at h
  unfold ofDraft
  simp only [hblank, h, hlenient]
  exact ⟨_, rfl, rfl⟩

/-! ### Code at rest -/

/-- Code in which no pass finds anything. -/
structure AtRest (code : Text) : Prop where
  plain : Answer.IsPlain code
  unstated : Module.HoldsNoStatement code
  untyped : ∃ erased, Erasure.eraseTypes code = .ok erased ∧ erased.report.total = 0

/-- A run on the code writes nothing of its own: no path of a file, no name for a default export
that has none, no object for an enum. -/
structure AddsNothing (code : Text) : Prop where
  paths : Answer.NamesNoFile code
  names : ∀ name ∈ (Module.strip (Answer.normalize code).code).defaultExports,
    ¬Module.LooksGiven name
  enums : ∀ erased, Erasure.eraseTypes (Module.strip (Answer.normalize code).code).code = .ok erased →
    erased.report.count .enumDecl = 0

theorem eraseTypes_of_total (h : Erasure.eraseTypes code = .ok erased)
    (htotal : erased.report.total = 0) : erased.code = code := by
  obtain ⟨e, hdeletes, rfl⟩ := Erasure.exists_deletes_of_eraseTypes h
  exact hdeletes.whole (List.length_eq_zero_iff.mp htotal)

/-- What a run does on code at rest. -/
theorem AtRest.run (h : AtRest (Answer.trimBlankLines s)) :
    (Answer.normalize (Answer.trimBlankLines s)).code = Answer.trimBlankLines s ∧
    mergedCode (Answer.trimBlankLines s) = Answer.trimBlankLines s ∧
    Module.strip (Answer.trimBlankLines s) = ⟨Answer.trimBlankLines s, [], []⟩ ∧
    ∃ erased, Erasure.eraseTypes (Answer.trimBlankLines s) = .ok erased ∧
      erased.report.total = 0 ∧ erased.code = Answer.trimBlankLines s := by
  obtain ⟨hcode, hsingle⟩ := Answer.normalize_of_isPlain h.plain
  obtain ⟨erased, herased, htotal⟩ := h.untyped
  exact ⟨hcode, (mergedCode_of_single hsingle).trans hcode,
    Module.strip_of_holdsNoStatement h.unstated, erased, herased, htotal,
    eraseTypes_of_total herased htotal⟩

theorem AtRest.addsNothing (h : AtRest (Answer.trimBlankLines s)) :
    AddsNothing (Answer.trimBlankLines s) := by
  obtain ⟨hcode, -, hstrip, erased, herased, htotal, -⟩ := h.run
  refine ⟨⟨?_, (Answer.normalize_of_isPlain h.plain).2⟩, ?_, ?_⟩
  · intro kept hkept
    rw [h.plain.newlines, h.plain.unfenced] at hkept
    cases hkept
  · rw [hcode, hstrip]
    exact fun _ => nofun
  · rw [hcode, hstrip]
    intro erased' herased'
    rw [herased] at herased'
    cases herased'
    rw [ErasureReport.count, List.length_eq_zero_iff.mp htotal]
    rfl

/-- Trimmed code that comes to itself, with nothing added, is at rest: each pass leaves as much to
be seen as there was. -/
theorem atRest_of_code_eq (hcode : code = Answer.trimBlankLines s) (hadds : AddsNothing code)
    (herased : Erasure.eraseTypes (Module.strip (mergedCode code)).code = .ok erased)
    (hsame : Answer.trimBlankLines erased.code = code) : AtRest code := by
  rw [mergedCode_of_single hadds.paths.single] at herased
  have hnormalize := Answer.visible_normalize_le hadds.paths
  have hstrip := Module.visible_strip_le hadds.names
  have herase := Erasure.visible_eraseTypes herased (hadds.enums erased herased)
  have htrim : visible code ≤ visible erased.code := by
    have hle : visible (Answer.trimBlankLines erased.code) ≤ visible erased.code :=
      Answer.countP_trimBlankLines_le rfl erased.code
    rwa [hsame] at hle
  have htotal : erased.report.total = 0 := by omega
  have hunstated := Module.holdsNoStatement_of_visible hadds.names (by omega)
  have hstripped : (Module.strip (Answer.normalize code).code).code = (Answer.normalize code).code :=
    congrArg Module.Stripped.code (Module.strip_of_holdsNoStatement hunstated)
  rw [hstripped] at herased
  have hkept := eraseTypes_of_total herased htotal
  have hreturns : code.count '\r' ≤ (Answer.normalize code).code.count '\r' := by
    have hle : (Answer.trimBlankLines erased.code).count '\r' ≤ erased.code.count '\r' :=
      Answer.countP_trimBlankLines_le (by decide) erased.code
    rwa [hsame, hkept] at hle
  have hplain : Answer.IsPlain code := by
    refine Answer.isPlain_of_visible hcode hadds.paths ?_ hreturns
    rwa [hkept] at htrim
  have hnormal : (Answer.normalize code).code = code := by
    rw [hcode] at hplain ⊢
    exact (Answer.normalize_of_isPlain hplain).1
  rw [hnormal] at hunstated herased
  exact ⟨hplain, hunstated, erased, herased, htotal⟩

/-- **Processing what processing has left.**  The code that a draft comes to comes to itself, with
nothing added, exactly if it is at rest. -/
theorem ofDraft_again [Platform]
    (h : ofDraft d options = .ok P) (hcode : Text.isBlankText P.code = false)
    (hagain : d'.code = P.code) (hlenient : options'.strictSyntaxCheck = false) :
    ((∃ Q, ofDraft d' options' = .ok Q ∧ Q.code = P.code) ∧ AddsNothing P.code) ↔
      AtRest P.code := by
  obtain ⟨first, -, htrimmed, -⟩ := exists_erased_of_ofDraft h
  constructor
  · rintro ⟨⟨Q, hQ, hsame⟩, hadds⟩
    obtain ⟨second, hsecond, htrim, -⟩ := exists_erased_of_ofDraft hQ
    rw [hagain] at hsecond
    exact atRest_of_code_eq htrimmed hadds hsecond (htrim.symm.trans hsame)
  · intro hrest
    have hblank : d'.isBlank = false := by rw [Draft.isBlank, hagain, hcode]
    rw [htrimmed] at hrest hagain ⊢
    obtain ⟨-, hmerged, hstrip, second, hsecond, -, hkept⟩ := hrest.run
    have hrun : Erasure.eraseTypes (Module.strip (mergedCode d'.code)).code = .ok second := by
      rw [hagain, hmerged, hstrip]
      exact hsecond
    obtain ⟨Q, hQ, hsame⟩ := exists_ofDraft hblank hlenient hrun
    refine ⟨⟨Q, hQ, ?_⟩, hrest.addsNothing⟩
    rw [hsame, hkept, Answer.trimBlankLines_idem hrest.plain.newlines]

section

open scoped Bundled

/-- A draft with a type in it comes to code at rest. -/
theorem ofDraft_again_annotation :
    let d : Draft := { code := "let n: number = 1".toList }
    ∃ P, ofDraft d {} = .ok P ∧ AtRest P.code ∧
      ∃ Q, ofDraft { code := P.code } {} = .ok Q ∧ Q.code = P.code := by
  intro d
  have hblank : d.isBlank = false := by decide
  have hlenient : Options.strictSyntaxCheck {} = false := rfl
  have herased : Erasure.eraseTypes (Module.strip (mergedCode d.code)).code
      = .ok ⟨"let n = 1\n".toList, ⟨[.variableType]⟩⟩ := by decide +kernel
  obtain ⟨P, hrun, hcode⟩ := exists_ofDraft hblank hlenient herased
  have hkept : P.code = "let n = 1\n".toList := hcode.trans (by decide +kernel)
  have hrest : AtRest P.code := by
    rw [hkept]
    refine ⟨⟨?_, ?_, ?_, ?_, ?_⟩, ?_, ⟨"let n = 1\n".toList, {}⟩, ?_, rfl⟩
    case refine_6 => exact Module.holdsNoStatement_of_linesAvoid (by decide)
    all_goals decide +kernel
  have hseen : Text.isBlankText P.code = false := by
    rw [hkept]
    decide
  exact ⟨P, hrun, hrest, ((ofDraft_again hrun hseen rfl hlenient).mpr hrest).1⟩

end

end Processed

end LivePreview
