/-
What comes of a draft, and what is recorded on the way.

A draft ends in one of four ways: it is blank, an enum in it overflows, its code does not parse
although the settings ask for that, or it is processed.  `Ends` lists them, and of a processed draft
it says what the records are put together from.  Each pass leaves its records behind those of the
passes before it, so everything about their order is one statement about `Diagnostic.stage`; and a
warning has one of four causes, each of which can be read off the result.
-/
import LivePreview.Proofs.Bundled
import LivePreview.Proofs.SecondRun

namespace LivePreview

/-! ### Records of one pass -/

/-- The place of a record among the records of a run. -/
def Diagnostic.stage (r : Diagnostic) : Nat :=
  match r.pass, r.level with
  | .fences, _ => 0
  | .files, _ => 1
  | .modules, _ => 2
  | .types, _ => 3
  | .verify, .warn => 4
  | .resolve, _ => 5
  | .verify, .info => 6
  | .page, _ | .lifecycle, _ => 7

namespace Diagnostics

variable {ds es : Diagnostics} {pass other : Pass}

/-- The warnings of one pass, in order. -/
def warningsOf (ds : Diagnostics) (pass : Pass) : Diagnostics :=
  ds.filter fun r => r.pass == pass && r.level == .warn

@[simp] theorem hasWarnings_append : hasWarnings (ds ++ es) = (hasWarnings ds || hasWarnings es) :=
  List.any_append

@[simp] theorem countOf_append : countOf (ds ++ es) pass = countOf ds pass + countOf es pass :=
  List.countP_append

@[simp] theorem warningsOf_append :
    warningsOf (ds ++ es) pass = warningsOf ds pass ++ warningsOf es pass :=
  List.filter_append ..

/-- All records are of one pass. -/
def AllOf (pass : Pass) (ds : Diagnostics) : Prop := ∀ r ∈ ds, r.pass = pass

theorem allOf_singleton (r : Diagnostic) : AllOf r.pass [r] := by
  intro s hs
  rw [List.mem_singleton.mp hs]

theorem AllOf.append (hds : AllOf pass ds) (hes : AllOf pass es) : AllOf pass (ds ++ es) := by
  intro r hr
  rcases List.mem_append.mp hr with hr | hr
  · exact hds r hr
  · exact hes r hr

theorem AllOf.countOf_eq (h : AllOf pass ds) (hne : pass ≠ other) : countOf ds other = 0 := by
  rw [countOf, List.countP_eq_zero]
  intro r hr
  rw [h r hr]
  simpa using hne

theorem AllOf.warningsOf_eq (h : AllOf pass ds) (other : Pass) (hne : pass ≠ other) :
    warningsOf ds other = [] := by
  rw [warningsOf, List.filter_eq_nil_iff]
  intro r hr
  rw [h r hr]
  simp [hne]

/-! ### The order of the records -/

/-- Records in the order of their stages, none of which is behind `last`. -/
structure StagedTo (last : Nat) (ds : Diagnostics) : Prop where
  ordered : ds.Pairwise fun r s => r.stage ≤ s.stage
  within : ∀ r ∈ ds, r.stage ≤ last

theorem stagedTo_nil (last : Nat) : StagedTo last [] := ⟨List.Pairwise.nil, nofun⟩

/-- The records of the next stage stand behind. -/
theorem StagedTo.append {last : Nat} (hds : StagedTo last ds) (es : Diagnostics) (next : Nat)
    (hes : ∀ r ∈ es, r.stage = next) (hle : last ≤ next) : StagedTo next (ds ++ es) := by
  have hstay : es.Pairwise fun r s => r.stage ≤ s.stage :=
    List.pairwise_of_forall_mem_list fun r hr s hs => (hes r hr).trans_le (hes s hs).ge
  refine ⟨List.pairwise_append.mpr ⟨hds.ordered, hstay, ?_⟩, ?_⟩
  · intro r hr s hs
    exact (hds.within r hr).trans (hle.trans (hes s hs).ge)
  · intro r hr
    rcases List.mem_append.mp hr with hr | hr
    · exact (hds.within r hr).trans hle
    · exact (hes r hr).le

end Diagnostics

open Diagnostics

/-! ### Records of the files -/

namespace SourceFile

variable {code : Text} {isMultiFile : Bool}

theorem pass_of_exclusion? {f : SourceFile} {r : Diagnostic} (h : exclusion? f = some r) :
    r.pass = .files ∧ r.level = .info := by
  obtain ⟨why, -, rfl⟩ := Option.map_eq_some_iff.mp h
  exact ⟨rfl, rfl⟩

theorem allOf_exclusions (files : List SourceFile) :
    AllOf .files (files.filterMap exclusion?) := by
  intro r hr
  obtain ⟨f, -, h⟩ := List.mem_filterMap.mp hr
  exact (pass_of_exclusion? h).1

theorem hasWarnings_exclusions (files : List SourceFile) :
    hasWarnings (files.filterMap exclusion?) = false := by
  rw [hasWarnings, List.any_eq_false]
  intro r hr
  obtain ⟨f, -, h⟩ := List.mem_filterMap.mp hr
  rw [(pass_of_exclusion? h).2]
  decide

theorem allOf_merge (code : Text) (isMultiFile : Bool) :
    AllOf .files (merge code isMultiFile).diagnostics := by
  unfold merge
  dsimp only
  split
  · exact nofun
  split
  · exact (allOf_exclusions _).append (allOf_singleton _)
  · exact (allOf_exclusions _).append (allOf_singleton _)

theorem isMultiFile_merge (code : Text) (isMultiFile : Bool) :
    (merge code isMultiFile).isMultiFile = isMultiFile := by
  unfold merge
  cases isMultiFile with
  | false => rfl
  | true =>
    simp only [Bool.not_true, Bool.false_eq_true, if_false]
    split <;> rfl

/-- **Putting files together is in doubt only where none is left.** -/
theorem hasWarnings_merge (code : Text) (isMultiFile : Bool) :
    hasWarnings (merge code isMultiFile).diagnostics = true ↔
      isMultiFile = true ∧ (merge code isMultiFile).files = [] := by
  unfold merge
  cases isMultiFile with
  | false => simp [hasWarnings]
  | true =>
    simp only [Bool.not_true, Bool.false_eq_true, if_false, true_and]
    split
    · rename_i hnone
      simp [hasWarnings, Diagnostic.warn]
    · rename_i hsome
      rw [hasWarnings_append, hasWarnings_exclusions]
      simpa [hasWarnings, Diagnostic.info] using hsome

end SourceFile

/-! ### Records of the other passes -/

namespace Processed

open SourceFile (merge)

theorem allOf_fenceRecords (n : Answer.Normalized) : AllOf .fences (fenceRecords n) := by
  unfold fenceRecords
  refine AllOf.append ?_ ?_
  · split
    · exact nofun
    · exact allOf_singleton _
  · split
    · exact nofun
    · exact allOf_singleton _

theorem hasWarnings_fenceRecords (n : Answer.Normalized) :
    hasWarnings (fenceRecords n) = false := by
  unfold fenceRecords
  rw [hasWarnings_append]
  split <;> split <;> rfl

/-- The records of the module statements that were taken out. -/
def moduleRecords (stripped : Module.Stripped) : Diagnostics :=
  importRecords stripped.imports ++ exportRecords stripped.defaultExports ++
    givenRecords stripped.defaultExports

theorem allOf_moduleRecords (stripped : Module.Stripped) :
    AllOf .modules (moduleRecords stripped) := by
  unfold moduleRecords importRecords givenRecords
  refine AllOf.append (AllOf.append ?_ ?_) ?_
  · split
    · exact nofun
    · exact allOf_singleton _
  · unfold exportRecords
    split
    · exact nofun
    · exact allOf_singleton _
    · exact allOf_singleton _
  · split
    · exact allOf_singleton _
    · exact nofun

theorem hasWarnings_moduleRecords (stripped : Module.Stripped) :
    hasWarnings (moduleRecords stripped) = false := by
  unfold moduleRecords importRecords givenRecords exportRecords
  rw [hasWarnings_append, hasWarnings_append]
  split <;> split <;> split <;> rfl

/-- The warning for a module statement that is left. -/
def survivorRecord (statement : Text) : Diagnostic :=
  .warn .verify ("module statement survived: ".toList ++ statement)

theorem warn_of_mem_verificationRecords {v : Verification} {r : Diagnostic}
    (h : r ∈ verificationRecords v) : r.pass = .verify ∧ r.level = .warn := by
  unfold verificationRecords at h
  rcases List.mem_append.mp h with h | h
  · obtain ⟨statement, -, rfl⟩ := List.mem_map.mp h
    exact ⟨rfl, rfl⟩
  · split at h
    · cases h
    · rw [List.mem_singleton.mp h]
      exact ⟨rfl, rfl⟩

theorem hasWarnings_verificationRecords (v : Verification) :
    hasWarnings (verificationRecords v) = true ↔ v.moduleStatements ≠ [] ∨ v.parsed = false := by
  obtain ⟨parsed, errors, statements, declarations⟩ := v
  cases statements <;> cases parsed <;>
    simp [verificationRecords, hasWarnings, Diagnostic.warn]

/-- Code parses if the parser gives a program, and else the errors are what it says. -/
theorem parsed_verify [Platform] (code : Text) :
    ((verify code).parsed = true ↔ ∃ program, Platform.parseScript code = .ok program) ∧
    ∀ messages, (verify code).parsed = false ∧ (verify code).parseErrors = messages ↔
      Platform.parseScript code = .error messages := by
  unfold verify
  cases Platform.parseScript code <;> simp

theorem not_parsed_verify [Platform] (code : Text) : (verify code).parsed = false ↔
    ∃ messages, Platform.parseScript code = .error messages := by
  unfold verify
  cases Platform.parseScript code <;> simp

/-- The warning for code that does not parse. -/
def parseRecords [Platform] (code : Text) : Diagnostics :=
  match Platform.parseScript code with
  | .ok _ => []
  | .error messages => [.warn .verify (Failure.unparsableNote messages)]

theorem verificationRecords_verify [Platform] (code : Text) : verificationRecords (verify code)
    = (verify code).moduleStatements.map survivorRecord ++ parseRecords code := by
  unfold verificationRecords parseRecords verify
  cases Platform.parseScript code <;> rfl

/-! ### Ways to end -/

variable {d : Draft} {options : Options} {p : Processed}

/-- The code that the passes leave of a draft, unless an enum overflows. -/
def codeOf? (d : Draft) : Option Text :=
  match Erasure.eraseTypes (Module.strip (mergedCode d.code)).code with
  | .ok erased => some (Answer.trimBlankLines erased.code)
  | .error _ => none

/-- What a draft was processed to, part by part. -/
structure PartsOf [Platform] (d : Draft) (p : Processed) : Prop where
  code : codeOf? d = some p.code
  isMultiFile : p.isMultiFile = (Answer.normalize d.code).isMultiFile
  files : p.files = (merge (Answer.normalize d.code).code (Answer.normalize d.code).isMultiFile).files
  verification : p.verification = verify p.code
  diagnostics : ∃ summary, p.diagnostics = fenceRecords (Answer.normalize d.code) ++
    (merge (Answer.normalize d.code).code (Answer.normalize d.code).isMultiFile).diagnostics ++
    moduleRecords (Module.strip (mergedCode d.code)) ++ [.info .types summary] ++
    verificationRecords p.verification ++ [componentRecord p.component, codeRecord p.code]

/-- The ways in which a draft can end. -/
inductive Ends [Platform] (d : Draft) (options : Options) : Except Failure Processed → Prop
  | blank (hblank : d.isBlank = true) : Ends d options (.error .emptyInput)
  | overflow (hblank : d.isBlank = false) (hcode : codeOf? d = none) :
      Ends d options (.error .enumOverflow)
  | refused {code : Text} (hblank : d.isBlank = false) (hcode : codeOf? d = some code)
      (hstrict : options.strictSyntaxCheck = true) (hparse : (verify code).parsed = false) :
      Ends d options (.error (.unparsable (verify code).parseErrors))
  | done {p : Processed} (hblank : d.isBlank = false) (hparts : PartsOf d p)
      (hparse : options.strictSyntaxCheck = true → (verify p.code).parsed = true) :
      Ends d options (.ok p)

/-- **Every draft ends in one of these ways.** -/
theorem ends_ofDraft [Platform]
    (d : Draft) (options : Options) : Ends d options (ofDraft d options) := by
  unfold ofDraft
  by_cases hblank : d.isBlank = true
  · rw [if_pos hblank]
    exact .blank hblank
  rw [if_neg hblank]
  have hblank : d.isBlank = false := by simpa using hblank
  cases herased : Erasure.eraseTypes (Module.strip (mergedCode d.code)).code with
  | error o =>
    have hcode : codeOf? d = none := by rw [codeOf?, herased]
    unfold mergedCode at herased
    simp only [herased]
    exact .overflow hblank hcode
  | ok erased =>
    have hcode : codeOf? d = some (Answer.trimBlankLines erased.code) := by rw [codeOf?, herased]
    unfold mergedCode at herased
    simp only [herased]
    by_cases hstrict : (options.strictSyntaxCheck &&
        !(verify (Answer.trimBlankLines erased.code)).parsed) = true
    · simp only [hstrict]
      rw [Bool.and_eq_true, Bool.not_eq_true'] at hstrict
      exact .refused hblank hcode hstrict.1 hstrict.2
    · simp only [hstrict]
      refine .done hblank ⟨hcode, SourceFile.isMultiFile_merge _ _, rfl, rfl, ?_⟩ ?_
      · refine ⟨erased.report.summary, ?_⟩
        simp only [moduleRecords, mergedCode, List.append_assoc]
      · intro hcheck
        simpa [hcheck] using hstrict

/-! ### What is recorded -/

/-- What the records of a processed draft say. -/
structure Reported [Platform] (d : Draft) (p : Processed) : Prop where
  code : codeOf? d = some p.code
  isMultiFile : p.isMultiFile = (Answer.normalize d.code).isMultiFile
  verification : p.verification = verify p.code
  /-- a warning has one of four causes -/
  doubts : p.diagnostics.hasWarnings = true ↔
    (p.isMultiFile = true ∧ p.files = []) ∨ p.verification.moduleStatements ≠ [] ∨
      (∃ messages, Platform.parseScript p.code = .error messages) ∨ p.component.source = .fallback
  types : p.diagnostics.countOf .types = 1
  resolve : p.diagnostics.countOf .resolve = 1
  /-- a warning for each module statement that is left, in order, and one with what the parser says
  of code that it does not accept -/
  survivors : p.diagnostics.warningsOf .verify =
    p.verification.moduleStatements.map survivorRecord ++ parseRecords p.code
  /-- fences, files, modules, types, doubts about the code, the component, the code -/
  ordered : p.diagnostics.Pairwise fun r s => r.stage ≤ s.stage

theorem PartsOf.doubts [Platform] (h : PartsOf d p) : p.diagnostics.hasWarnings = true ↔
    (p.isMultiFile = true ∧ p.files = []) ∨ p.verification.moduleStatements ≠ [] ∨
      (∃ messages, Platform.parseScript p.code = .error messages) ∨
        p.component.source = .fallback := by
  obtain ⟨summary, hrecords⟩ := h.diagnostics
  have hcomponent : hasWarnings [componentRecord p.component, codeRecord p.code] = true ↔
      p.component.source = .fallback := by
    unfold componentRecord
    split
    · rename_i hfallback
      exact iff_of_true rfl hfallback
    · rename_i hfound
      exact iff_of_false (by simp [hasWarnings, Diagnostic.info, codeRecord]) hfound
  have htypes : hasWarnings [.info .types summary] = false := rfl
  rw [hrecords, h.isMultiFile, h.files, ← not_parsed_verify, ← h.verification]
  simp only [hasWarnings_append, hasWarnings_fenceRecords, hasWarnings_moduleRecords, htypes,
    Bool.false_or, Bool.or_false, Bool.or_eq_true, SourceFile.hasWarnings_merge,
    hasWarnings_verificationRecords, hcomponent, or_assoc]

theorem allOf_verificationRecords (v : Verification) : AllOf .verify (verificationRecords v) :=
  fun _ hr => (warn_of_mem_verificationRecords hr).1

theorem pass_componentRecord (c : Component) : (componentRecord c).pass = .resolve := by
  unfold componentRecord
  split <;> rfl

theorem stage_componentRecord (c : Component) : (componentRecord c).stage = 5 := by
  unfold componentRecord
  split <;> rfl

/-- The types are recorded once, and so is the component. -/
theorem PartsOf.countOf_eq [Platform] (h : PartsOf d p) :
    p.diagnostics.countOf .types = 1 ∧ p.diagnostics.countOf .resolve = 1 := by
  obtain ⟨summary, hrecords⟩ := h.diagnostics
  have hlast : ∀ pass : Pass, countOf [componentRecord p.component, codeRecord p.code] pass
      = (if pass = .resolve then 1 else 0) + if pass = .verify then 1 else 0 := by
    intro pass
    have hcomponent := pass_componentRecord p.component
    have hcode : (codeRecord p.code).pass = .verify := rfl
    cases pass <;> simp [countOf, hcomponent, hcode]
  have hothers : ∀ pass : Pass, pass ≠ .fences → pass ≠ .files → pass ≠ .modules →
      pass ≠ .verify → countOf p.diagnostics pass
        = countOf [.info .types summary] pass + if pass = .resolve then 1 else 0 := by
    intro pass hfences hfiles hmodules hverify
    rw [hrecords]
    simp only [countOf_append, (allOf_fenceRecords _).countOf_eq hfences.symm,
      (SourceFile.allOf_merge _ _).countOf_eq hfiles.symm,
      (allOf_moduleRecords _).countOf_eq hmodules.symm,
      (allOf_verificationRecords _).countOf_eq hverify.symm, hlast, if_neg hverify, Nat.zero_add,
      Nat.add_zero]
  exact ⟨hothers .types nofun nofun nofun nofun, hothers .resolve nofun nofun nofun nofun⟩

/-- Each module statement that is left is warned of, in order, and then code that does not parse. -/
theorem PartsOf.survivors [Platform] (h : PartsOf d p) : p.diagnostics.warningsOf .verify =
    p.verification.moduleStatements.map survivorRecord ++ parseRecords p.code := by
  obtain ⟨summary, hrecords⟩ := h.diagnostics
  have hverify : warningsOf (verificationRecords p.verification) .verify
      = verificationRecords p.verification := by
    rw [warningsOf, List.filter_eq_self]
    intro r hr
    rw [(warn_of_mem_verificationRecords hr).1, (warn_of_mem_verificationRecords hr).2]
    rfl
  have hlast : warningsOf [componentRecord p.component, codeRecord p.code] .verify = [] := by
    have hcomponent := pass_componentRecord p.component
    have hcode : (codeRecord p.code).level = .info := rfl
    simp [warningsOf, hcomponent, hcode]
  have htypes : warningsOf [.info .types summary] .verify = [] := rfl
  rw [hrecords]
  simp only [warningsOf_append, (allOf_fenceRecords _).warningsOf_eq .verify nofun,
    (SourceFile.allOf_merge _ _).warningsOf_eq .verify nofun,
    (allOf_moduleRecords _).warningsOf_eq .verify nofun, htypes, hverify, hlast,
    List.nil_append, List.append_nil]
  rw [h.verification, verificationRecords_verify]

/-- The records come in the order of the passes. -/
theorem PartsOf.ordered [Platform] (h : PartsOf d p) :
    p.diagnostics.Pairwise fun r s => r.stage ≤ s.stage := by
  obtain ⟨summary, hrecords⟩ := h.diagnostics
  have hstage : ∀ {pass : Pass} {n : Nat} {ds : Diagnostics}, AllOf pass ds →
      (∀ r : Diagnostic, r.pass = pass → r.stage = n) → ∀ r ∈ ds, r.stage = n :=
    fun hds hpass r hr => hpass r (hds r hr)
  have hfences := (stagedTo_nil 0).append _ 0 (hstage
    (allOf_fenceRecords (Answer.normalize d.code)) fun r hr => by rw [Diagnostic.stage, hr])
    (by decide)
  have hfiles := hfences.append _ 1 (hstage (SourceFile.allOf_merge
    (Answer.normalize d.code).code (Answer.normalize d.code).isMultiFile) fun r hr => by
      rw [Diagnostic.stage, hr]) (by decide)
  have hmodules := hfiles.append _ 2 (hstage
    (allOf_moduleRecords (Module.strip (mergedCode d.code))) fun r hr => by
      rw [Diagnostic.stage, hr]) (by decide)
  have htypes := hmodules.append [.info .types summary] 3 (fun r hr => by
    rw [List.mem_singleton.mp hr]
    rfl) (by decide)
  have hverify := htypes.append (verificationRecords p.verification) 4
    (fun r hr => by
      obtain ⟨hpass, hlevel⟩ := warn_of_mem_verificationRecords hr
      rw [Diagnostic.stage, hpass, hlevel]) (by decide)
  have hcomponent := hverify.append [componentRecord p.component] 5
    (fun r hr => by rw [List.mem_singleton.mp hr, stage_componentRecord]) (by decide)
  have hcode := hcomponent.append [codeRecord p.code] 6 (fun r hr => by
    rw [List.mem_singleton.mp hr]
    rfl) (by decide)
  rw [hrecords]
  simpa using hcode.ordered

theorem PartsOf.reported [Platform] (h : PartsOf d p) : Reported d p :=
  ⟨h.code, h.isMultiFile, h.verification, h.doubts, h.countOf_eq.1, h.countOf_eq.2, h.survivors,
    h.ordered⟩

/-- **What comes of a draft, and what is recorded of it.**  A draft that is refused tells what the
parser says of its code, and so does the record of one that is not refused for that. -/
theorem ofDraft_outcome [Platform] (d : Draft) (options : Options) :
    (ofDraft d options = .error .emptyInput ↔ d.isBlank = true) ∧
    (ofDraft d options = .error .enumOverflow ↔ d.isBlank = false ∧ codeOf? d = none) ∧
    (∀ messages, ofDraft d options = .error (.unparsable messages) ↔ d.isBlank = false ∧
      options.strictSyntaxCheck = true ∧ ∃ code, codeOf? d = some code ∧
        Platform.parseScript code = .error messages) ∧
    ((∃ p, ofDraft d options = .ok p) ↔ d.isBlank = false ∧ ∃ code, codeOf? d = some code ∧
      (options.strictSyntaxCheck = true → ∃ program, Platform.parseScript code = .ok program)) ∧
    ∀ p, ofDraft d options = .ok p → Reported d p := by
  have hends := ends_ofDraft d options
  generalize ofDraft d options = outcome at hends ⊢
  cases hends with
  | blank hblank => simp [hblank]
  | overflow hblank hcode => simp [hblank, hcode]
  | @refused code hblank hcode hstrict hparse =>
    have hmessages := ((parsed_verify code).2 _).mp ⟨hparse, rfl⟩
    simp [hblank, hcode, hstrict, hmessages]
  | @done p hblank hparts hparse =>
    have hparse : options.strictSyntaxCheck = true →
        ∃ program, Platform.parseScript p.code = .ok program :=
      fun hstrict => (parsed_verify p.code).1.mp (hparse hstrict)
    refine ⟨?_, ?_, ?_, ?_, ?_⟩
    · simp [hblank]
    · simp [hparts.code]
    · intro messages
      refine iff_of_false nofun ?_
      rintro ⟨-, hstrict, code, hcode, hrefused⟩
      obtain ⟨program, hprogram⟩ := hparse hstrict
      rw [← Option.some.inj (hparts.code.symm.trans hcode), hprogram] at hrefused
      cases hrefused
    · exact iff_of_true ⟨p, rfl⟩ ⟨hblank, p.code, hparts.code, hparse⟩
    · rintro _ ⟨⟩
      exact hparts.reported

section

open scoped Bundled

/-- The second import on a line is left, which is recorded as a doubt. -/
theorem ofDraft_outcome_secondImport :
    let d : Draft := { code := "import a from 'a'; import b from 'b';\nlet c = 1;\n".toList }
    ∃ p, ofDraft d {} = .ok p ∧ Reported d p ∧ p.diagnostics.hasWarnings = true ∧
      p.diagnostics.warningsOf .verify = [survivorRecord "import b from 'b';".toList] := by
  intro d
  have hcode : codeOf? d = some "import b from 'b';\nlet c = 1;\n".toList := by decide +kernel
  obtain ⟨p, hp⟩ := (ofDraft_outcome d {}).2.2.2.1.mpr ⟨by decide, _, hcode, nofun⟩
  have hreported := (ofDraft_outcome d {}).2.2.2.2 p hp
  have hkept : p.code = "import b from 'b';\nlet c = 1;\n".toList :=
    Option.some.inj (hreported.code.symm.trans hcode)
  have hstatements : p.verification.moduleStatements = ["import b from 'b';".toList] := by
    rw [hreported.verification, hkept]
    decide +kernel
  have hparses : parseRecords p.code = [] := by
    rw [hkept]
    decide +kernel
  refine ⟨p, hp, hreported, hreported.doubts.mpr (Or.inr (Or.inl ?_)), ?_⟩
  · rw [hstatements]
    exact List.cons_ne_nil _ _
  · rw [hreported.survivors, hstatements, hparses]
    rfl

end

end Processed

end LivePreview
