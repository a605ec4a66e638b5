/-
One text from many files, and no way back.

The files that take part stand in three groups: files of types, then all others, then the root file,
each group in the order of the text they come from.  Each stands behind a comment with its path.
That comment looks like a marker, and it must not be one, whatever the path is: a marker has its
path, with a dot, behind its rule, and here the word `source` and a colon come first.  The lines of
a file are no markers either, since a marker would have ended the file.  So the text that is made is
one file without a name for every later reader.
-/
import LivePreview.Proofs.SourceFile.Segments
import LivePreview.SourceFile.Merge

namespace LivePreview.SourceFile

open Answer (markerBody? markerPath?)
open Text (fields isBlankText join lines trimBy unlines)

variable {f : SourceFile} {fs : List SourceFile} {path row code : Text} {body rows : List Text}
  {c : Char}

/-! ### The order of files -/

/-- Files of types, the others, and the root files among them, each group in the order of the
list. -/
def inGroups (fs : List SourceFile) : List SourceFile :=
  fs.filter isTypeFile ++ ((fs.filter fun f => !isTypeFile f && !isRootFile f) ++
    fs.filter fun f => !isTypeFile f && isRootFile f)

theorem order_eq (fs : List SourceFile) : order fs = inGroups fs := by
  have hranks : order fs = (fs.filter fun f => rank f == 0) ++
      ((fs.filter fun f => rank f == 1) ++ fs.filter fun f => rank f == 2) := by
    simp [order]
  rw [hranks, inGroups]
  congr 1
  · refine List.filter_congr fun f _ => ?_
    cases htype : isTypeFile f <;> cases hroot : isRootFile f <;> simp [rank, htype, hroot]
  · congr 1 <;> refine List.filter_congr fun f _ => ?_ <;>
      cases htype : isTypeFile f <;> cases hroot : isRootFile f <;> simp [rank, htype, hroot]

theorem inGroups_perm (fs : List SourceFile) : (inGroups fs).Perm fs := by
  have hgroup : ∀ group : SourceFile → Bool, fs.filter (fun f => !isTypeFile f && group f)
      = (fs.filter fun f => !isTypeFile f).filter group := by
    intro group
    rw [List.filter_filter]
    exact List.filter_congr fun f _ => Bool.and_comm _ _
  have hlater : ((fs.filter fun f => !isTypeFile f && !isRootFile f) ++
      fs.filter fun f => !isTypeFile f && isRootFile f).Perm (fs.filter fun f => !isTypeFile f) := by
    rw [hgroup, hgroup]
    exact List.perm_append_comm.trans (List.filter_append_perm isRootFile _)
  exact (hlater.append_left _).trans (List.filter_append_perm isTypeFile fs)

theorem inGroups_ne_nil (h : fs ≠ []) : inGroups fs ≠ [] :=
  fun hnil => h (List.perm_nil.mp (hnil ▸ (inGroups_perm fs).symm))

/-! ### Records of files that take no part -/

/-- The record says why the file takes no part. -/
def IsExclusion (f : SourceFile) (d : Diagnostic) : Prop :=
  ∃ why, rejection? f = some why ∧
    d = .info .files ("excluded ".toList ++ f.path ++ " (".toList ++ why.reason ++ ")".toList)

/-- Each file that takes no part has one record, and no other file has any. -/
theorem forall₂_exclusions (fs : List SourceFile) :
    List.Forall₂ IsExclusion (fs.filter fun f => (rejection? f).isSome)
      (fs.filterMap exclusion?) := by
  induction fs with
  | nil => exact .nil
  | cons f fs ih =>
    cases hwhy : rejection? f with
    | none =>
      have hrecord : exclusion? f = none := by rw [exclusion?, hwhy]; rfl
      rw [List.filter_cons_of_neg (by simp [hwhy]), List.filterMap_cons_none hrecord]
      exact ih
    | some why =>
      have hrecord : exclusion? f = some (.info .files
          ("excluded ".toList ++ f.path ++ " (".toList ++ why.reason ++ ")".toList)) := by
        rw [exclusion?, hwhy]
        rfl
      rw [List.filter_cons_of_pos (by simp [hwhy]), List.filterMap_cons_some hrecord]
      exact .cons ⟨why, hwhy, rfl⟩ ih

/-- Leaving files out is nothing to warn of. -/
theorem countP_warn_exclusions {ds : List Diagnostic} (h : List.Forall₂ IsExclusion fs ds) :
    ds.countP (fun d => d.level == .warn) = 0 := by
  induction h with
  | nil => rfl
  | cons hd _ ih =>
    obtain ⟨why, -, rfl⟩ := hd
    exact ih

/-! ### The lines of a file -/

/-- What is read of a text is in files whose names are paths or stand for the part in front, and
whose lines are lines of the text and no markers. -/
theorem mem_segments (h : f ∈ segments path body rows) :
    (f.path = path ∨ ∃ row, markerPath? row = some f.path) ∧
      ∃ own, f.content = unlines own ∧
        ∀ row ∈ own, row ∈ body ∨ row ∈ rows ∧ markerPath? row = none := by
  have hown : ∀ (body rows : List Text) (row : Text), row ∈ body.reverse →
      row ∈ body ∨ row ∈ rows ∧ markerPath? row = none := fun body rows row hrow =>
    Or.inl (List.mem_reverse.mp hrow)
  induction rows generalizing path body with
  | nil =>
    obtain rfl := List.mem_singleton.mp h
    exact ⟨Or.inl rfl, body.reverse, rfl, hown body []⟩
  | cons first rows ih =>
    rw [segments] at h
    split at h
    · rename_i next hnext
      obtain rfl | h := List.mem_cons.mp h
      · exact ⟨Or.inl rfl, body.reverse, rfl, hown body _⟩
      · obtain ⟨hpath, own, hcontent, hrows⟩ := ih h
        refine ⟨Or.inr (hpath.elim (fun heq => ⟨first, by rw [heq, hnext]⟩) id), own, hcontent, ?_⟩
        intro row hrow
        obtain hbody | ⟨hmem, hnone⟩ := hrows row hrow
        · cases hbody
        · exact Or.inr ⟨List.mem_cons_of_mem first hmem, hnone⟩
    · rename_i hfirst
      obtain ⟨hpath, own, hcontent, hrows⟩ := ih h
      refine ⟨hpath, own, hcontent, fun row hrow => ?_⟩
      obtain hbody | ⟨hmem, hnone⟩ := hrows row hrow
      · obtain rfl | hbody := List.mem_cons.mp hbody
        · exact Or.inr ⟨List.mem_cons_self, hfirst⟩
        · exact Or.inl hbody
      · exact Or.inr ⟨List.mem_cons_of_mem first hmem, hnone⟩

/-- A line that a text of many files can have in one of them: no marker, and neither a line end nor
a carriage return in it. -/
structure IsPlainRow (row : Text) : Prop where
  unmarked : markerPath? row = none
  oneLine : '\n' ∉ row
  noReturn : '\r' ∉ row

theorem isPlainRow_nil : IsPlainRow [] := ⟨rfl, List.not_mem_nil, List.not_mem_nil⟩

/-- The lines of the files of a text. -/
theorem isPlainRow_of_mem_split (hcode : '\r' ∉ code) (hf : f ∈ split code) :
    ∀ row ∈ fields '\n' f.content, IsPlainRow row := by
  have hmem := List.mem_of_mem_filter ((lastOfEach_sublist _).subset hf)
  obtain ⟨-, own, hcontent, hrows⟩ := mem_segments hmem
  have hplain : ∀ row ∈ own, IsPlainRow row := by
    intro row hrow
    obtain hbody | ⟨hline, hnone⟩ := hrows row hrow
    · cases hbody
    · have hsublist := List.sublist_flatten_of_mem hline
      have htext := hsublist.trans (Text.flatten_lines_sublist code)
      exact ⟨hnone, Text.not_mem_of_mem_lines hline, fun hreturn => hcode (htext.subset hreturn)⟩
  have hfields : fields '\n' f.content = own ++ [[]] := by
    have happend := Text.fields_unlines_append (fun row hrow => (hplain row hrow).oneLine) []
    rwa [List.append_nil, ← hcontent] at happend
  intro row hrow
  rw [hfields] at hrow
  obtain hrow | hrow := List.mem_append.mp hrow
  · exact hplain row hrow
  · rw [List.mem_singleton.mp hrow]
    exact isPlainRow_nil

theorem not_mem_path_of_mem_split (hf : f ∈ split code) (hc : Answer.isPathChar c = false)
    (hpreamble : c ∉ preamblePath) : c ∉ f.path := by
  have hmem := List.mem_of_mem_filter ((lastOfEach_sublist _).subset hf)
  obtain ⟨hpath | ⟨row, hrow⟩, -⟩ := mem_segments hmem
  · rwa [hpath]
  · exact Answer.not_mem_of_markerPath? hrow hc

/-! ### The comment in front of a file -/

/-- Behind the rule of the comment, or a piece of it, there is no path. -/
theorem exists_run_of_behindRule {t : Text}
    (h : Answer.BehindRule ("----- source: ".toList ++ path) t) :
    ∃ run d rest, t = run ++ d :: rest ∧ '.' ∉ run ∧ Answer.isPathChar d = false ∧
      ∀ u, Answer.afterLabel? Answer.markerLabels t ≠ some u := by
  have hsource : ∀ dashes : Text, dashes <:+ "-----".toList →
      ∃ run d rest, Text.skipInline (dashes ++ (" source: ".toList ++ path)) = run ++ d :: rest ∧
        '.' ∉ run ∧ Answer.isPathChar d = false ∧
        ∀ u, Answer.afterLabel? Answer.markerLabels
          (Text.skipInline (dashes ++ (" source: ".toList ++ path))) ≠ some u := by
    intro dashes hdashes
    cases dashes with
    | nil =>
      refine ⟨"source".toList, ':', ' ' :: path, rfl, by decide, rfl, fun u hu => ?_⟩
      have hnone : Answer.afterLabel? Answer.markerLabels ("source: ".toList ++ path) = none := rfl
      cases hnone.symm.trans hu
    | cons c dashes =>
      obtain rfl : c = '-' := by
        have hmem := hdashes.subset List.mem_cons_self
        simpa using hmem
      have hdot : '.' ∉ '-' :: dashes := fun hmem => absurd (hdashes.subset hmem) (by decide)
      refine ⟨'-' :: dashes, ' ', "source: ".toList ++ path, rfl, hdot, rfl, fun u hu => ?_⟩
      have hnone : ∀ s : Text, Answer.afterLabel? Answer.markerLabels ('-' :: s) = none := fun _ => rfl
      cases (hnone _).symm.trans hu
  obtain rfl | ⟨rule, rest, hrule, htext, rfl⟩ := h
  · exact hsource "-----".toList List.suffix_rfl
  · have htext : "-----".toList ++ (" source: ".toList ++ path) = rule ++ rest := htext
    obtain ⟨more, rfl, hmore⟩ | ⟨dashes, hdashes, rfl⟩ := List.append_eq_append_iff.mp htext
    · -- the rule ends where the blank stands
      cases more with
      | nil =>
        rw [List.nil_append] at hmore
        rw [← hmore]
        exact hsource [] (List.nil_suffix)
      | cons c more =>
        obtain rfl := (List.cons.inj hmore).1
        exact absurd (hrule ' ' (List.mem_append_right _ List.mem_cons_self)) (by decide)
    · exact hsource dashes ⟨rule, hdashes.symm⟩

/-- **The comment in front of a file is no marker, whatever its path is.** -/
theorem markerPath?_boundary (path : Text) : markerPath? (boundary path) = none := by
  rw [Option.eq_none_iff_forall_not_mem]
  intro found hfound
  have hbody : markerBody? (' ' :: ("----- source: ".toList ++ (path ++ " -----".toList)))
      = some found := by
    have htext : boundary path
        = '/' :: '/' :: ' ' :: ("----- source: ".toList ++ (path ++ " -----".toList)) :=
      List.append_assoc "// ----- source: ".toList path " -----".toList
    rw [htext] at hfound
    exact hfound
  obtain ⟨t, u, hrule, hlabel, hpath⟩ := Answer.exists_of_markerBody? hbody
  obtain ⟨run, d, rest, htext, hrun, hd, hnolabel⟩ := exists_run_of_behindRule hrule
  obtain hlabel | rfl := hlabel
  · exact hnolabel u hlabel
  · rw [htext, Answer.readPath_eq_none hrun hd] at hpath
    cases hpath

/-! ### The text that is made -/

/-- The lines that a file comes to, its comment first. -/
def blockRows (f : SourceFile) : List Text :=
  boundary f.path :: fields '\n' (trimBy (· == '\n') f.content)

theorem block_eq (f : SourceFile) : block f = unlines (blockRows f) := by
  rw [blockRows, Text.unlines_cons, Text.unlines_fields, block]
  simp only [List.append_assoc, List.cons_append, List.nil_append]

/-- The lines of all files, with an empty line between neighbours. -/
def mergedRows : List SourceFile → List Text
  | [] => []
  | f :: fs => blockRows f ++ (fs.map blockRows).flatMap ([] :: ·)

theorem join_block (hne : fs ≠ []) : join ['\n'] (fs.map block) = unlines (mergedRows fs) := by
  cases fs with
  | nil => exact absurd rfl hne
  | cons f fs =>
    rw [mergedRows, ← Text.join_unlines, ← List.map_cons, List.map_map]
    exact congrArg (join ['\n']) (List.map_congr_left fun g _ => block_eq g)

/-- What is made where some files take part. -/
theorem merge_of_accepted (h : ((split code).filter fun f => (rejection? f).isNone) = fs)
    (hne : fs ≠ []) :
    merge code true = {
      code := join ['\n'] ((inGroups fs).map block)
      isMultiFile := true
      files := (inGroups fs).map SourceFile.path
      diagnostics := (split code).filterMap exclusion? ++ [.info .files ("merged ".toList ++
        Text.ofNat fs.length ++ " files: ".toList ++
        join ", ".toList ((inGroups fs).map SourceFile.path))] } := by
  have hkept : (inGroups fs).isEmpty = false := List.isEmpty_eq_false_iff.mpr (inGroups_ne_nil hne)
  have hlength : ((inGroups fs).map SourceFile.path).length = fs.length := by
    rw [List.length_map, (inGroups_perm fs).length_eq]
  unfold merge
  dsimp only
  rw [h, order_eq, hkept, hlength]
  rfl

/-- The text comes back where no file takes part. -/
theorem merge_of_rejected (h : ((split code).filter fun f => (rejection? f).isNone) = []) :
    merge code true = {
      code := code
      isMultiFile := true
      files := []
      diagnostics := (split code).filterMap exclusion? ++ [.warn .files
        "no file passed the inclusion predicate, treating input as a single file".toList] } := by
  unfold merge
  dsimp only
  rw [h]
  rfl

theorem mem_mergedRows (h : row ∈ mergedRows fs) : row = [] ∨ ∃ f ∈ fs, row ∈ blockRows f := by
  cases fs with
  | nil => cases h
  | cons f fs =>
    obtain h | h := List.mem_append.mp h
    · exact Or.inr ⟨f, List.mem_cons_self, h⟩
    · obtain ⟨later, hlater, hrow⟩ := List.mem_flatMap.mp h
      obtain ⟨g, hg, rfl⟩ := List.mem_map.mp hlater
      obtain rfl | hrow := List.mem_cons.mp hrow
      · exact Or.inl rfl
      · exact Or.inr ⟨g, List.mem_cons_of_mem f hg, hrow⟩

theorem isPlainRow_boundary (hf : f ∈ split code) : IsPlainRow (boundary f.path) := by
  have hmem : ∀ c, c ∉ "// ----- source: ".toList → c ∉ f.path → c ∉ " -----".toList →
      c ∉ boundary f.path := by
    intro c hfront hpath hback
    show c ∉ "// ----- source: ".toList ++ f.path ++ " -----".toList
    simp only [List.mem_append, not_or]
    exact ⟨⟨hfront, hpath⟩, hback⟩
  have hpath : ∀ c, Answer.isPathChar c = false → c ∉ preamblePath → c ∉ f.path :=
    fun c => not_mem_path_of_mem_split hf
  refine ⟨markerPath?_boundary f.path, ?_, ?_⟩
  · exact hmem '\n' (by decide) (hpath '\n' rfl (by decide)) (by decide)
  · exact hmem '\r' (by decide) (hpath '\r' rfl (by decide)) (by decide)

/-- No line of the text that is made of files is a marker. -/
theorem isPlainRow_mergedRows (hcode : '\r' ∉ code) (hfs : ∀ f ∈ fs, f ∈ split code) :
    ∀ row ∈ mergedRows fs, IsPlainRow row := by
  intro row hrow
  obtain rfl | ⟨f, hf, hrow⟩ := mem_mergedRows hrow
  · exact isPlainRow_nil
  · obtain rfl | hrow := List.mem_cons.mp hrow
    · exact isPlainRow_boundary (hfs f hf)
    · exact isPlainRow_of_mem_split hcode (hfs f hf) row (Text.mem_fields_trimBy hrow)

/-- Lines that are no markers are one file without a name. -/
theorem split_unlines (h : ∀ row ∈ rows, IsPlainRow row) (hblank : isBlankText (unlines rows) = false) :
    lines (unlines rows) = rows ∧ split (unlines rows) = [⟨preamblePath, unlines rows⟩] := by
  have hlines : lines (unlines rows) = rows := by
    refine Text.lines_unlines (fun row hrow => (h row hrow).oneLine) fun row hrow hlast => ?_
    exact (h row hrow).noReturn (List.mem_of_getLast? hlast)
  refine ⟨hlines, ?_⟩
  rw [split, hlines, segments_of_unmarked fun row hrow => (h row hrow).unmarked,
    List.filter_cons_of_pos (by simp [hblank])]
  rfl

theorem isBlankText_mergedRows (hne : fs ≠ []) : isBlankText (unlines (mergedRows fs)) = false := by
  cases fs with
  | nil => exact absurd rfl hne
  | cons f fs => rfl

/-- **Merging orders the files and loses none, and what it makes is not taken apart again.** -/
theorem merge_split (code : Text) (hcode : '\r' ∉ code) :
    let accepted := (split code).filter fun f => (rejection? f).isNone
    let rejected := (split code).filter fun f => (rejection? f).isSome
    let merged := merge code true
    ∃ excluded, List.Forall₂ IsExclusion rejected excluded ∧
      (accepted ≠ [] →
        merged = {
          code := join ['\n'] ((inGroups accepted).map fun f =>
            boundary f.path ++ '\n' :: trimBy (· == '\n') f.content ++ ['\n'])
          isMultiFile := true
          files := (inGroups accepted).map SourceFile.path
          diagnostics := excluded ++ [.info .files ("merged ".toList ++
            Text.ofNat accepted.length ++ " files: ".toList ++
            join ", ".toList ((inGroups accepted).map SourceFile.path))] } ∧
        (inGroups accepted).Perm accepted ∧
        (∀ row ∈ lines merged.code, markerPath? row = none) ∧
        split merged.code = [⟨preamblePath, merged.code⟩]) ∧
      (accepted = [] →
        merged = {
          code := code
          isMultiFile := true
          files := []
          diagnostics := excluded ++ [.warn .files
            "no file passed the inclusion predicate, treating input as a single file".toList] } ∧
        merged.diagnostics.countP (fun d => d.level == .warn) = 1) := by
  intro accepted rejected merged
  have hrecords := forall₂_exclusions (split code)
  refine ⟨_, hrecords, fun hne => ?_, fun hnone => ?_⟩
  · have hgroups : inGroups accepted ≠ [] := inGroups_ne_nil hne
    have hmerged := merge_of_accepted (rfl : _ = accepted) hne
    have hblock : (fun f : SourceFile => boundary f.path ++ '\n' :: trimBy (· == '\n') f.content ++
        ['\n']) = block := by
      funext f
      simp only [block, List.append_assoc, List.cons_append, List.nil_append]
    have hrows : ∀ row ∈ mergedRows (inGroups accepted), IsPlainRow row :=
      isPlainRow_mergedRows hcode fun f hf =>
        List.mem_of_mem_filter ((inGroups_perm accepted).mem_iff.mp hf)
    obtain ⟨hlines, hsplit⟩ := split_unlines hrows (isBlankText_mergedRows hgroups)
    have hcodeEq : merged.code = unlines (mergedRows (inGroups accepted)) := by
      rw [← join_block hgroups]
      exact congrArg Merged.code hmerged
    refine ⟨?_, inGroups_perm accepted, ?_, ?_⟩
    · rw [hblock]
      exact hmerged
    · rw [hcodeEq, hlines]
      exact fun row hrow => (hrows row hrow).unmarked
    · rw [hcodeEq, hsplit]
  · have hmerged := merge_of_rejected hnone
    refine ⟨hmerged, ?_⟩
    show (merge code true).diagnostics.countP _ = 1
    rw [hmerged, List.countP_append, countP_warn_exclusions hrecords]
    rfl

/-- The types come first and the root file last, the style sheet is left out, and the comments in
front of the files are no markers. -/
theorem merge_split_root :
    let code := ("// App.tsx\nconst App = 1;\n// a.css\nb\n// types.ts\nenum T {}\n" ++
      "// u.ts\nlet u = 1;\n").toList
    '\r' ∉ code ∧
      (merge code true).files = ["types.ts".toList, "u.ts".toList, "App.tsx".toList] ∧
      split (merge code true).code = [⟨preamblePath, (merge code true).code⟩] := by
  intro code
  have hcode : '\r' ∉ code := by decide
  obtain ⟨excluded, -, haccepted, -⟩ := merge_split code hcode
  obtain ⟨hmerged, -, -, hsplit⟩ := haccepted (by decide +kernel)
  refine ⟨hcode, ?_, hsplit⟩
  rw [hmerged]
  dsimp only
  decide +kernel

end LivePreview.SourceFile
