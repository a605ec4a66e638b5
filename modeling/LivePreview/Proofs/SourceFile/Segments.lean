/-
A text of many files, taken apart again.

Such a text is a part in front of all markers and then segments, each a marker and the lines of one
file.  Two facts are needed to get the files back.

  * Reading line by line, each segment ends where the next marker stands, and the last one with the
    text.  So the files come out as they went in, if no line of them is a marker itself.
  * Of the files with one path, the last one is kept, and it stays where it stands.

The part in front is not mistaken for a file with a marker, since its name is no path.
-/
import LivePreview.Proofs.Answer.MarkerPath
import LivePreview.Proofs.Text.Lines
import LivePreview.SourceFile.Split

namespace LivePreview.SourceFile

open Answer (markerLine markerPath?)
open Text (isBlankText lines unlines)

variable {f : SourceFile} {fs : List SourceFile}

/-! ### The last file of each path -/

/-- No file behind this place of the list has the path of the file that stands here. -/
def IsLast (fs : List SourceFile) (i : Fin fs.length) : Prop :=
  ∀ j : Fin fs.length, i < j → fs[j].path ≠ fs[i].path

instance (fs : List SourceFile) : DecidablePred (IsLast fs) := fun i =>
  inferInstanceAs (Decidable (∀ j : Fin fs.length, i < j → fs[j].path ≠ fs[i].path))

/-- The files that are the last of their path, in the order of these places. -/
def lastPlaces (fs : List SourceFile) : List SourceFile :=
  ((List.finRange fs.length).filter (IsLast fs ·)).map fun i => fs[i]

theorem isLast_zero : IsLast (f :: fs) 0 ↔ ∀ g ∈ fs, g.path ≠ f.path := by
  constructor
  · intro h g hg
    obtain ⟨j, hj, rfl⟩ := List.mem_iff_getElem.mp hg
    exact h (Fin.succ ⟨j, hj⟩) (Fin.succ_pos _)
  · intro h j hj
    obtain ⟨i, rfl⟩ := Fin.exists_succ_eq.mpr (Fin.pos_iff_ne_zero.mp hj)
    exact h _ (List.getElem_mem i.isLt)

theorem isLast_succ {i : Fin fs.length} : IsLast (f :: fs) i.succ ↔ IsLast fs i := by
  constructor
  · intro h j hj
    exact h j.succ (Fin.succ_lt_succ_iff.mpr hj)
  · intro h j hj
    obtain ⟨k, rfl⟩ := Fin.exists_succ_eq.mpr (Fin.pos_iff_ne_zero.mp ((Fin.succ_pos i).trans hj))
    exact h k (Fin.succ_lt_succ_iff.mp hj)

theorem lastPlaces_cons (f : SourceFile) (fs : List SourceFile) :
    lastPlaces (f :: fs)
      = if ∀ g ∈ fs, g.path ≠ f.path then f :: lastPlaces fs else lastPlaces fs := by
  have hlater : ((List.finRange fs.length).map Fin.succ).filter (IsLast (f :: fs) ·)
      = ((List.finRange fs.length).filter (IsLast fs ·)).map Fin.succ := by
    rw [List.filter_map]
    simp only [Function.comp_def, isLast_succ]
  have hrange : List.finRange (f :: fs).length = 0 :: (List.finRange fs.length).map Fin.succ :=
    List.finRange_succ
  rw [lastPlaces, hrange, List.filter_cons, hlater]
  simp only [isLast_zero, decide_eq_true_eq]
  split
  · rw [List.map_cons, List.map_map]
    rfl
  · rw [List.map_map]
    rfl

/-- **Of each path the last file is kept, where it stands.** -/
theorem lastOfEach_eq (fs : List SourceFile) : lastOfEach fs = lastPlaces fs := by
  induction fs with
  | nil => rfl
  | cons f fs ih =>
    rw [lastOfEach, lastPlaces_cons, ih]
    by_cases hlast : ∀ g ∈ fs, g.path ≠ f.path
    · rw [if_pos hlast, if_neg (by simpa using hlast)]
    · rw [if_neg hlast, if_pos (by simpa using hlast)]

theorem lastOfEach_sublist (fs : List SourceFile) : (lastOfEach fs).Sublist fs := by
  induction fs with
  | nil => exact List.Sublist.refl []
  | cons f fs ih =>
    rw [lastOfEach]
    split
    · exact ih.cons f
    · exact ih.cons_cons f

theorem nodup_lastOfEach (fs : List SourceFile) :
    ((lastOfEach fs).map SourceFile.path).Nodup := by
  induction fs with
  | nil => exact List.nodup_nil
  | cons f fs ih =>
    rw [lastOfEach]
    split
    · exact ih
    · rename_i hlast
      rw [List.map_cons, List.nodup_cons]
      refine ⟨fun hmem => hlast ?_, ih⟩
      obtain ⟨g, hg, hpath⟩ := List.mem_map.mp hmem
      exact List.any_eq_true.mpr ⟨g, (lastOfEach_sublist fs).subset hg, beq_iff_eq.mpr hpath⟩

/-- Where the paths are distinct, every file is the last of its path. -/
theorem lastOfEach_of_nodup (h : (fs.map SourceFile.path).Nodup) : lastOfEach fs = fs := by
  induction fs with
  | nil => rfl
  | cons f fs ih =>
    rw [List.map_cons, List.nodup_cons] at h
    have hlast : ¬(fs.any fun g => g.path == f.path) = true := by
      intro hany
      obtain ⟨g, hg, hpath⟩ := List.any_eq_true.mp hany
      exact h.1 (List.mem_map.mpr ⟨g, hg, beq_iff_eq.mp hpath⟩)
    rw [lastOfEach, if_neg hlast, ih h.2]

/-! ### Segments -/

/-- Lines that no marker is among. -/
structure Content where
  rows : List Text
  oneLine : ∀ row ∈ rows, '\n' ∉ row
  noReturn : ∀ row ∈ rows, row.getLast? ≠ some '\r'
  unmarked : ∀ row ∈ rows, markerPath? row = none

/-- The text of lines, each ended by a newline. -/
def Content.text (c : Content) : Text := unlines c.rows

/-- A marker and the lines behind it.  The marker is read as it is written. -/
structure Segment where
  path : Text
  content : Content
  readBack : markerPath? (markerLine path) = some path

namespace Segment

/-- The lines of a segment, the marker first. -/
def rows (s : Segment) : List Text := markerLine s.path :: s.content.rows

/-- The text of a segment. -/
def text (s : Segment) : Text := markerLine s.path ++ '\n' :: s.content.text

/-- The file that a segment is. -/
def file (s : Segment) : SourceFile := ⟨s.path, s.content.text⟩

theorem not_mem_markerLine (s : Segment) {d : Char} (hd : Answer.isPathChar d = false)
    (hword : d ∉ "// ".toList) : d ∉ markerLine s.path := by
  rw [markerLine, List.mem_append, not_or]
  exact ⟨hword, Answer.not_mem_of_markerPath? s.readBack hd⟩

theorem oneLine (s : Segment) : ∀ row ∈ s.rows, '\n' ∉ row :=
  List.forall_mem_cons.mpr ⟨s.not_mem_markerLine rfl (by decide), s.content.oneLine⟩

theorem noReturn (s : Segment) : ∀ row ∈ s.rows, row.getLast? ≠ some '\r' := by
  refine List.forall_mem_cons.mpr ⟨fun hlast => ?_, s.content.noReturn⟩
  exact s.not_mem_markerLine rfl (by decide) (List.mem_of_getLast? hlast)

theorem path_ne_preamblePath (s : Segment) : s.path ≠ preamblePath := by
  intro h
  have hparen : '(' ∉ s.path := Answer.not_mem_of_markerPath? s.readBack rfl
  rw [h] at hparen
  exact hparen (by decide)

end Segment

/-- A part in front of all markers, and segments behind it. -/
def assembled (preamble : Content) (segments : List Segment) : Text :=
  preamble.text ++ segments.flatMap Segment.text

theorem assembled_eq (preamble : Content) (segments : List Segment) :
    assembled preamble segments = unlines (preamble.rows ++ segments.flatMap Segment.rows) := by
  have hsegments : segments.flatMap Segment.text = unlines (segments.flatMap Segment.rows) := by
    induction segments with
    | nil => rfl
    | cons s segments ih =>
      rw [List.flatMap_cons, List.flatMap_cons, Text.unlines_append, ih, Segment.rows,
        Text.unlines_cons]
      rfl
  rw [assembled, hsegments, Text.unlines_append]
  rfl

theorem lines_assembled (preamble : Content) (segments : List Segment) :
    lines (assembled preamble segments) = preamble.rows ++ segments.flatMap Segment.rows := by
  rw [assembled_eq]
  refine Text.lines_unlines (fun row hrow => ?_) (fun row hrow => ?_)
  · obtain hrow | hrow := List.mem_append.mp hrow
    · exact preamble.oneLine row hrow
    · obtain ⟨s, -, hs⟩ := List.mem_flatMap.mp hrow
      exact s.oneLine row hs
  · obtain hrow | hrow := List.mem_append.mp hrow
    · exact preamble.noReturn row hrow
    · obtain ⟨s, -, hs⟩ := List.mem_flatMap.mp hrow
      exact s.noReturn row hs

/-! ### Reading line by line -/

section

variable {path : Text} {body rows later : List Text}

/-- Lines that are no markers belong to the file that is open. -/
theorem segments_append (h : ∀ row ∈ rows, markerPath? row = none) :
    segments path body (rows ++ later) = segments path (rows.reverse ++ body) later := by
  induction rows generalizing body with
  | nil => rfl
  | cons row rows ih =>
    obtain ⟨hrow, hrows⟩ := List.forall_mem_cons.mp h
    rw [List.cons_append, segments, hrow]
    dsimp only
    rw [ih hrows, List.reverse_cons, List.append_assoc]
    rfl

/-- Lines without a marker are one file. -/
theorem segments_of_unmarked (h : ∀ row ∈ rows, markerPath? row = none) :
    segments path [] rows = [⟨path, unlines rows⟩] := by
  have happend : segments path [] (rows ++ []) = segments path (rows.reverse ++ []) [] :=
    segments_append h
  rw [List.append_nil, List.append_nil] at happend
  rw [happend, segments, List.reverse_reverse]

theorem segments_rows (path : Text) (content : Content) (ss : List Segment) :
    segments path [] (content.rows ++ ss.flatMap Segment.rows)
      = ⟨path, content.text⟩ :: ss.map Segment.file := by
  -- the marker of each segment closes the file in front of it
  induction ss generalizing path content with
  | nil =>
    rw [List.flatMap_nil, List.append_nil]
    exact segments_of_unmarked content.unmarked
  | cons s ss ih =>
    rw [segments_append content.unmarked, List.flatMap_cons, Segment.rows, List.cons_append,
      segments, s.readBack]
    dsimp only
    rw [ih, List.append_nil, List.reverse_reverse]
    rfl

end

/-- **A text of many files is taken apart into the files it was put together from.**  The part in
front of all markers comes first, unless it is blank; behind it come the files that are the last of
their path, in the order of these places and with the content they had.  So no path comes twice, and
no file is left out, put together with another or moved exactly if their paths are distinct. -/
theorem split_assembled (preamble : Content) (segments : List Segment) :
    let files := segments.map Segment.file
    let front : List SourceFile :=
      if isBlankText preamble.text then [] else [⟨preamblePath, preamble.text⟩]
    split (assembled preamble segments) = front ++ lastPlaces files ∧
      ((split (assembled preamble segments)).map SourceFile.path).Nodup ∧
      (split (assembled preamble segments) = front ++ files ↔
        (segments.map Segment.path).Nodup) := by
  intro files front
  have hfiles : ∀ f ∈ files, f.path ≠ preamblePath := by
    intro f hf
    obtain ⟨s, -, rfl⟩ := List.mem_map.mp hf
    exact s.path_ne_preamblePath
  have hkept : files.filter (fun f => f.path != preamblePath || !isBlankText f.content) = files := by
    refine List.filter_eq_self.mpr fun f hf => ?_
    rw [bne_iff_ne.mpr (hfiles f hf), Bool.true_or]
  have hsplit : split (assembled preamble segments) = lastOfEach (front ++ files) := by
    rw [split, lines_assembled, segments_rows, List.filter_cons, hkept]
    by_cases hblank : isBlankText preamble.text = true
    · simp [front, files, hblank]
    · simp [front, files, hblank]
  have hfront : lastOfEach (front ++ files) = front ++ lastOfEach files := by
    by_cases hblank : isBlankText preamble.text = true
    · simp [front, hblank]
    · have hany : ¬(files.any fun g => g.path == preamblePath) = true := by
        intro hany
        obtain ⟨g, hg, hpath⟩ := List.any_eq_true.mp hany
        exact hfiles g hg (beq_iff_eq.mp hpath)
      simp only [front, hblank, Bool.false_eq_true, if_false, List.singleton_append, lastOfEach, hany]
  have hpaths : files.map SourceFile.path = segments.map Segment.path := by
    rw [List.map_map]
    rfl
  refine ⟨by rw [hsplit, hfront, lastOfEach_eq], ?_, ?_⟩
  · rw [hsplit]
    exact nodup_lastOfEach _
  · rw [hsplit, hfront, List.append_cancel_left_eq, ← hpaths]
    constructor
    · intro h
      rw [← h]
      exact nodup_lastOfEach files
    · exact lastOfEach_of_nodup

/-- A path that comes twice stands where it comes last. -/
example : (split "let a = 1;\n// A.tsx\nold\n// B.ts\nb\n// A.tsx\nnew\n".toList).map SourceFile.path
    = ["(preamble)".toList, "B.ts".toList, "A.tsx".toList] := by
  decide +kernel

end LivePreview.SourceFile
