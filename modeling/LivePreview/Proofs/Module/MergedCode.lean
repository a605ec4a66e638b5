/-
Code from many files.

Files are put together with a comment in front of each and an empty line between neighbours.  If
each of them is code, so is the result, and its default exports are those of the files in turn.
-/
import LivePreview.Proofs.Module.DefaultExports
import LivePreview.SourceFile.Merge

namespace LivePreview

namespace Module

open Text (linesAvoid)

/-! ### Code behind code -/

namespace Code

/-- An empty line. -/
def blank : Statement := .plain ⟨[], rfl, rfl⟩

/-- Code with more code on the next line. -/
def append (c d : Code) : Code := ⟨c.closed ++ c.last.getD blank :: d.closed, d.last⟩

theorem closedText_append (ss : List Statement) (s t : Text) :
    closedText ss (s ++ t) = closedText ss s ++ t := by
  induction ss with
  | nil => rfl
  | cons u ss ih =>
    show u.text ++ '\n' :: closedText ss (s ++ t) = u.text ++ '\n' :: closedText ss s ++ t
    rw [ih, List.append_assoc]
    rfl

theorem text_append (c d : Code) : (c.append d).text = c.text ++ '\n' :: d.text := by
  have hlast : (c.last.getD blank).text = lastText c.last := by
    cases c.last <;> rfl
  have hsplit : (c.append d).text
      = closedText c.closed ((c.last.getD blank).text ++ '\n' :: d.text) := List.foldr_append
  rw [hsplit, hlast, closedText_append]
  rfl

theorem defaultExports_append (c d : Code) :
    (c.append d).defaultExports = c.defaultExports ++ d.defaultExports := by
  have hlast : (c.last.getD blank).defaultExports
      = c.last.toList.flatMap Statement.defaultExports := by
    cases c.last with
    | none => rfl
    | some s => exact (List.append_nil _).symm
  simp only [defaultExports, statements, append, List.append_assoc, List.flatMap_append,
    List.cons_append, List.flatMap_cons, hlast]

end Code

/-! ### Files -/

/-- A file that is code between empty lines. -/
structure CodeFile where
  file : SourceFile
  code : Code
  oneLine : '\n' ∉ file.path
  content : Text.trimBy (· == '\n') file.content = code.text

namespace CodeFile

/-- The comment in front of a file. -/
def boundary (f : CodeFile) : PlainLines where
  text := SourceFile.boundary f.file.path
  avoids := by
    have hline : '\n' ∉ SourceFile.boundary f.file.path := by
      show '\n' ∉ "// ----- source: ".toList ++ f.file.path ++ " -----".toList
      simp only [List.mem_append, not_or]
      exact ⟨⟨by decide, f.oneLine⟩, by decide⟩
    exact Text.linesAvoid_of_false rfl (Text.linesAvoid_of_noNewline hline)
  notFrom := rfl

/-- The code that a file comes to behind its comment. -/
def block (f : CodeFile) : Code :=
  Code.append ⟨[], some (.plain f.boundary)⟩ (f.code.append ⟨[], none⟩)

theorem text_block (f : CodeFile) : f.block.text = SourceFile.block f.file := by
  rw [block, Code.text_append, Code.text_append, ← f.content, SourceFile.block]
  show SourceFile.boundary f.file.path ++ '\n' :: (Text.trimBy (· == '\n') f.file.content ++ ['\n'])
    = _
  simp only [List.append_assoc, List.cons_append, List.nil_append]

theorem defaultExports_block (f : CodeFile) : f.block.defaultExports = f.code.defaultExports := by
  rw [block, Code.defaultExports_append, Code.defaultExports_append]
  exact List.append_nil _

/-- The code of all files. -/
def merged : List CodeFile → Code
  | [] => ⟨[], none⟩
  | [f] => f.block
  | f :: g :: files => f.block.append (merged (g :: files))

theorem text_merged (files : List CodeFile) :
    (merged files).text = Text.join ['\n'] ((files.map file).map SourceFile.block) := by
  induction files with
  | nil => rfl
  | cons f files ih =>
    cases files with
    | nil => simp [merged, text_block, Text.join]
    | cons g files =>
      rw [merged, Code.text_append, ih, text_block]
      simp [Text.join, List.intercalate]

theorem defaultExports_merged (files : List CodeFile) :
    (merged files).defaultExports = files.flatMap fun f => f.code.defaultExports := by
  induction files with
  | nil => rfl
  | cons f files ih =>
    cases files with
    | nil => simp [merged, defaultExports_block]
    | cons g files =>
      rw [merged, Code.defaultExports_append, ih, defaultExports_block]
      rfl

end CodeFile

end Module

namespace SourceFile

/-- The files of an answer that take part, in the order in which they are put together. -/
def retained (answer : Text) : List SourceFile :=
  order ((split answer).filter fun f => (rejection? f).isNone)

/-- Where the files that take part are code, so is the text that they make. -/
theorem code_merge {answer : Text} {files : List Module.CodeFile} (hne : files ≠ [])
    (hfiles : retained answer = files.map Module.CodeFile.file) :
    (merge answer true).code = (Module.CodeFile.merged files).text := by
  have hkept : (retained answer).isEmpty = false := by
    rw [hfiles]
    simpa using hne
  rw [Module.CodeFile.text_merged, ← hfiles]
  show (if (retained answer).isEmpty = true then _ else _ : Merged).code = _
  rw [if_neg (by simp [hkept])]
  rfl

end SourceFile

end LivePreview
