/-
Programs that are laid out as the readers expect.

Where each statement is one that its reader takes, and those at the start of a line come in the
order of the passes, the pass for a form takes every statement of this form, and all that is left of
a line starts with statements for later passes.  Behind the last pass no statement is left.
-/
import LivePreview.Bundled
import LivePreview.Proofs.Module.LayoutLeft

namespace LivePreview.Module.Layout

open Script
open Text (LineEnds linesAvoid)

/-! ### Statements that wait for a pass -/

/-- A line as the readers expect it, no statement of which was for one of the first `n` passes. -/
def Line.ReadFrom (n : Nat) (l : Line) : Prop :=
  l.isRead ∧ ∀ h ∈ l.heads, n ≤ h.statement.form.rank

theorem Form.rank_inj {f g : Form} (h : f.rank = g.rank) : f = g := by
  cases f <;> cases g <;> first | rfl | cases h

namespace Line

variable {l : Line} {h : Head} {hs : List Head} {f : Form} {n : Nat}

/-- What stands behind the first statement waits for later passes than this one does. -/
theorem readFrom_tail (hread : l.isRead) (hheads : l.heads = h :: hs) :
    l.tail.ReadFrom (h.statement.form.rank + 1) := by
  obtain ⟨hall, hsorted, hclear⟩ := hread
  rw [hheads] at hall hsorted
  rw [List.map_cons, List.pairwise_cons] at hsorted
  have htail : l.tail.heads = hs := by
    show l.heads.tail = hs
    rw [hheads, List.tail_cons]
  refine ⟨⟨?_, ?_, hclear⟩, ?_⟩
  · intro g hg
    rw [htail] at hg
    exact hall g (List.mem_cons_of_mem h hg)
  · rw [htail]
    exact hsorted.2
  · intro g hg
    rw [htail] at hg
    exact hsorted.1 _ (List.mem_map_of_mem hg)

/-- The pass for a form leaves statements for later passes only. -/
theorem readFrom_passBy (hread : l.ReadFrom f.rank) :
    ((l.passBy fun w => w.form = f && w.isRead).getD l.tail).ReadFrom (f.rank + 1) := by
  obtain ⟨hread, hrank⟩ := hread
  unfold passBy
  split
  · rename_i hheads
    refine ⟨hread, ?_⟩
    intro g hg
    rw [Option.getD_some, hheads] at hg
    cases hg
  · rename_i first hs hheads
    have hfirst : first ∈ l.heads := by
      rw [hheads]
      exact List.mem_cons_self
    by_cases hform : first.statement.form = f
    · rw [if_pos (by simp [hform, hread.1 first hfirst])]
      have htail := readFrom_tail hread hheads
      rw [hform] at htail
      split
      · exact htail
      · exact htail
    · rw [if_neg (by simp [hform])]
      refine ⟨hread, ?_⟩
      have hne : f.rank ≠ first.statement.form.rank := fun h => hform (Form.rank_inj h).symm
      have hlt : f.rank < first.statement.form.rank := lt_of_le_of_ne (hrank first hfirst) hne
      intro g hg
      rw [Option.getD_some, hheads] at hg
      rcases List.mem_cons.mp hg with rfl | hlater
      · exact hlt
      · have hsorted := hread.2.1
        rw [hheads, List.map_cons, List.pairwise_cons] at hsorted
        exact hlt.trans (hsorted.1 _ (List.mem_map_of_mem hlater))

/-- Behind the last pass no statement waits. -/
theorem heads_eq_nil (hread : l.ReadFrom (Form.exportAll.rank + 1)) : l.heads = [] := by
  refine List.eq_nil_iff_forall_not_mem.mpr ?_
  intro g hg
  have hrank := hread.2 g hg
  have hlast : g.statement.form.rank ≤ Form.exportAll.rank := by
    cases g.statement.form <;> decide
  omega

end Line

/-- A program as the readers expect it, no statement of which was for one of the first `n`
passes. -/
def Program.ReadFrom (n : Nat) (p : Program) : Prop := ∀ l ∈ p.lines, l.ReadFrom n

theorem Program.readFrom_pass {p : Program} {f : Form} (hread : p.ReadFrom f.rank) :
    (p.pass f).ReadFrom (f.rank + 1) := by
  intro l hl
  rcases List.mem_append.mp hl with hclosed | hlast
  · obtain ⟨l', hl', hpass⟩ := List.mem_filterMap.mp hclosed
    have hline := Line.readFrom_passBy (hread l' (List.mem_append_left _ hl'))
    rw [hpass, Option.getD_some] at hline
    exact hline
  · rw [List.mem_singleton.mp hlast]
    exact Line.readFrom_passBy (hread p.last (List.mem_append_right _ List.mem_cons_self))

/-! ### Lines of which nothing is left -/

theorem looksLikeStatement_inline {b : Text} (h : b.all isInline = true) (s : Text) :
    looksLikeStatement (b ++ s) = looksLikeStatement s := by
  have hskip : Text.skipInline (b ++ s) = Text.skipInline s :=
    List.dropWhile_append_of_pos (List.all_eq_true.mp h)
  rw [looksLikeStatement, looksLikeStatement, afterImport?, afterImport?, hskip]

theorem remainingStatements_eq_nil {s : Text} : remainingStatements s = [] ↔
    looksLikeStatement s = false ∧ ∀ line ∈ Text.laterLines s, looksLikeStatement line = false := by
  have hfirst : looksLikeStatement (Text.firstLine s) = looksLikeStatement s := by
    rw [← looksLikeStatement_append (Text.lineEnds_skipLine s), Text.firstLine_append_skipLine]
  rw [remainingStatements_eq, Text.fields_eq, List.map_eq_nil_iff, List.filter_eq_nil_iff,
    List.forall_mem_cons, hfirst]
  simp only [Bool.not_eq_true]

/-- An indentation adds no statement. -/
theorem remainingStatements_indented {b s : Text} (hb : b.all isInline = true)
    (hs : remainingStatements s = []) : remainingStatements (b ++ s) = [] := by
  have hnewline : '\n' ∉ b := by
    intro hmem
    exact absurd (List.all_eq_true.mp hb _ hmem) (by decide)
  rw [remainingStatements_eq_nil, looksLikeStatement_inline hb, Text.laterLines_append hnewline]
  exact remainingStatements_eq_nil.mp hs

/-- Nothing is left of a line that starts with no statement and goes on with none. -/
theorem Line.left_eq_nil {l : Line} (hheads : l.heads = []) (hclear : l.last.isClear = true) :
    l.left = [] := by
  have htext : l.text = l.indent ++ l.last.text := by
    rw [text, hheads]
    rfl
  have hindented : remainingStatements l.last.text = [] → remainingStatements l.text = [] := by
    intro hlast
    rw [htext]
    exact remainingStatements_indented l.inline hlast
  rw [left, hheads]
  cases hlast : l.last with
  | ended carriageReturn =>
    refine hindented ?_
    rw [hlast]
    cases carriageReturn <;> rfl
  | plain text avoids notFrom =>
    refine hindented ?_
    rw [hlast] at hclear ⊢
    exact List.isEmpty_iff.mp hclear
  | front statement =>
    rw [hlast, Rest.isClear, Bool.and_eq_true, List.isEmpty_iff] at hclear
    show (if statement.isRead = true then statement.left else _) = []
    rw [if_pos hclear.1]
    exact hclear.2

/-- **Nothing is left of a program that is laid out as the readers expect.** -/
theorem Program.left_eq_nil {p : Program} (hread : ∀ l ∈ p.lines, l.isRead) : p.left = [] := by
  have hstart : p.ReadFrom Form.importFrom.rank := fun l hl => ⟨hread l hl, fun _ _ => Nat.zero_le _⟩
  have hend : ((((p.pass .importFrom).pass .importSource).pass .exportList).pass
      .exportAll).ReadFrom (Form.exportAll.rank + 1) :=
    readFrom_pass (readFrom_pass (readFrom_pass (readFrom_pass hstart)))
  refine List.flatMap_eq_nil_iff.mpr ?_
  intro l hl
  exact Line.left_eq_nil (Line.heads_eq_nil (hend l hl)) (hend l hl).1.2.2

/-! ### What verification reports -/

theorem moduleStatements_verify [Platform] (code : Text) :
    (verify code).moduleStatements = remainingStatements code := by
  unfold verify
  split <;> rfl

/-- **Verification of stripped code reports what is left of the program**, and nothing where each
statement is laid out as its reader expects and the statements of a line come in the order of the
passes. -/
theorem moduleStatements_strip [Platform] (p : Program) :
    (verify (strip p.text).code).moduleStatements = p.left ∧
      ((∀ l ∈ p.lines, l.isRead) → p.left = []) := by
  rw [moduleStatements_verify, remainingStatements_strip]
  exact ⟨rfl, fun hread => p.left_eq_nil hread⟩

/-- What a reader knows between `import` and `from`. -/
def Binding.ofClause (text : Text) (h : text.all isClauseChar = true) : Binding where
  text := text
  odd := by
    intro u d t htext _ hd
    have hmem : d ∈ text := by
      rw [htext]
      exact List.mem_append_right u List.mem_cons_self
    rw [List.all_eq_true.mp h d hmem] at hd
    cases hd

/-- A statement that imports from `react`. -/
def reactImport (binding : Binding) : Head where
  statement := .importFrom binding ⟨[], nofun⟩ ⟨'"', "react".toList, '"', rfl, by decide +kernel, rfl⟩
  before := []
  semicolon := true
  behind := []
  inlineBefore := List.all_nil
  inlineBehind := List.all_nil

/-- A program of this statement. -/
def reactProgram (binding : Binding)
    (havoids : linesAvoid opensModule false (headsText [reactImport binding] ++ []) = true) :
    Program where
  closed := [⟨[], [reactImport binding], .ended false, List.all_nil, havoids, fun _ _ => rfl⟩]
  last := ⟨[], [], .ended false, List.all_nil, rfl, nofun⟩

section

open scoped Bundled

/-- Without blanks around its braces an import stays, and with them it does not. -/
theorem moduleStatements_reactImport :
    (verify (strip "import{useState}from\"react\";\n".toList).code).moduleStatements
        = ["import{useState}from\"react\";".toList] ∧
      (verify (strip "import {useState} from\"react\";\n".toList).code).moduleStatements = [] := by
  have hnarrow := moduleStatements_strip
    (reactProgram (.ofClause "{useState}".toList (by decide +kernel)) (by decide +kernel))
  have hwide := moduleStatements_strip
    (reactProgram (.ofClause " {useState} ".toList (by decide +kernel)) (by decide +kernel))
  constructor
  · exact hnarrow.1.trans (by decide +kernel)
  · refine hwide.1.trans (hwide.2 ?_)
    intro l hl
    rcases List.mem_cons.mp hl with rfl | hlast
    · exact ⟨by decide +kernel, by decide +kernel, rfl⟩
    · rw [List.mem_singleton.mp hlast]
      exact ⟨nofun, List.Pairwise.nil, rfl⟩

end

end LivePreview.Module.Layout
