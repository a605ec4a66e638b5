/-
What is left of a program.

Behind the passes that take statements out, each line is a row: it waits for a pass that takes first
words, or no such pass changes it.  So what is shown of the code in the end is what is left of each
line, and that is nothing where every statement is laid out as its reader expects and the statements
of a line come in the order of the passes.
-/
import LivePreview.Proofs.Module.LayoutPasses
import LivePreview.Proofs.Module.LayoutFirstWords
import LivePreview.Verification

namespace LivePreview.Module.Layout

open Script
open Text (LineEnds linesAvoid)

variable {P : Text → List Text → Prop} {indent s t : Text}

/-! ### Statements that no pass for first words finds -/

/-- Where the words in front are not read, no pass for first words changes a row. -/
theorem settled_of_unread (hdefault : ∀ e, LineEnds e → afterExportDefault? (s ++ e) = none)
    (hexported : ∀ e, LineEnds e → exportedDeclaration? (s ++ e) = none)
    (havoids : linesAvoid opensModule false s = true) : Settled s where
  declaration e he := by
    rw [defaultDeclaration?, hdefault e he]
    rfl
  expression e he := by
    rw [defaultExpression?, hdefault e he]
    rfl
  exported := hexported
  avoids := havoids

/-- A statement that is taken out as a whole has no first words. -/
theorem Whole.afterExport_eq_none (h : indent.all isInline = true) (w : Whole) (s : Text) :
    afterExportDefault? (indent ++ (w.text ++ s)) = none ∧
      exportedDeclaration? (indent ++ (w.text ++ s)) = none := by
  have himport : ∀ s, afterExport? s = none →
      afterExportDefault? s = none ∧ exportedDeclaration? s = none := by
    intro s hs
    rw [afterExportDefault?, exportedDeclaration?, hs]
    exact ⟨rfl, rfl⟩
  cases w with
  | importFrom b g source =>
    refine himport _ ?_
    rw [text_importFrom]
    exact afterExport?_import h
  | importSource g source =>
    refine himport _ ?_
    rw [text_importSource]
    exact afterExport?_import h
  | exportList g list source inBraces =>
    have hcomes := comesTo_exportList h g list source inBraces s
    exact ⟨afterExportDefault?_of_comesTo hcomes (by decide),
      exportedDeclaration?_of_comesTo hcomes (Or.inl rfl)⟩
  | exportAll g renamed behind source =>
    have hcomes := comesTo_exportAll h g renamed behind source s
    exact ⟨afterExportDefault?_of_comesTo hcomes (by decide),
      exportedDeclaration?_of_comesTo hcomes (Or.inr rfl)⟩

theorem declarationWords_default (s : Text) :
    afterDeclarationWords? (skipWord "declare".toList ("default".toList ++ s)) = none := by
  have heq := afterDeclarationWords?_eq (t := "default".toList ++ s) rfl rfl rfl
  refine heq.trans (List.findSome?_eq_none_iff.mpr ?_)
  simp only [declarationWords, List.map_cons, List.map_nil, List.forall_mem_cons]
  exact ⟨rfl, rfl, rfl, rfl, rfl, rfl, rfl, rfl, rfl, rfl, List.forall_mem_nil _⟩

/-- Behind `async` and a comment no declaration is read. -/
theorem declarationWords_async (g : Gap) (hg : g.isWide = false) (s : Text) :
    afterDeclarationWords? (skipWord "declare".toList
      ("async".toList ++ (g.text ++ ("function".toList ++ s)))) = none := by
  have hskip : skipWord "declare".toList ("async".toList ++ (g.text ++ ("function".toList ++ s)))
      = "async".toList ++ (g.text ++ ("function".toList ++ s)) := rfl
  have hphrase : ((Text.after? "async".toList ("async".toList ++
      (g.text ++ ("function".toList ++ s)))).bind Text.spaces?).bind
        (Text.afterWord? "function".toList) = none := by
    rw [Text.after?_append_self, Option.bind_some]
    obtain ⟨hwide, -⟩ | ⟨-, hodd⟩ := g.spaces?_append (s := "unction".toList ++ s)
      (by decide : isSpace 'f' = false)
    · rw [hg] at hwide
      cases hwide
    · have hspaces : ∀ r ∈ Text.spaces? (g.text ++ ("function".toList ++ s)),
          Text.afterWord? "function".toList r = none := by
        intro r hr
        obtain ⟨d, t, hd, rfl⟩ := hodd r hr
        have hne : 'f' ≠ d := by
          rcases isOdd_cases hd with rfl | rfl <;> decide
        have hword : Text.after? "function".toList (d :: t) = none := if_neg hne
        rw [Text.afterWord?, hword]
      cases hr : Text.spaces? (g.text ++ ("function".toList ++ s)) with
      | none => rfl
      | some r => exact hspaces r hr
  have hwords : (declarationWords.findSome? fun v => Text.afterWord? v
      ("async".toList ++ (g.text ++ ("function".toList ++ s)))) = none := by
    refine List.findSome?_eq_none_iff.mpr ?_
    simp only [declarationWords, List.map_cons, List.map_nil, List.forall_mem_cons]
    exact ⟨rfl, rfl, rfl, rfl, rfl, rfl, rfl, rfl, rfl, rfl, List.forall_mem_nil _⟩
  have habstract : Text.after? "abstract".toList
      ("async".toList ++ (g.text ++ ("function".toList ++ s))) = none := rfl
  rw [hskip, afterDeclarationWords?, hwords]
  simp only [habstract, Option.bind_eq_bind, Option.bind_none, Option.or_none]
  exact hphrase

/-- A statement whose first words are not laid out as expected is not read. -/
theorem Front.afterExport_eq_none (h : indent.all isInline = true) (f : Front)
    (hread : f.isRead = false) (s : Text) : afterExportDefault? (indent ++ (f.text ++ s)) = none ∧
      exportedDeclaration? (indent ++ (f.text ++ s)) = none := by
  cases f with
  | default gap blanks value blank =>
    rw [Front.text_default]
    obtain ⟨hwide, hstart⟩ | ⟨-, hodd⟩ := start_export
      (s := "efault".toList ++ (blanks ++ (value.text ++ s))) h gap (by decide : isSpace 'd' = false)
    · have hblanks : blanks = [] := by
        rw [Front.isRead, hwide, Bool.true_and, Bool.not_eq_false', List.isEmpty_iff] at hread
        exact hread
      have hstart : (afterExport? (indent ++ ("export".toList ++ (gap.text ++
          ("default".toList ++ (blanks ++ (value.text ++ s))))))).bind Text.spaces?
            = some ("default".toList ++ (blanks ++ (value.text ++ s))) := hstart
      have hspaces : Text.spaces? (blanks ++ (value.text ++ s)) = none := by
        rw [hblanks]
        exact (value.spaces?_text s).2
      rw [afterExportDefault?, exportedDeclaration?, hstart]
      simp only [Option.bind_eq_bind, Option.bind_some, Text.after?_append_self, hspaces,
        declarationWords_default, Option.bind_none]
      exact ⟨trivial, trivial⟩
    · exact ⟨afterExportDefault?_of_comesTo (c := '{') (comesTo_of_startsOdd hodd) (by decide),
        exportedDeclaration?_of_comesTo (c := '{') (comesTo_of_startsOdd hodd) (Or.inl rfl)⟩
  | declaration gap opening tail ends =>
    refine ⟨afterExportDefault?_declaration h s, ?_⟩
    obtain ⟨c, w, hopening, hc⟩ : ∃ c w, opening.text = c :: w ∧ isSpace c = false := by
      cases opening <;> exact ⟨_, _, rfl, by decide⟩
    rw [Front.text_declaration hopening]
    obtain ⟨hwide, hstart⟩ | ⟨-, hodd⟩ := start_export (s := w ++ (tail ++ s)) h gap hc
    · rw [Front.isRead, hwide, Bool.true_and] at hread
      have hwords : afterDeclarationWords? (skipWord "declare".toList (c :: (w ++ (tail ++ s))))
          = none := by
        have hcons : c :: (w ++ (tail ++ s)) = opening.text ++ (tail ++ s) := by
          rw [hopening, List.cons_append]
        rw [hcons]
        cases opening with
        | async g =>
          have hasync : (Opening.async g).text ++ (tail ++ s)
              = "async".toList ++ (g.text ++ ("function".toList ++ (tail ++ s))) := by
            show "async".toList ++ (g.text ++ "function".toList) ++ (tail ++ s) = _
            rw [List.append_assoc, List.append_assoc]
          rw [hasync]
          exact declarationWords_async g hread _
        | _ => cases hread
      rw [exportedDeclaration?, hstart]
      simp only [Option.bind_eq_bind, Option.bind_some, hwords, Option.bind_none]
    · exact exportedDeclaration?_of_comesTo (c := '{') (comesTo_of_startsOdd hodd) (Or.inl rfl)

/-! ### Lines -/

/-- Behind the passes that take statements out, a line is a row of which is shown what is left. -/
theorem Line.row (l : Line) : Row (Waits fun _ => True) l.text l.left := by
  have hplain : l.heads = [] → (∀ f, l.last ≠ .front f) →
      Row (Waits fun _ => True) l.text (remainingStatements l.text) := fun hheads hlast =>
    .settled (settled_of_opensModule (l.opensModule_text hheads hlast) l.avoids) rfl
  cases hheads : l.heads with
  | cons h hs =>
    have htext : ∃ s, ∀ e, l.text ++ e = l.indent ++ (h.statement.text ++ (s ++ e)) := by
      refine ⟨h.ending ++ l.tail.text, fun e => ?_⟩
      rw [l.text_of_cons hheads, Head.text]
      simp only [List.append_assoc]
    obtain ⟨s, htext⟩ := htext
    have hleft : l.left = remainingStatements l.text := by
      rw [left, hheads]
    rw [hleft]
    refine .settled (settled_of_unread ?_ ?_ l.avoids) rfl
    · intro e _
      rw [htext]
      exact (h.statement.afterExport_eq_none l.inline _).1
    · intro e _
      rw [htext]
      exact (h.statement.afterExport_eq_none l.inline _).2
  | nil =>
    cases hlast : l.last with
    | ended carriageReturn =>
      have hleft : l.left = remainingStatements l.text := by rw [left, hheads, hlast]
      rw [hleft]
      exact hplain hheads fun f hf => Rest.noConfusion (hlast.symm.trans hf)
    | plain text avoids notFrom =>
      have hleft : l.left = remainingStatements l.text := by rw [left, hheads, hlast]
      rw [hleft]
      exact hplain hheads fun f hf => Rest.noConfusion (hlast.symm.trans hf)
    | front f =>
      have htext : l.text = l.indent ++ f.text := by
        rw [text, hheads, hlast]
        rfl
      have hleft : l.left = if f.isRead then f.left else remainingStatements l.text := by
        rw [left, hheads, hlast]
      rw [hleft]
      by_cases hread : f.isRead = true
      · rw [if_pos hread]
        exact .waits ⟨l.indent, f, l.inline, trivial, hread, l.avoids, htext, rfl⟩
      · rw [if_neg hread]
        have hunread : f.isRead = false := by simpa using hread
        refine .settled (settled_of_unread ?_ ?_ l.avoids) rfl
        · intro e _
          rw [htext, List.append_assoc]
          exact (f.afterExport_eq_none l.inline hunread e).1
        · intro e _
          rw [htext, List.append_assoc]
          exact (f.afterExport_eq_none l.inline hunread e).2

theorem Program.rows_text (p : Program) :
    Rows (Waits fun _ => True) p.text (p.lines.flatMap Line.left) := by
  obtain ⟨closed, last⟩ := p
  show Rows _ (linesText closed last) ((closed ++ [last]).flatMap Line.left)
  induction closed with
  | nil =>
    rw [List.nil_append, List.flatMap_singleton]
    exact .last last.row
  | cons l closed ih =>
    rw [linesText_cons, List.cons_append, List.flatMap_cons]
    exact .cons l.row ih

/-- **What is shown of stripped code is what is left of the program.** -/
theorem remainingStatements_strip (p : Program) :
    remainingStatements (strip p.text).code = p.left := by
  have hrows := (((((p.pass .importFrom).pass .importSource).pass .exportList).pass
    .exportAll).rows_text)
  rw [← unstated_text] at hrows
  have hdeclared := turns_defaultDeclaration.rows hrows (written_nameDeclarations 0 _)
  have hexpressed := turns_defaultExpression.rows hdeclared
    (written_nameExpressions (missing (unstated p.text)) _)
  have hexported := turns_exportedDeclaration.rows hexpressed (written_replaceFindings _ _)
  rw [strip_code]
  exact hexported.remainingStatements_eq

end LivePreview.Module.Layout
