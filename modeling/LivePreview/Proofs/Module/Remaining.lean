/-
The lines that still look like module statements.

A line looks like a module statement by its first characters, whatever stands on other lines.  So
what is shown of a text is shown line by line: lines that start with neither word, in whatever way
they are put together, do not count.
-/
import LivePreview.Proofs.Module.LayoutStart
import LivePreview.Proofs.Text.Lines

namespace LivePreview

namespace Text

variable {s : Text} {test : Text → Bool}

theorem lineEnds_skipLine (s : Text) : LineEnds (skipLine s) := by
  have hstop := stops_dropWhile (· != '\n') s
  unfold skipLine
  cases hs : s.dropWhile (· != '\n') with
  | nil => exact .nil
  | cons c t =>
    rw [hs] at hstop
    have hc : c = '\n' := by simpa using stops_cons.mp hstop
    rw [hc]
    exact .newline t

theorem noNewline_firstLine (s : Text) : '\n' ∉ firstLine s := by
  intro hmem
  have hne := List.mem_takeWhile_imp (p := (· != '\n')) hmem
  exact absurd hne (by decide)

theorem firstLine_append_skipLine (s : Text) : firstLine s ++ skipLine s = s :=
  List.takeWhile_append_dropWhile

/-- The lines behind the first one avoid what the text avoids. -/
theorem linesAvoid_eq (htest : ∀ {t e : Text}, LineEnds e → test (t ++ e) = test t)
    (hnil : test [] = false) (b : Bool) (s : Text) :
    linesAvoid test b s = (!(b && test s) && (laterLines s).all (!test ·)) := by
  induction s generalizing b with
  | nil => simp [linesAvoid, hnil, laterLines, fields, splitBy]
  | cons c s ih =>
    have hline : test (firstLine s) = test s := by
      rw [← htest (lineEnds_skipLine s), firstLine_append_skipLine]
    by_cases hc : c = '\n'
    · rw [hc, linesAvoid, ih, laterLines_newline, List.all_cons, hline, beq_self_eq_true,
        Bool.true_and]
    · rw [linesAvoid, ih, laterLines_cons hc, beq_eq_false_iff_ne.mpr hc, Bool.false_and,
        Bool.not_false, Bool.true_and]

end Text

namespace Module.Layout

open Text (LineEnds linesAvoid Heeds laterLines fields)

variable {s t b e : Text}

/-! ### What is shown, line by line -/

theorem remainingStatements_line (h : '\n' ∉ s) (he : LineEnds e) :
    remainingStatements (s ++ e)
      = (if looksLikeStatement s then [Text.trim s] else []) ++ remainingStatements e.tail := by
  have hheeds : Heeds looksLikeStatement fun s =>
      if looksLikeStatement s then some (Text.trim (Text.firstLine s), Text.skipLine s) else none :=
    ⟨fun h => by rw [h]; rfl, looksLikeStatement_append, rfl⟩
  have hne : ∀ c ∈ s, (c != '\n') = true := fun c hc => bne_iff_ne.mpr fun heq => h (heq ▸ hc)
  have hstop : Text.Stops (· != '\n') e := he.stops (by decide)
  have hline : Text.firstLine (s ++ e) = s := Text.takeWhile_append hne hstop
  have hskip : Text.skipLine (s ++ e) = e := Text.dropWhile_append hne hstop
  unfold remainingStatements Text.findings
  by_cases hlooks : looksLikeStatement s = true
  · have hs : s ≠ [] := by
      rintro rfl
      cases hlooks
    have hpieces := hheeds.pieces_of_front (s := []) (a := Text.trim s) he hs
      (by rw [List.nil_append, looksLikeStatement_append he, if_pos hlooks, hline, hskip]) rfl
    rw [List.nil_append] at hpieces
    rw [hpieces, if_pos hlooks, List.cons_append, List.filterMap_cons, List.filterMap_append,
      Text.filterMap_passed]
    rfl
  · rw [hheeds.pieces_of_none he (by rw [looksLikeStatement_append he, if_neg hlooks])
      (Text.linesAvoid_of_noNewline h), if_neg hlooks, List.filterMap_append, Text.filterMap_passed]

/-- **Of a text those lines are shown that look like module statements.** -/
theorem remainingStatements_eq (s : Text) :
    remainingStatements s = ((fields '\n' s).filter looksLikeStatement).map Text.trim := by
  induction hn : s.length using Nat.strong_induction_on generalizing s with
  | _ n ih =>
    have hline := Text.noNewline_firstLine s
    have htext := Text.firstLine_append_skipLine s
    obtain ⟨e, hskip⟩ : ∃ e, Text.skipLine s = e := ⟨_, rfl⟩
    have hends := Text.lineEnds_skipLine s
    rw [hskip] at htext hends
    rw [← htext, remainingStatements_line hline hends]
    cases hends with
    | nil =>
      rw [List.append_nil, Text.fields_of_noNewline hline, List.filter_singleton]
      cases looksLikeStatement (Text.firstLine s) <;> rfl
    | newline t =>
      have hlength : t.length < n := by
        rw [← hn, ← htext]
        simp
        omega
      rw [Text.fields_append_newline, Text.fields_of_noNewline hline, List.filter_append,
        List.map_append, List.filter_singleton, List.tail_cons, ih _ hlength t rfl]
      cases looksLikeStatement (Text.firstLine s) <;> rfl

theorem remainingStatements_newline (s t : Text) :
    remainingStatements (s ++ '\n' :: t) = remainingStatements s ++ remainingStatements t := by
  simp only [remainingStatements_eq, Text.fields_append_newline, List.filter_append, List.map_append]

theorem remainingLater_eq (s : Text) :
    remainingLater s = ((laterLines s).filter looksLikeStatement).map Text.trim := by
  have htext := Text.firstLine_append_skipLine s
  have hends := Text.lineEnds_skipLine s
  rw [remainingLater, remainingStatements_eq]
  obtain ⟨e, hskip⟩ : ∃ e, Text.skipLine s = e := ⟨_, rfl⟩
  rw [hskip] at htext hends
  rw [← htext, Text.laterLines_append (Text.noNewline_firstLine s), htext, hskip]
  cases hends with
  | nil => rfl
  | newline t => rw [Text.laterLines_newline, ← Text.fields_eq, List.drop_one, List.tail_cons]

/-- Where the first line does not look like a module statement, later lines are all that is
shown. -/
theorem remainingStatements_of_false (h : looksLikeStatement s = false) :
    remainingStatements s = remainingLater s := by
  have hline : looksLikeStatement (Text.firstLine s) = false := by
    rw [← looksLikeStatement_append (Text.lineEnds_skipLine s), Text.firstLine_append_skipLine, h]
  rw [remainingStatements_eq, remainingLater_eq, Text.fields_eq, List.filter_cons_of_neg]
  rw [hline]
  exact Bool.false_ne_true

/-! ### Lines that count -/

/-- True if the letters of `import` or `export` stand at the start of a line. -/
def counts (line : Text) : Bool :=
  (afterImport? line).isSome || (afterExport? line).isSome

/-- The later lines that count. -/
def counting (s : Text) : List Text := (laterLines s).filter counts

theorem after?_of_counts (h : counts s = false) :
    afterImport? s = none ∧ afterExport? s = none := by
  simpa [counts] using h

theorem opensModule_of_counts (h : counts s = false) : opensModule s = false := by
  obtain ⟨himport, hexport⟩ := after?_of_counts h
  have hopens : opensStatement s = false := by
    unfold opensStatement startsWord
    rw [← afterImport?, ← afterExport?, himport, hexport]
    rfl
  rw [opensModule, hopens, Bool.false_and]

theorem looksLikeStatement_of_counts (h : counts s = false) : looksLikeStatement s = false := by
  obtain ⟨himport, hexport⟩ := after?_of_counts h
  unfold looksLikeStatement Text.afterWord?
  rw [← afterExport?, himport, hexport]
  rfl

theorem counts_append (he : LineEnds e) : counts (s ++ e) = counts s := by
  have hexport : afterExport? (s ++ e) = (afterExport? s).map (· ++ e) := by
    rw [afterExport?, skipInline_append he, after?_lineEnds he (by decide)]
    rfl
  rw [counts, counts, afterImport?_lineEnds he, hexport, Option.isSome_map, Option.isSome_map]

theorem counts_inline (h : b.all isInline = true) (s : Text) : counts (b ++ s) = counts s := by
  have hskip : Text.skipInline (b ++ s) = Text.skipInline s :=
    List.dropWhile_append_of_pos (List.all_eq_true.mp h)
  rw [counts, counts, afterImport?, afterImport?, afterExport?, afterExport?, hskip]

/-- Blanks of whatever kind do not make a line count. -/
theorem counts_blanks (hb : ∀ c ∈ b, isSpace c = true) (hs : counts s = false) :
    counts (b ++ s) = false := by
  induction b with
  | nil => exact hs
  | cons c b ih =>
    have hlater := ih fun d hd => hb d (List.mem_cons_of_mem c hd)
    have hspace := hb c List.mem_cons_self
    by_cases hc : isInline c = true
    · have hinline : counts ([c] ++ (b ++ s)) = counts (b ++ s) :=
        counts_inline (by rw [List.all_cons, hc]; rfl) _
      exact hinline.trans hlater
    · have hne : c ≠ 'i' ∧ c ≠ 'e' := by
        constructor <;> rintro rfl <;> cases hspace
      rw [List.cons_append, counts, afterImport?, afterExport?,
        Text.skipInline_cons (Bool.eq_false_of_not_eq_true hc)]
      have himport : Text.after? "import".toList (c :: (b ++ s)) = none := if_neg hne.1.symm
      have hexport : Text.after? "export".toList (c :: (b ++ s)) = none := if_neg hne.2.symm
      rw [himport, hexport]
      rfl

theorem counting_append (h : '\n' ∉ s) (t : Text) : counting (s ++ t) = counting t := by
  rw [counting, Text.laterLines_append h, counting]

/-- Blanks in front of what does not count do not count. -/
theorem counting_blanks (hb : ∀ c ∈ b, isSpace c = true) (hs : counts s = false) :
    counting (b ++ s) = counting s := by
  induction b with
  | nil => rfl
  | cons c b ih =>
    have hblanks : ∀ d ∈ b, isSpace d = true := fun d hd => hb d (List.mem_cons_of_mem c hd)
    have hlater := ih hblanks
    rw [List.cons_append, counting]
    by_cases hc : c = '\n'
    · have hline : counts (Text.firstLine (b ++ s)) = false := by
        rw [← counts_append (Text.lineEnds_skipLine _), Text.firstLine_append_skipLine]
        exact counts_blanks hblanks hs
      rw [hc, Text.laterLines_newline, List.filter_cons_of_neg, ← counting, hlater]
      rw [hline]
      exact Bool.false_ne_true
    · rw [Text.laterLines_cons hc, ← counting, hlater]

/-- Of the later lines only those that count can start as module statements do. -/
theorem linesAvoid_of_counting (h : counting s = counting t)
    (ht : linesAvoid opensModule false t = true) : linesAvoid opensModule false s = true := by
  have hall : ∀ s, linesAvoid opensModule false s = true ↔
      ∀ line ∈ counting s, opensModule line = false := by
    intro s
    rw [Text.linesAvoid_eq opensModule_append rfl]
    simp only [Bool.false_and, Bool.not_false, Bool.true_and, List.all_eq_true, Bool.not_eq_true',
      counting, List.mem_filter]
    refine ⟨fun h line hline => h line hline.1, fun h line hline => ?_⟩
    by_cases hcounts : counts line = true
    · exact h line ⟨hline, hcounts⟩
    · exact opensModule_of_counts (Bool.eq_false_of_not_eq_true hcounts)
  rw [hall] at ht ⊢
  rwa [h]

/-- Of the later lines only those that count can be shown. -/
theorem remainingLater_of_counting (h : counting s = counting t) :
    remainingLater s = remainingLater t := by
  have hfilter : ∀ s, remainingLater s = ((counting s).filter looksLikeStatement).map Text.trim := by
    intro s
    rw [remainingLater_eq, counting, List.filter_filter]
    refine congrArg (List.map Text.trim) (List.filter_congr fun line _ => ?_)
    by_cases hcounts : counts line = true
    · rw [hcounts, Bool.and_true]
    · rw [looksLikeStatement_of_counts (Bool.eq_false_of_not_eq_true hcounts), Bool.false_and]
  rw [hfilter, hfilter, h]

end Module.Layout

end LivePreview
