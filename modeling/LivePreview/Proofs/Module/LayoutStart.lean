/-
Where no statement of a module starts.

A line can start with the word `import` and be no module statement: an expression calls `import`
like a function, or asks it for its properties.  In front of such lines the readers find no more
than in front of lines that start with neither word.  Whether a line is one of a module is seen on
the line itself, whatever stands on the lines behind.
-/
import LivePreview.Proofs.Module.LayoutReading

namespace LivePreview.Module

open Script
open Text (LineEnds linesAvoid Heeds Stops)

namespace Layout

variable {s e : Text} {d : Char}

/-! ### Calls -/

/-- Where `import` is called no reader goes on. -/
theorem exists_call (h : callsImport s = true) : ∃ rest d t, afterImport? s = some rest ∧
    Text.skipSpaces rest = d :: t ∧ (d = '(' ∨ d = '.' ∨ d = '/') := by
  unfold callsImport at h
  split at h
  · rename_i rest hrest
    cases hskip : Text.skipInline rest with
    | nil =>
      rw [hskip] at h
      cases h
    | cons d t =>
      rw [hskip] at h
      have hd : d = '(' ∨ d = '.' ∨ d = '/' := by simpa [or_assoc] using h
      have hspace : isSpace d = false := by
        obtain rfl | rfl | rfl := hd <;> decide
      have hblanks : ∀ c ∈ rest.takeWhile isInline, isSpace c = true := by
        intro c hc
        have hc : isInline c = true := List.mem_takeWhile_imp hc
        simp only [isInline, Bool.or_eq_true, beq_iff_eq] at hc
        obtain rfl | rfl := hc <;> decide
      have hrest' : rest = rest.takeWhile isInline ++ d :: t := by
        rw [← hskip]
        exact List.takeWhile_append_dropWhile.symm
      refine ⟨rest, d, t, hrest, ?_, hd⟩
      rw [hrest']
      exact Text.dropWhile_append hblanks (Text.stops_cons.mpr hspace)
  · cases h

theorem endsClause_of_call (h : d = '(' ∨ d = '.' ∨ d = '/') : EndsClause d := by
  show isClauseChar d = false
  obtain rfl | rfl | rfl := h <;> decide

section

variable (h : opensModule s = false)

include h

theorem opensStatement_or_call : opensStatement s = false ∨ callsImport s = true := by
  rwa [opensModule, Bool.and_eq_false_iff, Bool.not_eq_false'] at h

theorem start_of_opensModule :
    opensStatement s = false ∨ (∀ r ∈ (afterImport? s).bind Text.spaces?,
      ∃ d t, EndsClause d ∧ r = d :: t) ∧ importSource? s = none ∧ afterExport? s = none := by
  obtain hopens | hcalls := opensStatement_or_call h
  · exact Or.inl hopens
  · right
    obtain ⟨rest, d, t, hrest, hskip, hd⟩ := exists_call hcalls
    refine ⟨fun r hr => ?_, ?_, ?_⟩
    · rw [hrest, Option.bind_some] at hr
      cases rest with
      | nil => cases hr
      | cons c rest =>
        rw [Text.spaces?] at hr
        split at hr
        · rename_i hc
          rw [Text.skipSpaces, List.dropWhile_cons_of_pos hc] at hskip
          exact ⟨d, t, endsClause_of_call hd, (Option.some.inj hr).symm.trans hskip⟩
        · cases hr
    · have hquote : isQuote d = false := by
        obtain rfl | rfl | rfl := hd <;> decide
      simp only [importSource?, hrest, Option.bind_eq_bind, Option.bind_some, hskip,
        source?_eq_none hquote, Option.bind_none]
    · rw [afterImport?] at hrest
      rw [afterExport?, Text.eq_append_of_after? hrest]
      rfl

end

/-- No reader finds anything where no line of a module starts. -/
theorem reader_eq_none {α : Type} {find : Text → Option (α × Text)}
    (hopens : ∀ s, opensStatement s = false → find s = none)
    (hcalls : ∀ s, (∀ r ∈ (afterImport? s).bind Text.spaces?, ∃ d t, EndsClause d ∧ r = d :: t) →
      importSource? s = none → afterExport? s = none → find s = none)
    (h : opensModule s = false) : find s = none := by
  obtain hstart | ⟨hstart, hsource, hexport⟩ := start_of_opensModule h
  · exact hopens s hstart
  · exact hcalls s hstart hsource hexport

/-! ### The end of a line -/

theorem skipInline_lineEnds (he : LineEnds e) (s : Text) {p : Char → Bool} (hp : p '\n' = false) :
    (Text.skipInline (s ++ e)).head?.any p = (Text.skipInline s).head?.any p := by
  rw [skipInline_append he]
  cases Text.skipInline s with
  | cons c t => rfl
  | nil =>
    cases he with
    | nil => rfl
    | newline t => simp [hp]

theorem after?_lineEnds (he : LineEnds e) {lit : Text} (hlit : '\n' ∉ lit) (s : Text) :
    Text.after? lit (s ++ e) = (Text.after? lit s).map (· ++ e) := by
  cases he with
  | nil => simp
  | newline t => exact Text.after?_append_cons hlit

theorem afterImport?_lineEnds (he : LineEnds e) (s : Text) :
    afterImport? (s ++ e) = (afterImport? s).map (· ++ e) := by
  rw [afterImport?, skipInline_append he, after?_lineEnds he (by decide)]
  rfl

theorem afterWord?_lineEnds (he : LineEnds e) {lit : Text} (hlit : '\n' ∉ lit) (s : Text) :
    (Text.afterWord? lit (s ++ e)).isSome = (Text.afterWord? lit s).isSome := by
  have hends : ∀ r, Text.wordEnds (r ++ e) = Text.wordEnds r := by
    intro r
    cases r with
    | cons c r => rfl
    | nil =>
      cases he with
      | nil => rfl
      | newline t => exact (by decide : Text.wordEnds ['\n'] = true)
  unfold Text.afterWord?
  rw [after?_lineEnds he hlit]
  cases Text.after? lit s with
  | none => rfl
  | some r =>
    simp only [Option.map_some, hends]
    split <;> rfl

theorem looksLikeStatement_append (he : LineEnds e) :
    looksLikeStatement (s ++ e) = looksLikeStatement s := by
  have hexport : (Text.afterWord? "export".toList (Text.skipInline (s ++ e))).isSome
      = (Text.afterWord? "export".toList (Text.skipInline s)).isSome := by
    rw [skipInline_append he, afterWord?_lineEnds he (by decide)]
  unfold looksLikeStatement
  rw [hexport, afterImport?_lineEnds he]
  cases afterImport? s with
  | none => rfl
  | some rest =>
    dsimp only [Option.map_some]
    rw [skipInline_lineEnds he rest]
    decide

theorem callsImport_append (he : LineEnds e) : callsImport (s ++ e) = callsImport s := by
  unfold callsImport
  rw [afterImport?_lineEnds he]
  cases afterImport? s with
  | none => rfl
  | some rest =>
    dsimp only [Option.map_some]
    rw [skipInline_lineEnds he rest]
    decide

/-- The end of a line does not tell if the line is one of a module. -/
theorem opensModule_append (he : LineEnds e) : opensModule (s ++ e) = opensModule s := by
  rw [opensModule, opensModule, opensStatement_append he, callsImport_append he]

/-! ### Readers -/

/-- A reader that finds nothing where neither word starts a line, and nothing where `import` is
called. -/
theorem heeds_opensModule {α : Type} {find : Text → Option (α × Text)}
    (hopens : ∀ s, opensStatement s = false → find s = none)
    (hcalls : ∀ s, (∀ r ∈ (afterImport? s).bind Text.spaces?, ∃ d t, EndsClause d ∧ r = d :: t) →
      importSource? s = none → afterExport? s = none → find s = none) : Heeds opensModule find :=
  ⟨reader_eq_none hopens hcalls, opensModule_append, rfl⟩

theorem heeds_importRequire : Heeds opensModule importRequire? :=
  heeds_opensModule (fun _ => importRequire?_eq_none) fun _ h _ _ => importRequire?_of_endsClause h

theorem heeds_importFrom : Heeds opensModule importFrom? :=
  heeds_opensModule (fun _ => importFrom?_eq_none) fun _ h _ _ => importFrom?_of_endsClause h

theorem heeds_importSource : Heeds opensModule importSource? :=
  heeds_opensModule (fun _ => importSource?_eq_none) fun _ _ h _ => h

theorem heeds_exportList : Heeds opensModule exportList? :=
  heeds_opensModule (fun _ => exportList?_eq_none) fun _ _ _ h => by rw [exportList?, h]; rfl

theorem heeds_exportStar : Heeds opensModule exportStar? :=
  heeds_opensModule (fun _ => exportStar?_eq_none) fun _ _ _ h => by rw [exportStar?, h]; rfl

theorem heeds_exportAssign : Heeds opensModule exportAssign? :=
  heeds_opensModule (fun _ => exportAssign?_eq_none) fun _ _ _ h => by rw [exportAssign?, h]; rfl

theorem heeds_defaultDeclaration : Heeds opensModule defaultDeclaration? :=
  heeds_opensModule (fun _ => defaultDeclaration?_eq_none) fun _ _ _ h => by
    rw [defaultDeclaration?, afterExportDefault?, h]
    rfl

theorem heeds_defaultExpression : Heeds opensModule defaultExpression? :=
  heeds_opensModule (fun _ => defaultExpression?_eq_none) fun _ _ _ h => by
    rw [defaultExpression?, afterExportDefault?, h]
    rfl

theorem heeds_exportedDeclaration : Heeds opensModule exportedDeclaration? :=
  heeds_opensModule (fun _ => exportedDeclaration?_eq_none) fun _ _ _ h => by
    rw [exportedDeclaration?, h]
    rfl

end Layout

end LivePreview.Module
