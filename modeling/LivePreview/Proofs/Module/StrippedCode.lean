/-
The text that all passes leave.

Behind the passes for imports and lists, three passes are left: one makes plain lines of functions
and classes, one makes constants of values or takes them out, and one takes `export` from in front
of declarations.  Each does with a statement what it would do with it alone, but for the number in a
name that it gives, which counts the statements in front.  So the code in the end is that of the
statements, each changed three times.
-/
import LivePreview.Proofs.Module.Removal

namespace LivePreview.Module

open Text (LineEnds linesAvoid pieces replaceFindings)

variable {e : Text} {s : Statement}

/-! ### What is seen of a statement -/

/-- True if the reader of declarations sees the words that open this one. -/
def DeclarationText.IsSeen (d : DeclarationText) : Prop :=
  ∃ words tail, d.text = words ++ tail ∧ ∀ e, LineEnds e →
    exportedDeclaration? ((Statement.exported d).text ++ e) = some (words, tail ++ e)

/-- True if the passes take all of a statement that belongs to it.  Behind a value that only names a
component the line ends, and with it the statement. -/
def Statement.IsRead : Statement → Prop
  | exported d => d.IsSeen
  | defaultValue v => v.name?.isSome = true → Text.skipLine v.text = []
  | _ => True

/-! ### The pass for values -/

/-- The lines that a value without a name becomes, where `count` default exports without one came
before. -/
def ValueText.lines (v : ValueText) (count : Nat) : PlainLines where
  text := "const ".toList ++ (anonymousName (count + 1) ++ (" = ".toList ++ v.text))
  avoids := by
    refine Text.linesAvoid_of_false rfl ?_
    rw [Text.linesAvoid_append (by decide), Text.linesAvoid_append (noNewline_anonymousName _),
      Text.linesAvoid_append (by decide)]
    exact v.avoids
  notFrom := rfl

theorem ValueText.lines_append (v : ValueText) (count : Nat) (e : Text) : (v.lines count).text ++ e
    = "const ".toList ++ (anonymousName (count + 1) ++ (" = ".toList ++ (v.text ++ e))) := by
  show "const ".toList ++ (anonymousName (count + 1) ++ (" = ".toList ++ v.text)) ++ e = _
  rw [List.append_assoc, List.append_assoc, List.append_assoc]

/-- What the pass makes of a statement, where `count` exports without a name came before. -/
def Statement.expressed (count : Nat) : Statement → Option Statement
  | defaultValue v => if v.name?.isSome then none else some (plain (v.lines count))
  | s => some s

theorem Statement.expressed_of_lt (hs : 7 < s.stage) (count : Nat) : s.expressed count = some s := by
  cases s with
  | defaultValue v => exact absurd hs (Nat.lt_irrefl 7)
  | _ => rfl

/-- The code that the pass makes of statements. -/
def expressedFrom (count : Nat) : List Statement → Option Statement → Code
  | [], last => ⟨[], last.bind (Statement.expressed count)⟩
  | s :: closed, last =>
    let later := expressedFrom (count + unnamed (ofForm .value s.defaultExports)) closed last
    match s.expressed count with
    | some s' => Code.cons s' later
    | none => later

/-- The code that the pass makes of code. -/
def Code.expressed (count : Nat) (c : Code) : Code := expressedFrom count c.closed c.last

theorem Code.expressed_cons (count : Nat) (s : Statement) (c : Code) :
    (cons s c).expressed count = match s.expressed count with
      | some s' => cons s' (c.expressed (count + unnamed (ofForm .value s.defaultExports)))
      | none => c.expressed (count + unnamed (ofForm .value s.defaultExports)) := rfl

theorem nameExpressions_passed (count : Nat) (w : Text)
    (ps : List (Text.Piece DefaultExpression)) :
    nameExpressions count (w.map .passed ++ ps) = (nameExpressions count ps).prepend w := by
  induction w with
  | nil => rfl
  | cons c w ih =>
    rw [List.map_cons, List.cons_append, nameExpressions, ih]
    rfl

/-- A constant is made of a value without a name. -/
theorem code_nameExpressions_found (count : Nat) (ps : List (Text.Piece DefaultExpression)) :
    (nameExpressions count (.found ⟨[], none⟩ :: ps)).code
      = "const ".toList ++ (anonymousName (count + 1) ++ (" = ".toList ++
        (nameExpressions (count + 1) ps).code)) := by
  show [] ++ "const ".toList ++ anonymousName (count + 1) ++ " = ".toList ++
    (nameExpressions (count + 1) ps).code = _
  simp only [List.nil_append, List.append_assoc]

/-- The code behind the pass. -/
def expressedText (count : Nat) (s : Text) : Text :=
  (nameExpressions count (pieces defaultExpression? s)).code

/-- A statement that the pass meets becomes one of a later stage, or is taken out. -/
theorem expressedText_statement (hs : 7 ≤ s.stage) (hread : s.IsRead) (he : Follows e)
    (count : Nat) :
    (∀ s' ∈ s.expressed count, 7 < s'.stage ∧ s'.IsRead) ∧
      expressedText count (s.text ++ e)
        = (match s.expressed count with
          | some s' => s'.text ++ e.take 1
          | none => []) ++
          expressedText (count + unnamed (ofForm .value s.defaultExports)) e.tail := by
  by_cases hlt : 7 < s.stage
  · have hnil : ofForm .value s.defaultExports = [] := Statement.ofForm_eq_nil (Nat.ne_of_lt hlt)
    rw [Statement.expressed_of_lt hlt, hnil, expressedText,
      spares_defaultExpression.pieces_eq hlt he, nameExpressions_passed]
    refine ⟨fun s' hs' => ?_, rfl⟩
    obtain rfl := Option.some.inj hs'
    exact ⟨hlt, hread⟩
  obtain ⟨v, rfl⟩ := Statement.exists_value (s := s) (by omega)
  have hvalue : ofForm .value (Statement.defaultValue v).defaultExports = [⟨.value, v.name?⟩] := rfl
  rw [hvalue, Statement.expressed, expressedText]
  cases hname : v.name? with
  | some name =>
    have hsome : v.name?.isSome = true := by rw [hname]; rfl
    refine ⟨fun s' hs' => absurd hs' (by simp), ?_⟩
    rw [pieces_reference v hsome (hread hsome) he.lineEnds, hname]
    rfl
  | none =>
    refine ⟨fun s' hs' => ?_, ?_⟩
    · obtain rfl := Option.some.inj hs'
      exact ⟨Nat.lt_succ_self 7, trivial⟩
    · have hpieces := pieces_unnamedValue v hname he.lineEnds
      rw [List.cons_append] at hpieces
      rw [hpieces, code_nameExpressions_found, nameExpressions_passed]
      show "const ".toList ++ (anonymousName (count + 1) ++ (" = ".toList ++
          (v.text ++ e.take 1 ++ expressedText (count + 1) e.tail)))
        = (v.lines count).text ++ e.take 1 ++ expressedText (count + 1) e.tail
      rw [List.append_assoc v.text, List.append_assoc (v.lines count).text, v.lines_append]

/-- **The pass makes code of code**, in which no default export is left. -/
theorem expressedText_text (c : Code) (hc : ∀ s ∈ c.statements, 7 ≤ s.stage ∧ s.IsRead)
    (count : Nat) : (∀ s ∈ (c.expressed count).statements, 7 < s.stage ∧ s.IsRead) ∧
      expressedText count c.text = (c.expressed count).text := by
  induction c using Code.inductionOn generalizing count with
  | nil => exact ⟨fun s hs => absurd hs List.not_mem_nil, rfl⟩
  | last s =>
    obtain ⟨hstage, hread⟩ := hc s List.mem_cons_self
    obtain ⟨hlater, htext⟩ := expressedText_statement hstage hread follows_nil count
    have hlast : (Code.mk [] (some s)).expressed count = ⟨[], s.expressed count⟩ := rfl
    rw [hlast, Code.text_last, htext]
    cases hs' : s.expressed count with
    | none => exact ⟨fun u hu => absurd hu List.not_mem_nil, rfl⟩
    | some s' =>
      refine ⟨fun u hu => ?_, (List.append_nil _).trans (Code.text_last s').symm⟩
      rw [List.mem_singleton.mp hu]
      exact hlater s' hs'
  | cons s c ih =>
    obtain ⟨hstage, hread⟩ := hc s List.mem_cons_self
    obtain ⟨hlater, htext⟩ := expressedText_statement hstage hread c.follows count
    obtain ⟨hlaters, htexts⟩ := ih (fun u hu => hc u (List.mem_cons_of_mem s hu))
      (count + unnamed (ofForm .value s.defaultExports))
    rw [Code.expressed_cons, Code.text_cons, htext, List.tail_cons, htexts]
    cases hs' : s.expressed count with
    | none => exact ⟨hlaters, rfl⟩
    | some s' =>
      refine ⟨fun u hu => ?_, ?_⟩
      · rcases List.mem_cons.mp hu with rfl | hu
        · exact hlater u hs'
        · exact hlaters u hu
      · show s'.text ++ ['\n'] ++ _ = _
        rw [List.append_assoc]
        rfl

/-! ### The pass for declarations -/

/-- The text that the pass leaves of a statement. -/
def Statement.exposedText : Statement → Text
  | exported d => d.text
  | s => s.text

/-- The text that the pass leaves of code. -/
def Code.exposedText (c : Code) : Text :=
  c.closed.foldr (fun s rest => s.exposedText ++ '\n' :: rest)
    ((c.last.map Statement.exposedText).getD [])

theorem exposed_statement (hs : 7 < s.stage) (hread : s.IsRead) (he : LineEnds e) :
    replaceFindings exportedDeclaration? id (s.text ++ e)
      = s.exposedText ++ e.take 1 ++ replaceFindings exportedDeclaration? id e.tail := by
  have hheeds : Text.Heeds opensStatement exportedDeclaration? :=
    heeds_of_eq_none exportedDeclaration?_eq_none
  cases s with
  | plain lines =>
    have hnone : exportedDeclaration? (lines.text ++ e) = none :=
      hheeds.none_of_false (by
        rw [opensStatement_append he]
        exact Text.test_of_linesAvoid rfl lines.avoids)
    show replaceFindings exportedDeclaration? id (lines.text ++ e) = lines.text ++ e.take 1 ++ _
    rw [replaceFindings, hheeds.pieces_of_none he hnone (Statement.plain lines).avoids,
      List.flatMap_append, Text.flatMap_passed]
    rfl
  | exported d =>
    obtain ⟨words, tail, htext, hfound⟩ := hread
    obtain ⟨front, hne, hfront⟩ : ∃ front, front ≠ [] ∧ (Statement.exported d).text = front ++ tail := by
      refine ⟨"export ".toList ++ words, List.append_ne_nil_of_left_ne_nil (by decide) words, ?_⟩
      show "export ".toList ++ d.text = _
      rw [htext, List.append_assoc]
    have havoids := (Statement.exported d).avoids
    have hfound := hfound e he
    rw [hfront] at havoids hfound
    have hlater := Text.linesAvoid_behind havoids
    rw [Text.startsBehind_of_ne_nil hne false true] at hlater
    rw [List.append_assoc] at hfound
    show replaceFindings exportedDeclaration? id ((Statement.exported d).text ++ e)
      = d.text ++ e.take 1 ++ replaceFindings exportedDeclaration? id e.tail
    rw [hfront, List.append_assoc, replaceFindings, hheeds.pieces_of_front he hne hfound hlater,
      List.cons_append, List.flatMap_cons, List.flatMap_append, Text.flatMap_passed, htext]
    simp only [Text.Piece.text, id_eq, List.append_assoc, replaceFindings]
  | _ => exact absurd hs (by simp [Statement.stage])

theorem exposed_text (c : Code) (hc : ∀ s ∈ c.statements, 7 < s.stage ∧ s.IsRead) :
    replaceFindings exportedDeclaration? id c.text = c.exposedText := by
  induction c using Code.inductionOn with
  | nil => rfl
  | last s =>
    obtain ⟨hstage, hread⟩ := hc s List.mem_cons_self
    rw [Code.text_last, exposed_statement hstage hread .nil]
    exact (List.append_nil _).trans (List.append_nil _)
  | cons s c ih =>
    obtain ⟨hstage, hread⟩ := hc s List.mem_cons_self
    rw [Code.text_cons, exposed_statement hstage hread (.newline c.text), List.tail_cons,
      ih fun u hu => hc u (List.mem_cons_of_mem s hu), List.append_assoc]
    rfl

/-! ### All passes -/

theorem unstated_text (c : Code) : unstated c.text = (c.unread 6).text := by
  have hrequire : (remove importRequire? c.text).1 = (c.unread 1).text := by
    have hread := reads_importRequire.remove_unread c
    rwa [Code.unread_zero] at hread
  rw [unstated, hrequire, reads_importFrom.remove_unread, reads_importSource.remove_unread,
    reads_exportList.remove_unread, reads_exportStar.remove_unread,
    reads_exportAssign.remove_unread]

/-- The code behind the passes that give names. -/
def Code.renamed (c : Code) : Code :=
  ((c.unread 6).declared 0).expressed (unnamed (ofForm .declaration c.defaultExports))

theorem Statement.isRead_declared (hread : s.IsRead) (count : Nat) : (s.declared count).IsRead := by
  cases s <;> exact hread

theorem isRead_of_mem_declared {c : Code} (hc : ∀ s ∈ c.statements, s.IsRead) {count : Nat} :
    ∀ s ∈ (c.declared count).statements, s.IsRead := by
  induction c using Code.inductionOn generalizing count with
  | nil => exact fun s hs => absurd hs List.not_mem_nil
  | last s =>
    intro u hu
    have hu : u ∈ [s.declared count] := hu
    rw [List.mem_singleton.mp hu]
    exact Statement.isRead_declared (hc s List.mem_cons_self) count
  | cons s c ih =>
    intro u hu
    rcases List.mem_cons.mp hu with rfl | hu
    · exact Statement.isRead_declared (hc s List.mem_cons_self) count
    · exact ih (fun u hu => hc u (List.mem_cons_of_mem s hu)) u hu

/-- **What the passes leave of code**, where they take all of each statement. -/
theorem code_strip_text (c : Code) (hc : ∀ s ∈ c.statements, s.IsRead) :
    (strip c.text).code = c.renamed.exposedText := by
  have hunread : ∀ s ∈ (c.unread 6).statements, s.IsRead := by
    intro s hs
    rw [Code.unread, Code.statements_filter, List.mem_filter] at hs
    exact hc s hs.1
  obtain ⟨hlater, -, hdeclare, hmissing⟩ :=
    declare_text (c.unread 6) Code.le_stage_of_mem_unread 0
  rw [Code.ofForm_unread (Nat.le_refl 6)] at hmissing
  obtain ⟨hlast, hexpress⟩ := expressedText_text ((c.unread 6).declared 0)
    (fun s hs => ⟨hlater s hs, isRead_of_mem_declared hunread s hs⟩)
    (unnamed (ofForm .declaration c.defaultExports))
  have hnamed : (named? (unstated c.text)).code = c.renamed.text := by
    rw [named?, unstated_text, hdeclare, hmissing]
    exact hexpress
  rw [strip_code, hnamed]
  exact exposed_text c.renamed hlast

end LivePreview.Module
