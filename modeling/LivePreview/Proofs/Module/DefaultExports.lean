/-
The default exports of code, and what each pass reports of them.

Default exports have four forms, and each form has its pass.  So the names that a pass reports
are those of the default exports of one form, in the order of the statements.  The passes for
functions and classes and for values also give names to exports without one; the second goes on
counting where the first stopped, over text in which the functions and classes stand as plain
lines.
-/
import LivePreview.Proofs.Module.Passes
import LivePreview.Proofs.Text.Words

namespace LivePreview.Module

open Text (Piece)

variable {e : Text}

/-! ### Default exports -/

/-- The forms of default exports, in the order of their passes. -/
inductive Form where
  | list
  | assignment
  | declaration
  | value
deriving DecidableEq, Repr

/-- The stage at which a form is taken. -/
def Form.stage : Form → Nat
  | list => 3
  | assignment => 5
  | declaration => 6
  | value => 7

/-- A default export, and its name if it has one. -/
structure DefaultExport where
  form : Form
  name? : Option Text
deriving DecidableEq, Repr

/-- The default exports of a statement. -/
def Statement.defaultExports : Statement → List DefaultExport
  | exportList items _ _ => (items.filterMap ListItem.default?).map fun name => ⟨.list, some name⟩
  | exportAssign name _ => [⟨.assignment, some name.text⟩]
  | defaultDeclaration _ tail => [⟨.declaration, tail.name?⟩]
  | defaultValue v => [⟨.value, v.name?⟩]
  | _ => []

/-- The default exports of code, in the order in which they stand there. -/
def Code.defaultExports (c : Code) : List DefaultExport :=
  c.statements.flatMap Statement.defaultExports

/-- The default exports of one form. -/
def ofForm (f : Form) (ds : List DefaultExport) : List DefaultExport := ds.filter (·.form == f)

/-- How many default exports have no name. -/
def unnamed (ds : List DefaultExport) : Nat := ds.countP (·.name?.isNone)

/-- A name for each default export, where `count` without one came before. -/
def named : Nat → List DefaultExport → List Text
  | _, [] => []
  | count, ⟨_, some name⟩ :: ds => name :: named count ds
  | count, ⟨_, none⟩ :: ds => anonymousName (count + 1) :: named (count + 1) ds

theorem named_append (count : Nat) (xs ys : List DefaultExport) :
    named count (xs ++ ys) = named count xs ++ named (count + unnamed xs) ys := by
  induction xs generalizing count with
  | nil => rfl
  | cons d xs ih =>
    obtain ⟨form, name⟩ := d
    cases name with
    | none =>
      have hcount : count + 1 + unnamed xs = count + unnamed (⟨form, none⟩ :: xs) := by
        simp only [unnamed, List.countP_cons, Option.isNone_none, if_true]
        omega
      simp only [List.cons_append, named, ih, hcount]
    | some name =>
      have hcount : unnamed xs = unnamed (⟨form, some name⟩ :: xs) := by
        simp [unnamed]
      simp only [List.cons_append, named, ih, hcount]

theorem unnamed_append (xs ys : List DefaultExport) :
    unnamed (xs ++ ys) = unnamed xs + unnamed ys := List.countP_append

theorem Code.ofForm_defaultExports (f : Form) (c : Code) :
    ofForm f c.defaultExports = c.statements.flatMap fun s => ofForm f s.defaultExports :=
  List.filter_flatMap

theorem Code.ofForm_last (f : Form) (s : Statement) :
    ofForm f (Code.mk [] (some s)).defaultExports = ofForm f s.defaultExports := by
  rw [Code.ofForm_defaultExports, statements_last, List.flatMap_cons, List.flatMap_nil,
    List.append_nil]

theorem Code.ofForm_cons (f : Form) (s : Statement) (c : Code) :
    ofForm f (cons s c).defaultExports = ofForm f s.defaultExports ++ ofForm f c.defaultExports := by
  rw [Code.ofForm_defaultExports, Code.ofForm_defaultExports, statements_cons, List.flatMap_cons]

/-- The form of a default export is that of its statement. -/
theorem Statement.stage_form (s : Statement) : ∀ d ∈ s.defaultExports, d.form.stage = s.stage := by
  intro d hd
  cases s with
  | exportList items source semi =>
    obtain ⟨name, -, rfl⟩ := List.mem_map.mp hd
    rfl
  | exportAssign name semi => rw [List.mem_singleton.mp hd]; rfl
  | defaultDeclaration head tail => rw [List.mem_singleton.mp hd]; rfl
  | defaultValue v => rw [List.mem_singleton.mp hd]; rfl
  | _ => cases hd

theorem Statement.ofForm_eq_nil {s : Statement} {f : Form} (h : f.stage ≠ s.stage) :
    ofForm f s.defaultExports = [] := by
  refine List.filter_eq_nil_iff.mpr fun d hd hform => h ?_
  rw [← eq_of_beq hform, s.stage_form d hd]

/-- The passes before the one for a form take none of its default exports. -/
theorem Code.ofForm_unread {f : Form} {k : Nat} (h : k ≤ f.stage) (c : Code) :
    ofForm f (c.unread k).defaultExports = ofForm f c.defaultExports := by
  rw [Code.ofForm_defaultExports, Code.ofForm_defaultExports, unread, statements_filter]
  induction c.statements with
  | nil => rfl
  | cons s ss ih =>
    rw [List.filter_cons, List.flatMap_cons, ← ih]
    split
    · rfl
    · rename_i hs
      have hnil : ofForm f s.defaultExports = [] := by
        refine Statement.ofForm_eq_nil ?_
        simp only [decide_eq_true_eq] at hs
        omega
      rw [hnil, List.nil_append]

/-! ### Lists and assignments -/

/-- Where every default export has a name, none is made up. -/
theorem named_names (f : Form) (names : List Text) (count : Nat) :
    named count (names.map fun name => ⟨f, some name⟩) = names ∧
      unnamed (names.map fun name => ⟨f, some name⟩) = 0 := by
  induction names with
  | nil => exact ⟨rfl, rfl⟩
  | cons name names ih =>
    refine ⟨?_, ?_⟩
    · simp only [List.map_cons, named, ih.1]
    · simp [unnamed]

section

variable {α : Type} {find : Text → Option (α × Text)} {f : Form} (names : α → List Text)
variable (hr : Reads f.stage find)
variable (hfound : ∀ s : Statement, s.stage = f.stage → ∃ a, TakesAs find s a ∧
  s.defaultExports = (names a).map fun name => ⟨f, some name⟩)

include hr hfound

theorem exists_findings_statement {s : Statement} (hs : f.stage ≤ s.stage) (he : Follows e) :
    ∃ found, Text.findings find (s.text ++ e) = found ++ Text.findings find e.tail ∧
      ofForm f s.defaultExports = (found.flatMap names).map fun name => ⟨f, some name⟩ := by
  obtain ⟨found, hfindings, hlater, hown⟩ := hr.findings_statement hs he
  refine ⟨found, hfindings, ?_⟩
  by_cases hlt : f.stage < s.stage
  · rw [hlater hlt, Statement.ofForm_eq_nil (Nat.ne_of_lt hlt)]
    rfl
  · have heq : s.stage = f.stage := by omega
    obtain ⟨a, htakes, ha⟩ := hfound s heq
    rw [hown a heq htakes, ha, List.flatMap_cons, List.flatMap_nil, List.append_nil]
    exact List.filter_eq_self.mpr fun d hd => by
      obtain ⟨name, -, rfl⟩ := List.mem_map.mp hd
      exact beq_self_eq_true f

/-- What a pass finds names the default exports of its form. -/
theorem ofForm_eq_findings (c : Code) (hc : ∀ s ∈ c.statements, f.stage ≤ s.stage) :
    ofForm f c.defaultExports
      = ((Text.findings find c.text).flatMap names).map fun name => ⟨f, some name⟩ := by
  induction c using Code.inductionOn with
  | nil => rfl
  | last s =>
    obtain ⟨found, hfindings, hform⟩ :=
      exists_findings_statement names hr hfound (hc s List.mem_cons_self) follows_nil
    rw [Code.text_last, Code.ofForm_last, hfindings, hform, List.flatMap_append, List.map_append]
    exact (List.append_nil _).symm
  | cons s c ih =>
    obtain ⟨found, hfindings, hform⟩ :=
      exists_findings_statement names hr hfound (hc s List.mem_cons_self) c.follows
    rw [Code.text_cons, Code.ofForm_cons, hfindings, hform, List.flatMap_append, List.map_append,
      ih fun t ht => hc t (List.mem_cons_of_mem s ht)]
    rfl

theorem findings_unread (c : Code) (count : Nat) :
    (Text.findings find (c.unread f.stage).text).flatMap names
        = named count (ofForm f c.defaultExports) ∧
      unnamed (ofForm f c.defaultExports) = 0 := by
  rw [← Code.ofForm_unread (Nat.le_refl f.stage),
    ofForm_eq_findings names hr hfound (c.unread f.stage) Code.le_stage_of_mem_unread]
  obtain ⟨hnamed, hunnamed⟩ := named_names f
    ((Text.findings find (c.unread f.stage).text).flatMap names) count
  exact ⟨hnamed.symm, hunnamed⟩

end

/-- **The pass for lists reports the default exports in lists.** -/
theorem listed_names (c : Code) (count : Nat) :
    (remove exportList? (c.unread 3).text).2.flatten = named count (ofForm .list c.defaultExports) ∧
      unnamed (ofForm .list c.defaultExports) = 0 := by
  have hfound : ∀ s : Statement, s.stage = 3 → ∃ a, TakesAs exportList? s a ∧
      s.defaultExports = a.map fun name => ⟨.list, some name⟩ := by
    intro s hs
    cases s with
    | exportList items source semi => exact ⟨_, takesAs_exportList items source semi, rfl⟩
    | _ => exact absurd hs (by simp [Statement.stage])
  have hnames := findings_unread (f := .list) id reads_exportList hfound c count
  rwa [List.flatMap_id] at hnames

/-- **The pass for assignments reports the default exports that are assignments.** -/
theorem assigned_names (c : Code) (count : Nat) :
    (remove exportAssign? (c.unread 5).text).2 = named count (ofForm .assignment c.defaultExports) ∧
      unnamed (ofForm .assignment c.defaultExports) = 0 := by
  have hfound : ∀ s : Statement, s.stage = 5 → ∃ a, TakesAs exportAssign? s a ∧
      s.defaultExports = [a].map fun name => ⟨.assignment, some name⟩ := by
    intro s hs
    cases s with
    | exportAssign name semi => exact ⟨_, takesAs_exportAssign name semi, rfl⟩
    | _ => exact absurd hs (by simp [Statement.stage])
  have hnames := findings_unread (f := .assignment) ([·]) reads_exportAssign hfound c count
  rwa [List.flatMap_singleton'] at hnames

/-! ### Functions and classes -/

theorem nameDeclarations_passed (count : Nat) (w : Text) (ps : List (Piece DefaultDeclaration)) :
    nameDeclarations count (w.map .passed ++ ps) = (nameDeclarations count ps).prepend w := by
  induction w with
  | nil => rfl
  | cons c w ih =>
    rw [List.map_cons, List.cons_append, nameDeclarations, ih]
    rfl

theorem noNewline_anonymousName (n : Nat) : '\n' ∉ anonymousName n := by
  unfold anonymousName
  split
  · decide
  · intro h
    rcases List.mem_append.mp h with h | h
    · exact absurd h (by decide)
    · exact absurd (Text.isDigit_of_mem_ofNat h) (by decide)

theorem isReadAs_name? {head : DeclarationHead} {tail : HeadTail} {d : DefaultDeclaration}
    (hd : IsReadAs head tail d) : tail.name? = if isMissing d.name then none else some d.name := by
  rw [hd.name]
  rfl

/-- What stands between the head of a function or class and what is behind its name, where `count`
default exports without a name came before. -/
def HeadTail.middle (tail : HeadTail) (count : Nat) : Text :=
  match tail.name? with
  | some _ => tail.gap ++ tail.name
  | none => ' ' :: anonymousName (count + 1) ++ if tail.name.isEmpty then [] else ' ' :: tail.name

theorem HeadTail.noNewline_middle (tail : HeadTail) (count : Nat) : '\n' ∉ tail.middle count := by
  unfold middle
  split
  · simp only [List.mem_append, not_or]
    exact ⟨tail.noNewline_gap, tail.noNewline_name⟩
  · simp only [List.cons_append, List.mem_cons, List.mem_append, not_or]
    refine ⟨by decide, noNewline_anonymousName _, ?_⟩
    split
    · exact List.not_mem_nil
    · exact fun h => tail.noNewline_name (by simpa using h)

/-- The lines that a function or class becomes. -/
def HeadTail.lines (tail : HeadTail) (head : DeclarationHead) (count : Nat) : PlainLines :=
  plainDeclaration head (tail.middle count) (tail.noNewline_middle count) tail

/-- A function or class becomes plain lines, and its name is reported or, if it has none, made
up. -/
theorem nameDeclarations_found {head : DeclarationHead} {tail : HeadTail} {d : DefaultDeclaration}
    (hd : IsReadAs head tail d) (count : Nat) (end? : Text) (ps : List (Piece DefaultDeclaration)) :
    nameDeclarations count (.found d :: (tail.behind ++ end?).map .passed ++ ps)
      = ⟨(tail.lines head count).text ++ end? ++
          (nameDeclarations (count + unnamed [⟨.declaration, tail.name?⟩]) ps).code,
        named count [⟨.declaration, tail.name?⟩] ++
          (nameDeclarations (count + unnamed [⟨.declaration, tail.name?⟩]) ps).names⟩ := by
  have hlines : (tail.lines head count).text = head.text ++ (tail.middle count ++ tail.behind) := rfl
  rw [hlines]
  unfold HeadTail.middle
  by_cases hmissing : isMissing d.name = true
  · have hname : tail.name? = none := by rw [isReadAs_name? hd, if_pos hmissing]
    rw [hname, List.cons_append, nameDeclarations, if_pos hmissing, nameDeclarations_passed,
      hd.trimmed, hd.indent, hd.name]
    simp [Named.prepend, Named.addName, named, unnamed]
  · have hname : tail.name? = some d.name := by rw [isReadAs_name? hd, if_neg hmissing]
    have hfront : d.head ++ d.gap = head.text ++ tail.gap := hd.front
    rw [hname, List.cons_append, nameDeclarations, if_neg hmissing, nameDeclarations_passed,
      hd.indent, List.nil_append, hfront, hd.name]
    simp [Named.prepend, Named.addName, named, unnamed]

/-- The pass for functions and classes. -/
def declare (count : Nat) (s : Text) : Named :=
  nameDeclarations count (Text.pieces defaultDeclaration? s)

/-- How many functions and classes the pass gives a name. -/
def missing (s : Text) : Nat := (Text.findings defaultDeclaration? s).countP (isMissing ·.name)

/-- The pass over the text `s` makes `plain` of all that is in front of `rest`, where the default
exports `ds` stand. -/
structure Declares (count : Nat) (s plain rest : Text) (ds : List DefaultExport) : Prop where
  declare_eq : declare count s = ⟨plain ++ (declare (count + unnamed ds) rest).code,
    named count ds ++ (declare (count + unnamed ds) rest).names⟩
  missing_eq : missing s = unnamed ds + missing rest

theorem declares_later {s : Statement} (hs : 6 < s.stage) (he : Follows e) (count : Nat) :
    Declares count (s.text ++ e) (s.text ++ e.take 1) e.tail [] := by
  have hpieces := spares_defaultDeclaration.pieces_eq hs he
  refine ⟨?_, ?_⟩
  · rw [declare, hpieces, nameDeclarations_passed]
    rfl
  · rw [missing, Text.findings, hpieces, List.filterMap_append, Text.filterMap_passed]
    exact (Nat.zero_add _).symm

theorem declares_declaration (head : DeclarationHead) (tail : HeadTail) (he : Follows e)
    (count : Nat) : Declares count ((Statement.defaultDeclaration head tail).text ++ e)
      ((tail.lines head count).text ++ e.take 1) e.tail [⟨.declaration, tail.name?⟩] := by
  obtain ⟨d, hd, hpieces⟩ := pieces_defaultDeclaration head tail he.lineEnds
  refine ⟨?_, ?_⟩
  · rw [declare, hpieces, nameDeclarations_found hd]
    rfl
  · have hfindings : Text.findings defaultDeclaration?
        ((Statement.defaultDeclaration head tail).text ++ e)
        = d :: Text.findings defaultDeclaration? e.tail := by
      rw [Text.findings, hpieces, List.cons_append, List.filterMap_cons, List.filterMap_append,
        Text.filterMap_passed]
      rfl
    have hunnamed : unnamed [⟨.declaration, tail.name?⟩] = if isMissing d.name then 1 else 0 := by
      rw [isReadAs_name? hd]
      by_cases hmissing : isMissing d.name = true
      · simp [unnamed, hmissing]
      · simp [unnamed, hmissing]
    rw [missing, hfindings, List.countP_cons, hunnamed, Nat.add_comm]
    rfl

/-- The statement that the pass makes of one, where `count` exports without a name came before. -/
def Statement.declared (count : Nat) : Statement → Statement
  | defaultDeclaration head tail => plain (tail.lines head count)
  | s => s

theorem Statement.exists_declaration {s : Statement} (hs : s.stage = 6) :
    ∃ head tail, s = defaultDeclaration head tail := by
  cases s with
  | defaultDeclaration head tail => exact ⟨head, tail, rfl⟩
  | _ => exact absurd hs (by simp [stage])

theorem Statement.declared_of_lt {s : Statement} (hs : 6 < s.stage) (count : Nat) :
    s.declared count = s := by
  cases s with
  | defaultDeclaration head tail => exact absurd hs (Nat.lt_irrefl 6)
  | _ => rfl

/-- A statement that the pass meets becomes one of a later stage, with the same values. -/
theorem declares_statement {s : Statement} (hs : 6 ≤ s.stage) (he : Follows e) (count : Nat) :
    6 < (s.declared count).stage ∧
      ofForm .value (s.declared count).defaultExports = ofForm .value s.defaultExports ∧
      Declares count (s.text ++ e) ((s.declared count).text ++ e.take 1) e.tail
        (ofForm .declaration s.defaultExports) := by
  by_cases hlt : 6 < s.stage
  · have hnil : ofForm .declaration s.defaultExports = [] :=
      Statement.ofForm_eq_nil (Nat.ne_of_lt hlt)
    rw [hnil, Statement.declared_of_lt hlt]
    exact ⟨hlt, rfl, declares_later hlt he count⟩
  · obtain ⟨head, tail, rfl⟩ := Statement.exists_declaration (s := s) (by omega)
    exact ⟨Nat.lt_succ_of_lt (Nat.lt_succ_self 6), rfl, declares_declaration head tail he count⟩

/-- The code that the pass makes of statements. -/
def declaredFrom (count : Nat) : List Statement → Option Statement → Code
  | [], last => ⟨[], last.map (Statement.declared count)⟩
  | s :: closed, last => Code.cons (s.declared count)
      (declaredFrom (count + unnamed (ofForm .declaration s.defaultExports)) closed last)

/-- The code that the pass makes of code. -/
def Code.declared (count : Nat) (c : Code) : Code := declaredFrom count c.closed c.last

/-- **The pass for functions and classes reports the default exports that are functions and
classes**, and makes code of it in which the values are the same. -/
theorem declare_text (c : Code) (hc : ∀ s ∈ c.statements, 6 ≤ s.stage) (count : Nat) :
    (∀ s ∈ (c.declared count).statements, 6 < s.stage) ∧
      ofForm .value (c.declared count).defaultExports = ofForm .value c.defaultExports ∧
      declare count c.text
        = ⟨(c.declared count).text, named count (ofForm .declaration c.defaultExports)⟩ ∧
      missing c.text = unnamed (ofForm .declaration c.defaultExports) := by
  -- how many have no name is not known in front, so the induction is for every count
  induction c using Code.inductionOn generalizing count with
  | nil => exact ⟨fun s hs => absurd hs List.not_mem_nil, rfl, rfl, rfl⟩
  | last s =>
    obtain ⟨hstage, hvalues, hdeclares⟩ :=
      declares_statement (hc s List.mem_cons_self) follows_nil count
    have hdeclared : (Code.mk [] (some s)).declared count = ⟨[], some (s.declared count)⟩ := rfl
    rw [hdeclared]
    refine ⟨?_, ?_, ?_, ?_⟩
    · intro u hu
      rw [List.mem_singleton.mp hu]
      exact hstage
    · rw [Code.ofForm_last, Code.ofForm_last, hvalues]
    · rw [Code.text_last, Code.text_last, Code.ofForm_last, hdeclares.declare_eq]
      exact congrArg₂ Named.mk (List.append_nil _) (List.append_nil _)
    · rw [Code.text_last, Code.ofForm_last, hdeclares.missing_eq]
      rfl
  | cons s c ih =>
    obtain ⟨hstage, hvalues, hdeclares⟩ :=
      declares_statement (hc s List.mem_cons_self) c.follows count
    obtain ⟨hstages, hvaluesc, hdeclare, hmissing⟩ := ih
      (fun u hu => hc u (List.mem_cons_of_mem s hu))
      (count + unnamed (ofForm .declaration s.defaultExports))
    have hdeclared : (Code.cons s c).declared count = Code.cons (s.declared count)
        (c.declared (count + unnamed (ofForm .declaration s.defaultExports))) := rfl
    rw [hdeclared]
    refine ⟨?_, ?_, ?_, ?_⟩
    · intro u hu
      rcases List.mem_cons.mp hu with rfl | hu
      · exact hstage
      · exact hstages u hu
    · rw [Code.ofForm_cons, Code.ofForm_cons, hvalues, hvaluesc]
    · rw [Code.text_cons, Code.text_cons, Code.ofForm_cons, named_append, hdeclares.declare_eq,
        List.tail_cons, hdeclare]
      simp
    · rw [Code.text_cons, hdeclares.missing_eq, List.tail_cons, hmissing, Code.ofForm_cons,
        unnamed_append]

/-! ### Values -/

theorem names_nameExpressions_passed (count : Nat) (w : Text)
    (ps : List (Piece DefaultExpression)) :
    (nameExpressions count (w.map .passed ++ ps)).names = (nameExpressions count ps).names := by
  induction w with
  | nil => rfl
  | cons c w ih => exact ih

theorem Statement.exists_value {s : Statement} (hs : s.stage = 7) : ∃ v, s = defaultValue v := by
  cases s with
  | defaultValue v => exact ⟨v, rfl⟩
  | _ => exact absurd hs (by simp [stage])

/-- The names that the pass for values reports. -/
def express (count : Nat) (s : Text) : List Text :=
  (nameExpressions count (Text.pieces defaultExpression? s)).names

theorem express_statement {s : Statement} (hs : 7 ≤ s.stage) (he : Follows e) (count : Nat) :
    express count (s.text ++ e) = named count (ofForm .value s.defaultExports) ++
      express (count + unnamed (ofForm .value s.defaultExports)) e.tail := by
  by_cases hlt : 7 < s.stage
  · have hnil : ofForm .value s.defaultExports = [] := Statement.ofForm_eq_nil (Nat.ne_of_lt hlt)
    rw [hnil, express, spares_defaultExpression.pieces_eq hlt he, names_nameExpressions_passed]
    rfl
  · obtain ⟨v, rfl⟩ := Statement.exists_value (s := s) (by omega)
    obtain ⟨w, hpieces⟩ := pieces_defaultValue v he.lineEnds
    have hvalue : ofForm .value (Statement.defaultValue v).defaultExports = [⟨.value, v.name?⟩] := rfl
    rw [hvalue, express, hpieces, List.cons_append, nameExpressions]
    cases hname : v.name? with
    | none => exact congrArg (anonymousName (count + 1) :: ·) (names_nameExpressions_passed _ w _)
    | some name => exact congrArg (name :: ·) (names_nameExpressions_passed _ w _)

/-- **The pass for values reports the default exports that are values.** -/
theorem express_text (c : Code) (hc : ∀ s ∈ c.statements, 7 ≤ s.stage) (count : Nat) :
    express count c.text = named count (ofForm .value c.defaultExports) := by
  induction c using Code.inductionOn generalizing count with
  | nil => rfl
  | last s =>
    rw [Code.text_last, Code.ofForm_last, express_statement (hc s List.mem_cons_self) follows_nil]
    exact List.append_nil _
  | cons s c ih =>
    rw [Code.text_cons, Code.ofForm_cons, express_statement (hc s List.mem_cons_self) c.follows,
      List.tail_cons, ih fun u hu => hc u (List.mem_cons_of_mem s hu), named_append]

end LivePreview.Module
