/-
Taking statements out makes code less.

A pass over the code looks at every line start.  Either it finds nothing and the code stays as it
is, or the code has fewer characters that can be seen than before: `Spared`.  What is written in
place of a finding is less than the finding, unless it is a name for a default export that has none.
So, as long as no name is given, code that can be seen as much of behind all passes as in front of
them has no statement that any pass finds.
-/
import LivePreview.Proofs.Module.ReaderEnd
import LivePreview.Proofs.Module.DefaultExports

namespace LivePreview

/-! ### Going over a text -/

namespace Text

variable {α : Type} {find : Text → Option (α × Text)} {w : α → Nat} {write : α → Text} {s : Text}

/-- How much can be seen of a piece, where `w` says it of a finding. -/
def Piece.weight (w : α → Nat) : Piece α → Nat
  | .passed c => visible [c]
  | .found a => w a

/-- What is written for a finding is less than the finding. -/
def Lessens (find : Text → Option (α × Text)) (w : α → Nat) : Prop :=
  ∀ s a rest, find s = some (a, rest) → rest <:+ s ∧ w a + visible rest < visible s

theorem weight_piecesFrom (hfind : Lessens find w) (b : Bool) (n : Nat) (s : Text) :
    ((piecesFrom find b n s).map (Piece.weight w)).sum +
      ((piecesFrom find b n s).filterMap Piece.finding?).length ≤ visible (s.drop n) := by
  induction s generalizing b n with
  | nil => cases n <;> exact Nat.le_refl 0
  | cons c s ih =>
    cases n with
    | succ n => exact ih (c == '\n') n
    | zero =>
      rw [List.drop_zero, piecesFrom]
      split
      · rename_i a rest hfound
        have hfound : find (c :: s) = some (a, rest) := by
          split at hfound
          · exact hfound
          · cases hfound
        obtain ⟨hsuffix, hless⟩ := hfind _ _ _ hfound
        -- a finding that ends where it starts would not be less
        have htail : rest <:+ s := by
          obtain heq | htail := List.suffix_cons_iff.mp hsuffix
          · rw [heq] at hless
            omega
          · exact htail
        have hdrop : s.drop (s.length - rest.length) = rest := by
          obtain ⟨front, rfl⟩ := htail
          simp
        have hlater := ih (c == '\n') (s.length - rest.length)
        rw [hdrop] at hlater
        have hcount : ∀ ps, (Piece.found a :: ps).filterMap Piece.finding?
            = a :: ps.filterMap Piece.finding? := fun _ => rfl
        have hweight : Piece.weight w (.found a) = w a := rfl
        rw [List.map_cons, List.sum_cons, hcount, List.length_cons, hweight]
        omega
      · have hlater := ih (c == '\n') 0
        rw [List.drop_zero] at hlater
        have hcount : ∀ ps : List (Piece α), (Piece.passed c :: ps).filterMap Piece.finding?
            = ps.filterMap Piece.finding? := fun _ => rfl
        have hweight : Piece.weight w (.passed c) = visible [c] := rfl
        rw [visible_cons, List.map_cons, List.sum_cons, hcount, hweight]
        omega

/-- What is written for the pieces of a text is less for each finding. -/
theorem weight_pieces (hfind : Lessens find w) (s : Text) :
    ((pieces find s).map (Piece.weight w)).sum + (findings find s).length ≤ visible s :=
  weight_piecesFrom hfind true 0 s

theorem visible_flatMap_text (ps : List (Piece α)) :
    visible (ps.flatMap (Piece.text write))
      = (ps.map (Piece.weight fun a => visible (write a))).sum := by
  induction ps with
  | nil => rfl
  | cons p ps ih =>
    rw [List.flatMap_cons, visible_append, ih, List.map_cons, List.sum_cons]
    cases p <;> rfl

/-- Where nothing is found, every character is passed over. -/
theorem piecesFrom_of_findings_eq_nil {b : Bool}
    (h : (piecesFrom find b 0 s).filterMap Piece.finding? = []) :
    piecesFrom find b 0 s = s.map .passed := by
  induction s generalizing b with
  | nil => rfl
  | cons c s ih =>
    rw [piecesFrom] at h ⊢
    split
    · rename_i hfound
      rw [hfound] at h
      cases h
    · rename_i hfound
      rw [hfound] at h
      rw [ih h]
      rfl

theorem pieces_of_findings_eq_nil (h : findings find s = []) : pieces find s = s.map .passed :=
  piecesFrom_of_findings_eq_nil h

end Text

namespace Module

open Text (Piece Lessens findings pieces replaceFindings visible)

variable {α : Type} {find : Text → Option (α × Text)} {write : α → Text} {s s' code : Text}

/-! ### One pass -/

/-- A pass that finds nothing leaves the text, and one that finds something makes it less, as `m`
measures it. -/
def Spared (m : Text → Nat) (find : Text → Option (α × Text)) (s s' : Text) : Prop :=
  findings find s = [] ∧ s' = s ∨ m s' < m s

namespace Spared

variable {m : Text → Nat}

theorem measure_le (h : Spared m find s s') : m s' ≤ m s := by
  obtain ⟨-, rfl⟩ | hlt := h
  · exact Nat.le_refl _
  · exact Nat.le_of_lt hlt

theorem of_le (h : Spared m find s s') (hle : m s ≤ m s') : findings find s = [] ∧ s' = s := by
  obtain hnone | hlt := h
  · exact hnone
  · omega

end Spared

/-- A pass that writes `s'` for the pieces of `s`. -/
theorem spared_of_weight {w : α → Nat} (hfind : Lessens find w)
    (hnone : findings find s = [] → s' = s)
    (hweight : visible s' = ((pieces find s).map (Piece.weight w)).sum) :
    Spared visible find s s' := by
  by_cases h : findings find s = []
  · exact Or.inl ⟨h, hnone h⟩
  · have hless := Text.weight_pieces hfind s
    have hpos := List.length_pos_iff.mpr h
    exact Or.inr (by omega)

theorem replaceFindings_of_findings_eq_nil (h : findings find s = []) :
    replaceFindings find write s = s := by
  rw [replaceFindings, Text.pieces_of_findings_eq_nil h, Text.flatMap_passed]

theorem spared_replaceFindings (hfind : Lessens find fun a => visible (write a)) (s : Text) :
    Spared visible find s (replaceFindings find write s) :=
  spared_of_weight hfind replaceFindings_of_findings_eq_nil (Text.visible_flatMap_text _)

theorem lessens_of_behindWord (h : ∀ s a rest, find s = some (a, rest) → BehindWord s rest) :
    Lessens find fun _ => 0 := by
  intro s a rest hfound
  have hcut := (h s a rest hfound).cutOff
  exact ⟨hcut.suffix, by rw [Nat.zero_add]; exact hcut.visible_lt⟩

/-- A pass that takes out what it finds. -/
theorem spared_remove (find : Text → Option (α × Text))
    (h : ∀ s a rest, find s = some (a, rest) → BehindWord s rest) (s : Text) :
    Spared visible find s (remove find s).1 :=
  spared_replaceFindings (lessens_of_behindWord h) s

theorem visible_eq_zero_of_inline (h : ∀ c ∈ s, isInline c = true) : visible s = 0 := by
  rw [Text.visible_eq_zero_iff, Text.isBlankText, List.all_eq_true]
  exact fun c hc => Text.isSpace_of_isInline (h c hc)

/-! ### Passes that leave something -/

/-- True of a name that looks like one given to a default export that has none. -/
def LooksGiven (name : Text) : Prop := (Text.after? (anonymousName 1) name).isSome = true

theorem looksGiven_anonymousName (n : Nat) : LooksGiven (anonymousName n) := by
  have hone : anonymousName 1 = "DefaultExport".toList := by
    unfold anonymousName
    rw [if_pos (Nat.le_refl 1)]
    exact List.append_nil _
  unfold LooksGiven
  rw [hone]
  unfold anonymousName
  rw [Text.after?_append_self, Option.isSome_some]

theorem lessens_defaultDeclaration : Lessens defaultDeclaration? fun d =>
    visible (d.indent ++ d.head ++ d.gap ++ d.name) := by
  intro s d rest hfound
  obtain ⟨hbehind, hindent⟩ := behindWord_defaultDeclaration? hfound
  have hvisible := hbehind.cutOff.visible_lt
  refine ⟨(List.suffix_append _ rest).trans hbehind.cutOff.suffix, ?_⟩
  simp only [Text.visible_append, visible_eq_zero_of_inline hindent] at hvisible ⊢
  omega

/-- Where no name is given, a declaration is written as it was read. -/
theorem visible_nameDeclarations {count : Nat} {ps : List (Piece DefaultDeclaration)}
    (hgiven : ∀ name ∈ (nameDeclarations count ps).names, ¬LooksGiven name) :
    visible (nameDeclarations count ps).code
      = (ps.map (Piece.weight fun d => visible (d.indent ++ d.head ++ d.gap ++ d.name))).sum := by
  induction ps generalizing count with
  | nil => rfl
  | cons p ps ih =>
    cases p with
    | passed c =>
      rw [List.map_cons, List.sum_cons, ← ih hgiven]
      exact Text.visible_append [c] _
    | found d =>
      rw [nameDeclarations] at hgiven ⊢
      split
      · rename_i hmissing
        rw [if_pos hmissing] at hgiven
        exact absurd (looksGiven_anonymousName _) (hgiven _ List.mem_cons_self)
      · rename_i hnamed
        rw [if_neg hnamed] at hgiven
        rw [List.map_cons, List.sum_cons,
          ← ih fun name hname => hgiven name (List.mem_cons_of_mem _ hname)]
        exact Text.visible_append _ _

theorem nameDeclarations_map_passed (count : Nat) (s : Text) :
    nameDeclarations count (s.map .passed) = ⟨s, []⟩ := by
  induction s with
  | nil => rfl
  | cons c s ih =>
    rw [List.map_cons, nameDeclarations, ih]
    rfl

theorem spared_declare {count : Nat} (hgiven : ∀ name ∈ (declare count s).names, ¬LooksGiven name) :
    Spared visible defaultDeclaration? s (declare count s).code := by
  refine spared_of_weight lessens_defaultDeclaration ?_ (visible_nameDeclarations hgiven)
  intro hnone
  rw [declare, Text.pieces_of_findings_eq_nil hnone, nameDeclarations_map_passed]

/-- Where no name is given, nothing is written for an expression. -/
theorem visible_nameExpressions {count : Nat} {ps : List (Piece DefaultExpression)}
    (hgiven : ∀ name ∈ (nameExpressions count ps).names, ¬LooksGiven name) :
    visible (nameExpressions count ps).code = (ps.map (Piece.weight fun _ => 0)).sum := by
  induction ps generalizing count with
  | nil => rfl
  | cons p ps ih =>
    cases p with
    | passed c =>
      rw [List.map_cons, List.sum_cons, ← ih hgiven]
      exact Text.visible_append [c] _
    | found d =>
      rw [nameExpressions] at hgiven ⊢
      split
      · rename_i name hreference
        rw [hreference] at hgiven
        rw [List.map_cons, List.sum_cons,
          ← ih fun name hname => hgiven name (List.mem_cons_of_mem _ hname)]
        exact (Nat.zero_add _).symm
      · rename_i hreference
        rw [hreference] at hgiven
        exact absurd (looksGiven_anonymousName _) (hgiven _ List.mem_cons_self)

theorem nameExpressions_map_passed (count : Nat) (s : Text) :
    nameExpressions count (s.map .passed) = ⟨s, []⟩ := by
  induction s with
  | nil => rfl
  | cons c s ih =>
    rw [List.map_cons, nameExpressions, ih]
    rfl

theorem spared_nameExpressions {count : Nat}
    (hgiven : ∀ name ∈ (nameExpressions count (pieces defaultExpression? s)).names,
      ¬LooksGiven name) :
    Spared visible defaultExpression? s (nameExpressions count (pieces defaultExpression? s)).code := by
  have hless : Lessens defaultExpression? fun _ => 0 :=
    lessens_of_behindWord fun _ _ _ hfound => (behindWord_defaultExpression? hfound).1
  refine spared_of_weight hless ?_ (visible_nameExpressions hgiven)
  intro hnone
  rw [Text.pieces_of_findings_eq_nil hnone, nameExpressions_map_passed]

theorem lessens_exportedDeclaration : Lessens exportedDeclaration? visible := by
  intro s kept rest hfound
  obtain ⟨words, rfl, hbehind⟩ := behindWord_exportedDeclaration? hfound
  have hindent : visible (indentOf s) = 0 :=
    visible_eq_zero_of_inline fun c hc => List.mem_takeWhile_imp hc
  have hvisible := hbehind.cutOff.visible_lt
  refine ⟨(List.suffix_append words rest).trans hbehind.cutOff.suffix, ?_⟩
  rw [Text.visible_append] at hvisible ⊢
  omega

/-! ### All passes -/

/-- Code in which no reader of module statements finds anything. -/
structure HoldsNoStatement (code : Text) : Prop where
  required : findings importRequire? code = []
  imported : findings importFrom? code = []
  loaded : findings importSource? code = []
  listed : findings exportList? code = []
  starred : findings exportStar? code = []
  assigned : findings exportAssign? code = []
  declared : findings defaultDeclaration? code = []
  expressed : findings defaultExpression? code = []
  exported : findings exportedDeclaration? code = []

theorem findings_eq_nil_of_linesAvoid {find : Text → Option (α × Text)}
    (hfind : ∀ t, opensStatement t = false → find t = none)
    (h : Text.linesAvoid opensStatement true code = true) : findings find code = [] := by
  have hpieces : pieces find (code ++ []) = code.map .passed ++ Text.piecesFrom find _ 0 [] :=
    Text.piecesFrom_avoid true (fun t ht => hfind _ (by rw [List.append_nil, ht])) h
  rw [List.append_nil] at hpieces
  rw [findings, hpieces, List.filterMap_append, Text.filterMap_passed]
  rfl

/-- Code of which no line starts with the word `import` or `export`. -/
theorem holdsNoStatement_of_linesAvoid (h : Text.linesAvoid opensStatement true code = true) :
    HoldsNoStatement code where
  required := findings_eq_nil_of_linesAvoid (fun _ => importRequire?_eq_none) h
  imported := findings_eq_nil_of_linesAvoid (fun _ => importFrom?_eq_none) h
  loaded := findings_eq_nil_of_linesAvoid (fun _ => importSource?_eq_none) h
  listed := findings_eq_nil_of_linesAvoid (fun _ => exportList?_eq_none) h
  starred := findings_eq_nil_of_linesAvoid (fun _ => exportStar?_eq_none) h
  assigned := findings_eq_nil_of_linesAvoid (fun _ => exportAssign?_eq_none) h
  declared := findings_eq_nil_of_linesAvoid (fun _ => defaultDeclaration?_eq_none) h
  expressed := findings_eq_nil_of_linesAvoid (fun _ => defaultExpression?_eq_none) h
  exported := findings_eq_nil_of_linesAvoid (fun _ => exportedDeclaration?_eq_none) h

/-- **Code without module statements stays as it is.** -/
theorem strip_of_holdsNoStatement (h : HoldsNoStatement code) : strip code = ⟨code, [], []⟩ := by
  have hremove : ∀ {α : Type} {find : Text → Option (α × Text)}, findings find code = [] →
      remove find code = (code, []) := by
    intro α find hnone
    rw [remove, hnone, replaceFindings_of_findings_eq_nil hnone]
  unfold strip
  simp only [hremove h.required, hremove h.imported, hremove h.loaded, hremove h.listed,
    hremove h.starred, hremove h.assigned, Text.pieces_of_findings_eq_nil h.declared,
    Text.pieces_of_findings_eq_nil h.expressed, nameDeclarations_map_passed,
    nameExpressions_map_passed, replaceFindings_of_findings_eq_nil h.exported]
  rfl

/-- The code behind the passes that take whole statements out. -/
def unstated (code : Text) : Text :=
  (remove exportAssign? (remove exportStar? (remove exportList? (remove importSource?
    (remove importFrom? (remove importRequire? code).1).1).1).1).1).1

/-- The pass for values. -/
def named? (code : Text) : Named :=
  nameExpressions (missing code) (pieces defaultExpression? (declare 0 code).code)

theorem strip_code (code : Text) :
    (strip code).code = replaceFindings exportedDeclaration? id (named? (unstated code)).code := by
  unfold strip unstated named? missing declare findings remove
  dsimp only

theorem exists_defaultExports_eq (code : Text) : ∃ listed, (strip code).defaultExports
    = listed ++ (declare 0 (unstated code)).names ++ (named? (unstated code)).names := by
  unfold strip unstated named? missing declare findings remove
  dsimp only
  exact ⟨_, rfl⟩

/-- **Passes that spare the code.**  Behind all of them the code is no more than before, and if it
is no less, then no pass has found anything. -/
theorem spared_strip {m : Text → Nat}
    (hremove : ∀ {α : Type} (find : Text → Option (α × Text)),
      (∀ s a rest, find s = some (a, rest) → BehindWord s rest) →
        ∀ s, Spared m find s (remove find s).1)
    (h₇ : Spared m defaultDeclaration? (unstated code) (declare 0 (unstated code)).code)
    (h₈ : Spared m defaultExpression? (declare 0 (unstated code)).code
      (named? (unstated code)).code)
    (h₉ : Spared m exportedDeclaration? (named? (unstated code)).code (strip code).code) :
    m (strip code).code ≤ m code ∧ (m code ≤ m (strip code).code → HoldsNoStatement code) := by
  have h₁ := hremove importRequire? (fun _ _ _ => behindWord_importRequire?) code
  have h₂ := hremove importFrom? (fun _ _ _ => behindWord_importFrom?) (remove importRequire? code).1
  have h₃ := hremove importSource? (fun _ _ _ => behindWord_importSource?)
    (remove importFrom? (remove importRequire? code).1).1
  have h₄ := hremove exportList? (fun _ _ _ => behindWord_exportList?)
    (remove importSource? (remove importFrom? (remove importRequire? code).1).1).1
  have h₅ := hremove exportStar? (fun _ _ _ => behindWord_exportStar?) (remove exportList?
    (remove importSource? (remove importFrom? (remove importRequire? code).1).1).1).1
  have h₆ : Spared m exportAssign? _ (unstated code) :=
    hremove exportAssign? (fun _ _ _ => behindWord_exportAssign?) _
  generalize unstated code = c₆ at *
  generalize (declare 0 c₆).code = c₇ at *
  generalize (named? c₆).code = c₈ at *
  generalize (remove exportStar? _).1 = c₅ at *
  generalize (remove exportList? _).1 = c₄ at *
  generalize (remove importSource? _).1 = c₃ at *
  generalize (remove importFrom? _).1 = c₂ at *
  generalize (remove importRequire? _).1 = c₁ at *
  have l₈ := h₉.measure_le
  have l₇ := l₈.trans h₈.measure_le
  have l₆ := l₇.trans h₇.measure_le
  have l₅ := l₆.trans h₆.measure_le
  have l₄ := l₅.trans h₅.measure_le
  have l₃ := l₄.trans h₄.measure_le
  have l₂ := l₃.trans h₃.measure_le
  have l₁ := l₂.trans h₂.measure_le
  refine ⟨l₁.trans h₁.measure_le, fun hle => ?_⟩
  -- each pass finds nothing, so the next one goes over the same code
  obtain ⟨required, rfl⟩ := h₁.of_le (hle.trans l₁)
  obtain ⟨imported, rfl⟩ := h₂.of_le (hle.trans l₂)
  obtain ⟨loaded, rfl⟩ := h₃.of_le (hle.trans l₃)
  obtain ⟨listed, rfl⟩ := h₄.of_le (hle.trans l₄)
  obtain ⟨starred, rfl⟩ := h₅.of_le (hle.trans l₅)
  obtain ⟨assigned, rfl⟩ := h₆.of_le (hle.trans l₆)
  obtain ⟨declared, rfl⟩ := h₇.of_le (hle.trans l₇)
  obtain ⟨expressed, rfl⟩ := h₈.of_le (hle.trans l₈)
  obtain ⟨exported, -⟩ := h₉.of_le hle
  exact ⟨required, imported, loaded, listed, starred, assigned, declared, expressed, exported⟩

/-- Where no default export is given a name, no more of the code can be seen behind all passes, and
as much only if no pass has found anything. -/
theorem visible_strip (hgiven : ∀ name ∈ (strip code).defaultExports, ¬LooksGiven name) :
    visible (strip code).code ≤ visible code ∧
      (visible code ≤ visible (strip code).code → HoldsNoStatement code) := by
  obtain ⟨listed, hexports⟩ := exists_defaultExports_eq code
  rw [hexports] at hgiven
  have hdeclared : ∀ name ∈ (declare 0 (unstated code)).names, ¬LooksGiven name :=
    fun name hname => hgiven name (List.mem_append_left _ (List.mem_append_right _ hname))
  have hexpressed : ∀ name ∈ (named? (unstated code)).names, ¬LooksGiven name :=
    fun name hname => hgiven name (List.mem_append_right _ hname)
  refine spared_strip spared_remove (spared_declare hdeclared) (spared_nameExpressions hexpressed) ?_
  rw [strip_code]
  exact spared_replaceFindings lessens_exportedDeclaration _

theorem visible_strip_le (hgiven : ∀ name ∈ (strip code).defaultExports, ¬LooksGiven name) :
    visible (strip code).code ≤ visible code :=
  (visible_strip hgiven).1

/-- **Code that is not less behind all passes has no module statement that a pass finds.** -/
theorem holdsNoStatement_of_visible
    (hgiven : ∀ name ∈ (strip code).defaultExports, ¬LooksGiven name)
    (hle : visible code ≤ visible (strip code).code) : HoldsNoStatement code :=
  (visible_strip hgiven).2 hle

end Module

end LivePreview
