/-
Going over code in passes.

A pass takes the statements of one form out of the whole text and leaves the rest of it as it
is.  The forms are taken in a fixed order, so when it is the turn of a form, the reader meets
none of the forms before it.  What it does with a statement it does in front of any others: so
a pass is gone over one statement at a time, by induction on the code.
-/
import LivePreview.Proofs.Module.DefaultForms
import LivePreview.Proofs.Module.ImportForms

namespace LivePreview.Module

open Script
open Text (LineEnds linesAvoid Piece)

variable {e : Text}

/-! ### Code, one statement after the other -/

namespace Code

/-- Code with one more statement in front. -/
def cons (s : Statement) (c : Code) : Code := ⟨s :: c.closed, c.last⟩

@[elab_as_elim]
theorem inductionOn {motive : Code → Prop} (c : Code) (nil : motive ⟨[], none⟩)
    (last : ∀ s, motive ⟨[], some s⟩) (cons : ∀ s c, motive c → motive (cons s c)) : motive c := by
  obtain ⟨closed, end?⟩ := c
  induction closed with
  | nil =>
    cases end? with
    | none => exact nil
    | some s => exact last s
  | cons s closed ih => exact cons s ⟨closed, end?⟩ ih

theorem text_last (s : Statement) : (Code.mk [] (some s)).text = s.text ++ [] :=
  (List.append_nil s.text).symm

theorem text_cons (s : Statement) (c : Code) : (cons s c).text = s.text ++ '\n' :: c.text := rfl

@[simp] theorem statements_last (s : Statement) : (Code.mk [] (some s)).statements = [s] := rfl

@[simp] theorem statements_cons (s : Statement) (c : Code) :
    (cons s c).statements = s :: c.statements := rfl

theorem filter_last (p : Statement → Bool) (s : Statement) :
    ((Code.mk [] (some s)).filter p).text = if p s then s.text ++ [] else [] := by
  by_cases h : p s = true
  · simp [filter, Option.filter, h, text, closedText, lastText]
  · simp [filter, Option.filter, h, text, closedText, lastText]

theorem filter_cons (p : Statement → Bool) (s : Statement) (c : Code) :
    ((cons s c).filter p).text
      = (if p s then s.text ++ ['\n'] else []) ++ (c.filter p).text := by
  by_cases h : p s = true
  · simp [filter, cons, h, text, closedText]
  · simp [filter, cons, h, text, closedText]

@[simp] theorem statements_filter (p : Statement → Bool) (c : Code) :
    (c.filter p).statements = c.statements.filter p := by
  obtain ⟨closed, last⟩ := c
  cases last with
  | none => simp [statements, filter]
  | some s =>
    by_cases h : p s = true
    · simp [statements, filter, Option.filter, h]
    · simp [statements, filter, Option.filter, h]

end Code

/-! ### What stands behind a statement -/

/-- No statement starts with the word `from`. -/
theorem Statement.notFrom (s : Statement) :
    startsWord "from".toList (Text.skipSpaces s.text) = false := by
  cases s with
  | plain lines => exact lines.notFrom
  | _ => rfl

theorem Code.notFrom (c : Code) : startsWord "from".toList (Text.skipSpaces c.text) = false := by
  induction c using Code.inductionOn with
  | nil => rfl
  | last s => exact s.notFrom
  | cons s c ih =>
    rw [Code.text_cons, Text.skipSpaces, List.dropWhile_append]
    split
    · exact ih
    · have happend := startsWord_append (s := Text.skipSpaces s.text) (LineEnds.newline c.text)
        (w := "from".toList) (by decide)
      exact happend.trans s.notFrom

theorem follows_nil : Follows [] := ⟨.nil, rfl⟩

theorem Code.follows (c : Code) : Follows ('\n' :: c.text) := by
  refine ⟨.newline c.text, ?_⟩
  show fromSource? c.text = none
  rw [fromSource?]
  cases hr : Text.after? "from".toList (Text.skipSpaces c.text) with
  | none => rfl
  | some r =>
    obtain ⟨d, t, rfl, hd⟩ := exists_cons_of_not_startsWord c.notFrom hr
    simp [skipSpaces_cons (isSpace_eq_false_of_isIdentChar hd),
      source?_eq_none (isQuote_eq_false_of_isIdentChar hd)]

/-! ### Later lines of a statement -/

theorem Identifier.noNewline (x : Identifier) : '\n' ∉ x.text :=
  fun h => absurd (x.isIdentChar _ h) (by decide)

theorem SourceName.noNewline (source : SourceName) : '\n' ∉ source.text := by
  have hquote : '\n' ≠ source.quote := (source.ne_of_quote rfl).symm
  have hname : '\n' ∉ source.name :=
    fun h => absurd (List.all_eq_true.mp source.isSource _ h) (by decide)
  simp only [SourceName.text, List.mem_append, List.mem_cons, List.not_mem_nil, or_false, not_or]
  exact ⟨⟨hquote, hname⟩, hquote⟩

theorem noNewline_semicolon (semi : Bool) : '\n' ∉ semicolon semi := by
  cases semi <;> decide

theorem noNewline_listText (items : List ListItem) : '\n' ∉ listText items :=
  fun h => ne_of_mem_listText rfl (by decide) (by decide) _ h rfl

theorem noNewline_fromText (source : Option SourceName) : '\n' ∉ fromText source := by
  cases source with
  | none => exact List.not_mem_nil
  | some source =>
    show '\n' ∉ " from ".toList ++ source.text
    simp only [List.mem_append, not_or]
    exact ⟨by decide, source.noNewline⟩

theorem noNewline_aliasText (name : Option Identifier) : '\n' ∉ aliasText name := by
  cases name with
  | none => exact List.not_mem_nil
  | some x =>
    show '\n' ∉ " as ".toList ++ x.text
    simp only [List.mem_append, not_or]
    exact ⟨by decide, x.noNewline⟩

/-- The word behind a clause is no import or export, if it comes to stand at the start of a
line. -/
theorem opensStatement_append_from {s u : Text} (h : opensStatement s = false) :
    opensStatement (s ++ ' ' :: 'f' :: u) = false := by
  have hword : ∀ w : Text, ' ' ∉ w → startsWord w ('f' :: u) = false →
      startsWord w (Text.skipInline s) = false →
      startsWord w (Text.skipInline (s ++ ' ' :: 'f' :: u)) = false := by
    intro w hw hfrom hs
    rw [Text.skipInline, List.dropWhile_append]
    split
    · exact hfrom
    · exact (startsWord_append_cons hw rfl).trans hs
  refine Bool.or_eq_false_iff.mpr ⟨?_, ?_⟩
  · exact hword "import".toList (by decide) rfl (startsWord_import h)
  · exact hword "export".toList (by decide) rfl (startsWord_export h)

theorem linesAvoid_append_from {s u : Text} (b : Bool) (hu : '\n' ∉ u)
    (h : linesAvoid opensStatement b s = true) :
    linesAvoid opensStatement b (s ++ ' ' :: 'f' :: u) = true := by
  induction s generalizing b with
  | nil =>
    have hfrom : opensStatement (' ' :: 'f' :: u) = false := opensStatement_append_from (s := []) rfl
    have hnone : '\n' ∉ ' ' :: 'f' :: u := by
      simp only [List.mem_cons, not_or]
      exact ⟨by decide, by decide, hu⟩
    have hlater : linesAvoid opensStatement false (' ' :: 'f' :: u) = true :=
      Text.linesAvoid_of_noNewline hnone
    exact Text.linesAvoid_of_true b (Text.linesAvoid_of_false hfrom hlater)
  | cons c s ih =>
    simp only [linesAvoid, Bool.and_eq_true, Bool.not_eq_true', Bool.and_eq_false_iff] at h
    simp only [List.cons_append, linesAvoid, Bool.and_eq_true, Bool.not_eq_true',
      Bool.and_eq_false_iff]
    exact ⟨h.1.imp_right opensStatement_append_from, ih (c == '\n') h.2⟩

/-- Only the first line of a statement starts like one. -/
theorem Statement.avoids (s : Statement) : linesAvoid opensStatement false s.text = true := by
  cases s with
  | plain lines => exact Text.linesAvoid_of_true false lines.avoids
  | importFrom clause source semi =>
    -- a clause may take up lines, and what stands behind it belongs to its last one
    have htext : (importFrom clause source semi).text = "import ".toList ++ (clause.text ++
        ' ' :: 'f' :: ("rom ".toList ++ source.text ++ semicolon semi)) := by
      show "import ".toList ++ clause.text ++ " from ".toList ++ source.text ++ semicolon semi = _
      simp only [List.append_assoc]
      rfl
    have hsource : '\n' ∉ "rom ".toList ++ source.text ++ semicolon semi := by
      simp only [List.mem_append, not_or]
      exact ⟨⟨by decide, source.noNewline⟩, noNewline_semicolon semi⟩
    rw [htext, Text.linesAvoid_append (by decide)]
    exact linesAvoid_append_from false hsource clause.avoids
  | exported d =>
    show linesAvoid opensStatement false ("export ".toList ++ d.text) = true
    rw [Text.linesAvoid_append (by decide)]
    exact d.avoids
  | defaultDeclaration head tail =>
    show linesAvoid opensStatement false ("export default ".toList ++ head.text ++ tail.text) = true
    rw [List.append_assoc, Text.linesAvoid_append (by decide),
      Text.linesAvoid_append head.noNewline]
    exact tail.avoids
  | defaultValue v =>
    show linesAvoid opensStatement false ("export default ".toList ++ v.text) = true
    rw [Text.linesAvoid_append (by decide)]
    exact v.avoids
  | importRequire name source semi =>
    refine Text.linesAvoid_of_noNewline ?_
    show '\n' ∉ "import ".toList ++ name.text ++ " = require(".toList ++ source.text ++
      ')' :: semicolon semi
    simp only [List.mem_append, List.mem_cons, not_or]
    exact ⟨⟨⟨⟨by decide, name.noNewline⟩, by decide⟩, source.noNewline⟩, by decide,
      noNewline_semicolon semi⟩
  | importSource source semi =>
    refine Text.linesAvoid_of_noNewline ?_
    show '\n' ∉ "import ".toList ++ source.text ++ semicolon semi
    simp only [List.mem_append, not_or]
    exact ⟨⟨by decide, source.noNewline⟩, noNewline_semicolon semi⟩
  | exportList items source semi =>
    refine Text.linesAvoid_of_noNewline ?_
    show '\n' ∉ "export \x7b ".toList ++ listText items ++ " \x7d".toList ++ fromText source ++
      semicolon semi
    simp only [List.mem_append, not_or]
    exact ⟨⟨⟨⟨by decide, noNewline_listText items⟩, by decide⟩, noNewline_fromText source⟩,
      noNewline_semicolon semi⟩
  | exportAll name source semi =>
    refine Text.linesAvoid_of_noNewline ?_
    show '\n' ∉ "export *".toList ++ aliasText name ++ " from ".toList ++ source.text ++
      semicolon semi
    simp only [List.mem_append, not_or]
    exact ⟨⟨⟨⟨by decide, noNewline_aliasText name⟩, by decide⟩, source.noNewline⟩,
      noNewline_semicolon semi⟩
  | exportAssign name semi =>
    refine Text.linesAvoid_of_noNewline ?_
    show '\n' ∉ "export = ".toList ++ name.text ++ semicolon semi
    simp only [List.mem_append, not_or]
    exact ⟨⟨by decide, name.noNewline⟩, noNewline_semicolon semi⟩

/-! ### Stages -/

/-- The place of a form in the order in which the forms are taken. -/
def Statement.stage : Statement → Nat
  | importRequire .. => 0
  | importFrom .. => 1
  | importSource .. => 2
  | exportList .. => 3
  | exportAll .. => 4
  | exportAssign .. => 5
  | defaultDeclaration .. => 6
  | defaultValue .. => 7
  | exported _ => 8
  | plain _ => 8

/-- What the stages before `k` leave of code. -/
def Code.unread (k : Nat) (c : Code) : Code := c.filter (k ≤ ·.stage)

theorem Code.le_stage_of_mem_unread {k : Nat} {c : Code} :
    ∀ s ∈ (c.unread k).statements, k ≤ s.stage := by
  intro s hs
  rw [unread, statements_filter, List.mem_filter] at hs
  exact of_decide_eq_true hs.2

theorem Code.unread_zero (c : Code) : c.unread 0 = c := by
  obtain ⟨closed, last⟩ := c
  cases last with
  | none => simp [unread, filter]
  | some s => simp [unread, filter, Option.filter]

theorem Code.filter_unread (k : Nat) (c : Code) :
    (c.unread k).filter (k + 1 ≤ ·.stage) = c.unread (k + 1) := by
  have hboth : ∀ n, (decide (k < n) && decide (k ≤ n)) = decide (k < n) := by
    intro n
    by_cases h : k < n
    · simp [h, Nat.le_of_lt h]
    · simp [h]
  have hboth' : ∀ n, (decide (k ≤ n) && decide (k < n)) = decide (k < n) :=
    fun n => (Bool.and_comm _ _).trans (hboth n)
  simp [unread, filter, List.filter_filter, Option.filter_filter, hboth, hboth']

/-- The reader of a stage leaves the statements of later stages alone. -/
structure Spares {α : Type} (k : Nat) (find : Text → Option (α × Text)) : Prop where
  heeds : Text.Heeds opensStatement find
  leaves : ∀ s, k < s.stage → Leaves find s

/-- The reader takes the statements of its stage besides. -/
structure Reads {α : Type} (k : Nat) (find : Text → Option (α × Text)) : Prop
    extends Spares k find where
  takes : ∀ s, s.stage = k → Takes find s

variable {α : Type} {k : Nat} {find : Text → Option (α × Text)} {s : Statement} {a : α}

/-- A statement that is left alone is passed over, and so is the end of its line. -/
theorem Spares.pieces_eq (hf : Spares k find) (hs : k < s.stage) (he : Follows e) :
    Text.pieces find (s.text ++ e)
      = (s.text ++ e.take 1).map .passed ++ Text.pieces find e.tail :=
  hf.heeds.pieces_of_none he.lineEnds (hf.leaves s hs e he) s.avoids

namespace Reads

variable (hr : Reads k find)

include hr

/-- There is no empty statement that is found. -/
theorem text_ne_nil (hs : s.stage = k) : s.text ≠ [] := by
  intro hnil
  obtain ⟨a, ha⟩ := hr.takes s hs [] follows_nil
  have hnone : find [] = none := hr.heeds.none_of_false rfl
  rw [hnil, List.append_nil, hnone] at ha
  cases ha

theorem pieces_of_eq (hs : s.stage = k) (he : Follows e) (h : find (s.text ++ e) = some (a, e.tail)) :
    Text.pieces find (s.text ++ e) = .found a :: Text.pieces find e.tail :=
  Text.Heeds.pieces_of_all he.lineEnds (hr.text_ne_nil hs) h

/-- A pass takes a statement of its stage with the end of its line, and keeps any other. -/
theorem replace_statement (hs : k ≤ s.stage) (he : Follows e) :
    Text.replaceFindings find (fun _ => []) (s.text ++ e)
      = (if k + 1 ≤ s.stage then s.text ++ e.take 1 else [])
        ++ Text.replaceFindings find (fun _ => []) e.tail := by
  unfold Text.replaceFindings
  by_cases hlt : k + 1 ≤ s.stage
  · rw [hr.pieces_eq hlt he, List.flatMap_append, Text.flatMap_passed, if_pos hlt]
  · have heq : s.stage = k := by omega
    obtain ⟨a, ha⟩ := hr.takes s heq e he
    rw [hr.pieces_of_eq heq he ha, if_neg hlt]
    rfl

/-- **A pass takes the statements of its stage.** -/
theorem remove_unread (c : Code) :
    (remove find (c.unread k).text).1 = (c.unread (k + 1)).text := by
  have hstages := Code.le_stage_of_mem_unread (k := k) (c := c)
  rw [← Code.filter_unread]
  show Text.replaceFindings find (fun _ => []) (c.unread k).text = _
  generalize c.unread k = d at hstages ⊢
  induction d using Code.inductionOn with
  | nil => rfl
  | last s =>
    have hs := hr.replace_statement (hstages s List.mem_cons_self) follows_nil
    rw [Code.text_last, Code.filter_last, hs]
    simp [Text.replaceFindings, Text.pieces, Text.piecesFrom]
  | cons s d ih =>
    have hs := hr.replace_statement (hstages s List.mem_cons_self) d.follows
    rw [Code.text_cons, Code.filter_cons, hs, List.tail_cons,
      ih fun t ht => hstages t (List.mem_cons_of_mem s ht)]
    simp

/-- A pass finds nothing but the statements of its stage. -/
theorem findings_statement (hs : k ≤ s.stage) (he : Follows e) :
    ∃ found, Text.findings find (s.text ++ e) = found ++ Text.findings find e.tail ∧
      (k < s.stage → found = []) ∧ ∀ a, s.stage = k → TakesAs find s a → found = [a] := by
  unfold Text.findings
  by_cases hlt : k < s.stage
  · refine ⟨[], ?_, fun _ => rfl, fun a heq => absurd heq (Nat.ne_of_gt hlt)⟩
    rw [hr.pieces_eq hlt he, List.filterMap_append, Text.filterMap_passed]
  · have heq : s.stage = k := by omega
    obtain ⟨a, ha⟩ := hr.takes s heq e he
    refine ⟨[a], ?_, fun h => absurd h hlt, ?_⟩
    · rw [hr.pieces_of_eq heq he ha]
      rfl
    · intro b _ htakes
      have hsame := ha.symm.trans (htakes e he)
      cases hsame
      rfl

end Reads

/-! ### The readers of each stage -/

theorem TakesAs.takes (h : TakesAs find s a) : Takes find s := fun e he => ⟨a, h e he⟩

/-- From the fourth stage on, a statement is an export or plain. -/
theorem Statement.exists_export_text (s : Statement) (hs : 3 ≤ s.stage) :
    (∃ lines, s = plain lines) ∨ ∀ e, ∃ t, s.text ++ e = "export ".toList ++ t := by
  cases s with
  | plain lines => exact Or.inl ⟨lines, rfl⟩
  | exported d => exact Or.inr fun e => ⟨_, exported_text d e⟩
  | exportAssign name semi => exact Or.inr fun e => ⟨_, exportAssign_text name semi e⟩
  | defaultDeclaration head tail => exact Or.inr fun e => ⟨_, defaultDeclaration_text head tail e⟩
  | defaultValue v => exact Or.inr fun e => ⟨_, defaultValue_text v e⟩
  | exportList items source semi =>
    refine Or.inr fun e => ⟨"\x7b ".toList ++ listText items ++ " \x7d".toList ++
      fromText source ++ semicolon semi ++ e, ?_⟩
    show "export \x7b ".toList ++ listText items ++ " \x7d".toList ++ fromText source ++
      semicolon semi ++ e = _
    simp only [List.append_assoc]
    rfl
  | exportAll name source semi =>
    refine Or.inr fun e => ⟨'*' :: (aliasText name ++ " from ".toList ++ source.text ++
      semicolon semi ++ e), ?_⟩
    show "export *".toList ++ aliasText name ++ " from ".toList ++ source.text ++
      semicolon semi ++ e = _
    simp only [List.append_assoc]
    rfl
  | _ => exact absurd hs (by simp [stage])

/-- A reader that wants `import` leaves all that is read behind the imports. -/
theorem leaves_of_exports (hplain : ∀ {t}, opensStatement t = false → find t = none)
    (hexport : ∀ t, find ("export ".toList ++ t) = none) (hs : 3 ≤ s.stage) : Leaves find s := by
  obtain ⟨lines, rfl⟩ | htext := s.exists_export_text hs
  · exact leaves_plain hplain lines
  · intro e _
    obtain ⟨t, ht⟩ := htext e
    rw [ht]
    exact hexport t

/-- A reader that wants anything but `default` behind `export` leaves the default exports that
are no specifiers. -/
theorem leaves_of_default (hdefault : ∀ t, find ("export default ".toList ++ t) = none)
    (hs : s.stage = 6 ∨ s.stage = 7) : Leaves find s := by
  intro e _
  cases s with
  | defaultDeclaration head tail =>
    rw [defaultDeclaration_text]
    exact hdefault _
  | defaultValue v =>
    rw [defaultValue_text]
    exact hdefault _
  | _ => exact absurd hs (by simp [Statement.stage])

theorem reads_importRequire : Reads 0 importRequire? where
  heeds := heeds_of_eq_none importRequire?_eq_none
  takes s hs := by
    cases s with
    | importRequire name source semi => exact takes_importRequire name source semi
    | _ => exact absurd hs (by simp [Statement.stage])
  leaves s hs := by
    cases s with
    | importRequire name source semi => exact absurd hs (Nat.lt_irrefl 0)
    | importFrom clause source semi => exact leaves_importRequire_importFrom clause source semi
    | importSource source semi => exact leaves_importRequire_importSource source semi
    | _ =>
      exact leaves_of_exports importRequire?_eq_none importRequire?_export
        (by simp [Statement.stage])

theorem reads_importFrom : Reads 1 importFrom? where
  heeds := heeds_of_eq_none importFrom?_eq_none
  takes s hs := by
    cases s with
    | importFrom clause source semi => exact takes_importFrom clause source semi
    | _ => exact absurd hs (by simp [Statement.stage])
  leaves s hs := by
    cases s with
    | importRequire name source semi => exact absurd hs (Nat.not_lt_zero 1)
    | importFrom clause source semi => exact absurd hs (Nat.lt_irrefl 1)
    | importSource source semi => exact leaves_importFrom_importSource source semi
    | _ =>
      exact leaves_of_exports importFrom?_eq_none importFrom?_export (by simp [Statement.stage])

theorem reads_importSource : Reads 2 importSource? where
  heeds := heeds_of_eq_none importSource?_eq_none
  takes s hs := by
    cases s with
    | importSource source semi => exact takes_importSource source semi
    | _ => exact absurd hs (by simp [Statement.stage])
  leaves _ hs := leaves_of_exports importSource?_eq_none importSource?_export hs

theorem reads_exportList : Reads 3 exportList? where
  heeds := heeds_of_eq_none exportList?_eq_none
  takes s hs := by
    cases s with
    | exportList items source semi => exact (takesAs_exportList items source semi).takes
    | _ => exact absurd hs (by simp [Statement.stage])
  leaves s hs := by
    cases s with
    | plain lines => exact leaves_plain exportList?_eq_none lines
    | exported d => exact leaves_exportList_exported d
    | exportAll name source semi => exact leaves_exportList_exportAll name source semi
    | exportAssign name semi => exact leaves_exportList_exportAssign name semi
    | defaultDeclaration head tail => exact leaves_of_default exportList?_default (Or.inl rfl)
    | defaultValue v => exact leaves_of_default exportList?_default (Or.inr rfl)
    | _ => exact absurd hs (by simp [Statement.stage])

theorem exportStar?_default (t : Text) : exportStar? ("export default ".toList ++ t) = none :=
  exportStar?_of_startsIdent (s := "default ".toList ++ t) rfl

theorem exportAssign?_default (t : Text) : exportAssign? ("export default ".toList ++ t) = none :=
  exportAssign?_of_startsIdent (s := "default ".toList ++ t) rfl

theorem reads_exportStar : Reads 4 exportStar? where
  heeds := heeds_of_eq_none exportStar?_eq_none
  takes s hs := by
    cases s with
    | exportAll name source semi => exact takes_exportAll name source semi
    | _ => exact absurd hs (by simp [Statement.stage])
  leaves s hs := by
    cases s with
    | plain lines => exact leaves_plain exportStar?_eq_none lines
    | exported d => exact leaves_exportStar_of_startsIdent (exists_exported_text d)
    | exportAssign name semi => exact leaves_exportStar_exportAssign name semi
    | defaultDeclaration head tail => exact leaves_of_default exportStar?_default (Or.inl rfl)
    | defaultValue v => exact leaves_of_default exportStar?_default (Or.inr rfl)
    | _ => exact absurd hs (by simp [Statement.stage])

theorem reads_exportAssign : Reads 5 exportAssign? where
  heeds := heeds_of_eq_none exportAssign?_eq_none
  takes s hs := by
    cases s with
    | exportAssign name semi => exact (takesAs_exportAssign name semi).takes
    | _ => exact absurd hs (by simp [Statement.stage])
  leaves s hs := by
    cases s with
    | plain lines => exact leaves_plain exportAssign?_eq_none lines
    | exported d => exact leaves_exportAssign_of_startsIdent (exists_exported_text d)
    | defaultDeclaration head tail => exact leaves_of_default exportAssign?_default (Or.inl rfl)
    | defaultValue v => exact leaves_of_default exportAssign?_default (Or.inr rfl)
    | _ => exact absurd hs (by simp [Statement.stage])

theorem spares_defaultDeclaration : Spares 6 defaultDeclaration? where
  heeds := heeds_of_eq_none defaultDeclaration?_eq_none
  leaves s hs := by
    cases s with
    | plain lines => exact leaves_plain defaultDeclaration?_eq_none lines
    | exported d => exact leaves_defaultDeclaration_exported d
    | defaultValue v => exact leaves_defaultDeclaration_defaultValue v
    | _ => exact absurd hs (by simp [Statement.stage])

theorem spares_defaultExpression : Spares 7 defaultExpression? where
  heeds := heeds_of_eq_none defaultExpression?_eq_none
  leaves s hs := by
    cases s with
    | plain lines => exact leaves_plain defaultExpression?_eq_none lines
    | exported d => exact leaves_defaultExpression_exported d
    | _ => exact absurd hs (by simp [Statement.stage])

end LivePreview.Module
