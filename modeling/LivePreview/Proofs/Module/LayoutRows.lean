/-
Passes that change lines.

A pass that takes the first words of statements writes something else in their place.  A text in
front of such a pass is a list of rows: those that no such pass changes, and those that wait for
their pass.  What the pass writes is again such a list, with no more rows than before.  A row that
it has changed is one that no later pass changes, so what is shown of the text in the end can be
said of each row before.
-/
import LivePreview.Proofs.Module.DefaultExports
import LivePreview.Proofs.Module.Remaining

namespace LivePreview.Module.Layout

open Script
open Text (LineEnds linesAvoid Heeds Piece pieces)

variable {α : Type} {find : Text → Option (α × Text)} {write : α → Text → Prop}
  {s t w e : Text} {ps : List (Piece α)} {a : α}

/-! ### Writing for findings -/

/-- `Written write ps t`: `t` is what is written for the pieces `ps`, where `write` says what can be
written for a finding. -/
inductive Written {α : Type} (write : α → Text → Prop) : List (Piece α) → Text → Prop where
  | nil : Written write [] []
  | passed {ps : List (Piece α)} {t : Text} (c : Char) (h : Written write ps t) :
      Written write (.passed c :: ps) (c :: t)
  | found {ps : List (Piece α)} {t w : Text} {a : α} (ha : write a w) (h : Written write ps t) :
    Written write (.found a :: ps) (w ++ t)

namespace Written

theorem exists_passed (h : Written write (s.map .passed ++ ps) t) :
    ∃ t', t = s ++ t' ∧ Written write ps t' := by
  induction s generalizing t with
  | nil => exact ⟨t, rfl, h⟩
  | cons c s ih =>
    cases h with
    | passed _ h =>
      obtain ⟨t', rfl, hlater⟩ := ih h
      exact ⟨t', rfl, hlater⟩

theorem exists_found (h : Written write (.found a :: s.map .passed ++ ps) t) :
    ∃ w t', write a w ∧ t = w ++ (s ++ t') ∧ Written write ps t' := by
  cases h with
  | found ha h =>
    obtain ⟨t', rfl, hlater⟩ := exists_passed h
    exact ⟨_, t', ha, rfl, hlater⟩

end Written

theorem written_replaceFindings (find : Text → Option (Text × Text)) (s : Text) :
    Written (fun a w => w = a) (pieces find s) (Text.replaceFindings find id s) := by
  unfold Text.replaceFindings
  induction pieces find s with
  | nil => exact .nil
  | cons p ps ih =>
    cases p with
    | passed c => exact .passed c ih
    | found a => exact .found rfl ih

/-- What can be written for a default declaration. -/
def WrittenDeclaration (d : DefaultDeclaration) (w : Text) : Prop :=
  isMissing d.name = false ∧ w = d.indent ++ d.head ++ d.gap ++ d.name ∨
    isMissing d.name = true ∧ ∃ n, w = d.indent ++ Text.trimEnd d.head ++ ' ' :: anonymousName n ++
      if d.name.isEmpty then [] else ' ' :: d.name

theorem written_nameDeclarations (count : Nat) (ps : List (Piece DefaultDeclaration)) :
    Written WrittenDeclaration ps (nameDeclarations count ps).code := by
  induction ps generalizing count with
  | nil => exact .nil
  | cons p ps ih =>
    cases p with
    | passed c => exact .passed c (ih count)
    | found d =>
      rw [nameDeclarations]
      split
      · rename_i hmissing
        exact .found (Or.inr ⟨hmissing, count + 1, rfl⟩) (ih (count + 1))
      · rename_i hnamed
        exact .found (Or.inl ⟨Bool.eq_false_of_not_eq_true hnamed, rfl⟩) (ih count)

/-- What can be written for a default expression. -/
def WrittenExpression (d : DefaultExpression) (w : Text) : Prop :=
  d.reference.isSome = true ∧ w = [] ∨
    d.reference.isSome = false ∧
      ∃ n, w = d.indent ++ "const ".toList ++ anonymousName n ++ " = ".toList

theorem written_nameExpressions (count : Nat) (ps : List (Piece DefaultExpression)) :
    Written WrittenExpression ps (nameExpressions count ps).code := by
  induction ps generalizing count with
  | nil => exact .nil
  | cons p ps ih =>
    cases p with
    | passed c => exact .passed c (ih count)
    | found d =>
      rw [nameExpressions]
      split
      · rename_i name hreference
        exact .found (w := []) (Or.inl ⟨by rw [hreference]; rfl, rfl⟩) (ih count)
      · rename_i hreference
        exact .found (Or.inr ⟨by rw [hreference]; rfl, count + 1, rfl⟩) (ih (count + 1))

/-! ### Rows -/

/-- A row that no pass changes. -/
structure Settled (row : Text) : Prop where
  declaration : ∀ e, LineEnds e → defaultDeclaration? (row ++ e) = none
  expression : ∀ e, LineEnds e → defaultExpression? (row ++ e) = none
  exported : ∀ e, LineEnds e → exportedDeclaration? (row ++ e) = none
  avoids : linesAvoid opensModule false row = true

theorem settled_of_opensModule (h : opensModule s = false)
    (havoids : linesAvoid opensModule false s = true) : Settled s where
  declaration _ he := heeds_defaultDeclaration.none_of_false (by rw [opensModule_append he, h])
  expression _ he := heeds_defaultExpression.none_of_false (by rw [opensModule_append he, h])
  exported _ he := heeds_exportedDeclaration.none_of_false (by rw [opensModule_append he, h])
  avoids := havoids

/-- A row of which `shown` is shown in the end: no pass changes it, or it waits as `P` says. -/
inductive Row (P : Text → List Text → Prop) (row : Text) (shown : List Text) : Prop where
  | settled (h : Settled row) (hshown : remainingStatements row = shown)
  | waits (h : P row shown)

/-- A text that is made of rows. -/
inductive Rows (P : Text → List Text → Prop) : Text → List Text → Prop where
  | last {row shown} (h : Row P row shown) : Rows P row shown
  | cons {row shown text later} (h : Row P row shown) (hlater : Rows P text later) :
    Rows P (row ++ '\n' :: text) (shown ++ later)

theorem row_nil (P : Text → List Text → Prop) : Row P [] [] :=
  .settled (settled_of_opensModule rfl rfl) rfl

/-- When no row waits any more, what is shown is shown. -/
theorem Rows.remainingStatements_eq {xs : List Text} (h : Rows (fun _ _ => False) s xs) :
    remainingStatements s = xs := by
  have hrow : ∀ {row shown}, Row (fun _ _ => False) row shown → remainingStatements row = shown := by
    rintro row shown (⟨-, hshown⟩ | h)
    · exact hshown
    · exact h.elim
  induction h with
  | last h => exact hrow h
  | cons h hlater ih => rw [remainingStatements_newline, hrow h, ih]

/-- What becomes of a row that stands in front of `e`, where `t` is written for both: the row is
changed to one of `P'`, or it is gone with the end of its line. -/
def Becomes (find : Text → Option (α × Text)) (write : α → Text → Prop)
    (P' : Text → List Text → Prop) (e t : Text) (shown : List Text) : Prop :=
  (∃ row t', t = row ++ e.take 1 ++ t' ∧ Written write (pieces find e.tail) t' ∧ Row P' row shown) ∨
    Written write (pieces find e.tail) t ∧ shown = []

/-- A pass over rows: it leaves settled rows, and makes of those of `P` settled ones or ones of
`P'`. -/
structure Turns (find : Text → Option (α × Text)) (write : α → Text → Prop)
    (P P' : Text → List Text → Prop) : Prop where
  heeds : Heeds opensModule find
  settled : ∀ {row e : Text}, Settled row → LineEnds e → find (row ++ e) = none
  waits : ∀ {row e t : Text} {shown : List Text}, P row shown → LineEnds e →
    Written write (pieces find (row ++ e)) t → Becomes find write P' e t shown

theorem becomes_of_none {P : Text → List Text → Prop} {shown : List Text}
    (hf : Heeds opensModule find) (he : LineEnds e) (hnone : find (s ++ e) = none)
    (havoids : linesAvoid opensModule false s = true) (hrow : Row P s shown)
    (h : Written write (pieces find (s ++ e)) t) : Becomes find write P e t shown := by
  rw [hf.pieces_of_none he hnone havoids] at h
  obtain ⟨t', rfl, hlater⟩ := h.exists_passed
  exact Or.inl ⟨s, t', rfl, hlater, hrow⟩

namespace Turns

variable {P P' : Text → List Text → Prop} (hf : Turns find write P P')

include hf

theorem becomes {shown : List Text} (hrow : Row P s shown) (he : LineEnds e)
    (h : Written write (pieces find (s ++ e)) t) : Becomes find write P' e t shown := by
  cases hrow with
  | waits hwaits => exact hf.waits hwaits he h
  | settled hsettled hshown =>
    exact becomes_of_none hf.heeds he (hf.settled hsettled he) hsettled.avoids
      (.settled hsettled hshown) h

/-- **A pass makes rows of rows, of which the same is shown.** -/
theorem rows {xs : List Text} (hrows : Rows P s xs) (h : Written write (pieces find s) t) :
    Rows P' t xs := by
  induction hrows generalizing t with
  | @last row shown hrow =>
    rw [← List.append_nil row] at h
    obtain ⟨row', t', rfl, h, hrow'⟩ | ⟨h, rfl⟩ := hf.becomes hrow .nil h
    · cases h
      simpa using Rows.last hrow'
    · cases h
      exact .last (row_nil P')
  | @cons row shown text later hrow hlater ih =>
    obtain ⟨row', t', rfl, h, hrow'⟩ | ⟨h, rfl⟩ := hf.becomes hrow (.newline text) h
    · have hcons := Rows.cons hrow' (ih h)
      simpa using hcons
    · exact ih h

end Turns

end LivePreview.Module.Layout
