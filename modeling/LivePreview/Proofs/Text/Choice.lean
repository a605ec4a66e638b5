/-
What a reader with second thoughts has taken.

Such a reader tries its choices until what follows succeeds.  Whichever choice that was, the text
starts with a piece of the right class, and what follows succeeded behind it.
-/
import LivePreview.Proofs.Text.Reading
import LivePreview.Text.Choice

namespace LivePreview.Text

variable {α : Type} {p : Char → Bool} {first : (Text → Option α) → Text → Option α}
  {follow : Text → Option α} {s : Text} {a : α}

/-- The text is a piece of the class, and what follows succeeds behind it. -/
def TakenBy (p : Char → Bool) (follow : Text → Option α) (s : Text) (a : α) (piece : Text) : Prop :=
  (∀ c ∈ piece, p c = true) ∧ ∃ rest, s = piece ++ rest ∧ follow rest = some a

theorem TakenBy.cons {c : Char} {piece : Text} (hc : p c = true) (h : TakenBy p follow s a piece) :
    TakenBy p follow (c :: s) a (c :: piece) := by
  obtain ⟨hpiece, rest, hs, hrest⟩ := h
  exact ⟨List.forall_mem_cons.mpr ⟨hc, hpiece⟩, rest, by rw [hs, List.cons_append], hrest⟩

theorem takenBy_of_asManyAs (h : asManyAs p follow s = some a) :
    ∃ piece, TakenBy p follow s a piece := by
  induction s with
  | nil => exact ⟨[], List.forall_mem_nil _, [], rfl, h⟩
  | cons c s ih =>
    have hnone : ∀ {t}, follow t = some a → TakenBy p follow t a [] :=
      fun ht => ⟨List.forall_mem_nil _, _, rfl, ht⟩
    rw [asManyAs] at h
    split at h
    · rename_i hc
      obtain hmore | ⟨-, hfollow⟩ := Option.or_eq_some_iff.mp h
      · obtain ⟨piece, hpiece⟩ := ih hmore
        exact ⟨c :: piece, hpiece.cons hc⟩
      · exact ⟨[], hnone hfollow⟩
    · exact ⟨[], hnone h⟩

theorem takenBy_of_atLeastOne (h : atLeastOne p follow s = some a) :
    ∃ piece, piece ≠ [] ∧ TakenBy p follow s a piece := by
  cases s with
  | nil => cases h
  | cons c s =>
    rw [atLeastOne, Option.ite_none_right_eq_some] at h
    obtain ⟨piece, hpiece⟩ := takenBy_of_asManyAs h.2
    exact ⟨c :: piece, List.cons_ne_nil c piece, hpiece.cons h.1⟩

theorem takenBy_of_atLeastTwo (h : atLeastTwo p follow s = some a) :
    ∃ piece, piece ≠ [] ∧ TakenBy p follow s a piece := by
  cases s with
  | nil => cases h
  | cons c s =>
    rw [atLeastTwo, Option.ite_none_right_eq_some] at h
    obtain ⟨piece, -, hpiece⟩ := takenBy_of_atLeastOne h.2
    exact ⟨c :: piece, List.cons_ne_nil c piece, hpiece.cons h.1⟩

/-! ### The longest choice -/

theorem asManyAs_of_stops (h : Stops p s) : asManyAs p follow s = follow s := by
  cases s with
  | nil => rfl
  | cons c s =>
    rw [asManyAs, stops_cons.mp h]
    rfl

theorem asManyAs_append {piece rest : Text} (hpiece : ∀ c ∈ piece, p c = true)
    (h : asManyAs p follow rest = some a) : asManyAs p follow (piece ++ rest) = some a := by
  induction piece with
  | nil => exact h
  | cons c piece ih =>
    obtain ⟨hc, hpiece⟩ := List.forall_mem_cons.mp hpiece
    rw [List.cons_append, asManyAs, if_pos hc, ih hpiece, Option.some_or]

theorem asManyAs_eq_none (h : ∀ t, t <:+ s → follow t = none) : asManyAs p follow s = none := by
  induction s with
  | nil => exact h [] (List.suffix_refl [])
  | cons c s ih =>
    have hs : asManyAs p follow s = none := ih fun t ht => h t (ht.trans (List.suffix_cons c s))
    rw [asManyAs, hs, h (c :: s) (List.suffix_refl _), Option.none_or, ite_self]

theorem optionally_cases (h : optionally first follow s = some a) :
    first follow s = some a ∨ follow s = some a :=
  (Option.or_eq_some_iff.mp h).imp_right And.right

end LivePreview.Text
