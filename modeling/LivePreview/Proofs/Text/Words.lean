/-
Taking printed texts apart again.

What was put together with a separator is taken apart at it, if no part has it.
-/
import LivePreview.Proofs.Text.Reading

namespace LivePreview.Text

variable {p : Char → Bool} {s w : Text} {c : Char}

/-! ### Fields -/

theorem splitBy_of_none (hw : ∀ d ∈ w, p d = false) : splitBy p w = [w] := by
  induction w with
  | nil => rfl
  | cons d w ih =>
    have hd : p d = false := hw d List.mem_cons_self
    simp only [splitBy, hd, Bool.false_eq_true, if_false, ih fun b hb => hw b (List.mem_cons_of_mem d hb)]

/-- The first field ends at the first separator. -/
theorem splitBy_append_cons (hw : ∀ d ∈ w, p d = false) (hc : p c = true) :
    splitBy p (w ++ c :: s) = w :: splitBy p s := by
  induction w with
  | nil => simp only [List.nil_append, splitBy, hc, if_true]
  | cons d w ih =>
    have hd : p d = false := hw d List.mem_cons_self
    simp only [List.cons_append, splitBy, hd, Bool.false_eq_true, if_false,
      ih fun b hb => hw b (List.mem_cons_of_mem d hb)]

theorem splitBy_ne_nil (p : Char → Bool) (s : Text) : splitBy p s ≠ [] := by
  cases s with
  | nil => exact List.cons_ne_nil _ _
  | cons c s =>
    rw [splitBy]
    split
    · exact List.cons_ne_nil _ _
    · split <;> exact List.cons_ne_nil _ _

/-- A separator parts the fields in front of it from those behind it. -/
theorem splitBy_append (hc : p c = true) (s t : Text) :
    splitBy p (s ++ c :: t) = splitBy p s ++ splitBy p t := by
  induction s with
  | nil => simp only [List.nil_append, splitBy, hc, if_true, List.singleton_append]
  | cons d s ih =>
    rw [List.cons_append, splitBy, splitBy, ih]
    split
    · rfl
    · cases hsplit : splitBy p s with
      | nil => exact absurd hsplit (splitBy_ne_nil p s)
      | cons field fields => rfl

/-- What is put together has the separator, and what the parts have. -/
theorem mem_join {sep : Char} {parts : List Text} (h : c ∈ join [sep] parts) :
    c = sep ∨ ∃ part ∈ parts, c ∈ part := by
  induction parts with
  | nil => cases h
  | cons part parts ih =>
    cases parts with
    | nil => exact Or.inr ⟨part, List.mem_cons_self, by simpa [join] using h⟩
    | cons next parts =>
      rw [join, List.intercalate_cons_of_ne_nil (List.cons_ne_nil _ _), List.append_assoc] at h
      obtain h | h := List.mem_append.mp h
      · exact Or.inr ⟨part, List.mem_cons_self, h⟩
      · obtain rfl | h := List.mem_cons.mp h
        · exact Or.inl rfl
        · obtain hsep | ⟨later, hlater, hc⟩ := ih h
          · exact Or.inl hsep
          · exact Or.inr ⟨later, List.mem_cons_of_mem part hlater, hc⟩

/-! ### Words -/

@[simp] theorem words_nil : words [] = [] := rfl

theorem words_space (hc : isSpace c = true) : words (c :: s) = words s := by
  simp [words, splitBy, hc]

theorem words_of_none (hne : w ≠ []) (hw : ∀ d ∈ w, isSpace d = false) : words w = [w] := by
  simp [words, splitBy_of_none hw, hne]

theorem words_append_cons (hne : w ≠ []) (hw : ∀ d ∈ w, isSpace d = false) (hc : isSpace c = true) :
    words (w ++ c :: s) = w :: words s := by
  simp [words, splitBy_append_cons hw hc, hne]

/-! ### Numerals -/

theorem isDigit_of_mem_ofNat {n : Nat} {c : Char} (h : c ∈ ofNat n) : c.isDigit = true := by
  have htext : ofNat n = Nat.toDigits 10 n := Nat.toList_repr
  rw [htext] at h
  exact Nat.isDigit_of_mem_toDigits (by decide) (by decide) h

theorem ofNat_injective {m n : Nat} (h : ofNat m = ofNat n) : m = n :=
  Nat.repr_injective (String.toList_injective h)

end LivePreview.Text
