/-
How much of a text can be seen.

A pass that takes something out of a text may put blanks in its place or take blanks off around it,
so the length of the text says little about what it did.  `visible` counts the characters that are
no blanks, which no pass makes more of unless it writes something of its own.
-/
import LivePreview.Proofs.Text.Place

namespace LivePreview.Text

/-- Number of characters that are no Unicode blanks. -/
def visible (s : Text) : Nat := s.countP (!isSpace ·)

variable {s t : Text} {c : Char}

@[simp] theorem visible_nil : visible [] = 0 := rfl

@[simp] theorem visible_append (s t : Text) : visible (s ++ t) = visible s + visible t :=
  List.countP_append

theorem visible_cons (c : Char) (s : Text) : visible (c :: s) = visible [c] + visible s :=
  visible_append [c] s

@[simp] theorem visible_reverse (s : Text) : visible s.reverse = visible s := List.countP_reverse

theorem visible_pos (hmem : c ∈ s) (hc : isSpace c = false) : 0 < visible s :=
  List.countP_pos_iff.mpr ⟨c, hmem, by simp [hc]⟩

theorem visible_eq_zero_iff : visible s = 0 ↔ isBlankText s = true := by
  simp [visible, isBlankText, List.countP_eq_zero]

theorem visible_le_of_sublist (h : s.Sublist t) : visible s ≤ visible t := h.countP_le

theorem visible_le_of_suffix (h : s <:+ t) : visible s ≤ visible t := visible_le_of_sublist h.sublist

/-! ### Pieces that can be seen -/

/-- In front of the end piece `rest` of `s` there stands a character that is no blank. -/
inductive CutOff (s rest : Text) : Prop where
  | intro {c : Char} {t : Text} (hc : isSpace c = false) (hs : c :: t <:+ s) (hrest : rest <:+ t)

theorem CutOff.suffix {rest : Text} (h : CutOff s rest) : rest <:+ s := by
  obtain ⟨-, hs, hrest⟩ := h
  exact hrest.trans (suffix_of_cons hs)

theorem cutOff_of_cons {rest : Text} (hs : s = c :: t) (hc : isSpace c = false)
    (hrest : rest <:+ t) : CutOff s rest :=
  .intro hc (hs ▸ List.suffix_rfl) hrest

theorem CutOff.exists_piece {rest : Text} (h : CutOff s rest) :
    ∃ piece, 0 < visible piece ∧ piece ++ rest = s := by
  obtain ⟨hc, ⟨front, rfl⟩, ⟨back, rfl⟩⟩ := h
  refine ⟨front ++ _ :: back, visible_pos (List.mem_append_right _ List.mem_cons_self) hc, ?_⟩
  simp

theorem CutOff.visible_lt {rest : Text} (h : CutOff s rest) : visible rest < visible s := by
  obtain ⟨piece, hpiece, rfl⟩ := h.exists_piece
  rw [visible_append]
  omega

/-- Each character that is left out takes up a byte. -/
theorem byteSize_add_visible_le (h : s.Sublist t) :
    byteSize s + visible t ≤ byteSize t + visible s := by
  induction h with
  | slnil => exact Nat.le_refl _
  | @cons s t c _ ih =>
    have hsize := c.utf8Size_pos
    have hone : visible [c] ≤ 1 := List.countP_le_length
    rw [byteSize_cons, visible_cons]
    omega
  | @cons_cons s t c _ ih =>
    rw [byteSize_cons, byteSize_cons, visible_cons c s, visible_cons c t]
    omega

end LivePreview.Text
