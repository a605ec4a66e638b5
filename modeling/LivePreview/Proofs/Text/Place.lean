/-
Places of a text.

A reader leaves an end piece of its text, so what remains says where it stands, and the offset
of that place is the number of bytes in front of it.  A program that cuts a text at byte offsets
can go wrong, because an offset may lie behind the end or inside of a character.  `slice?` is
such a cut.  Between two places it always goes right and gives what was read from one to the
other.
-/
import LivePreview.Proofs.Text.Reading
import LivePreview.Text.Basic

namespace LivePreview.Text

/-! ### Cuts at byte offsets -/

/-- What remains from a byte offset on; `none` behind the end and inside of a character. -/
def dropBytes? : Nat → Text → Option Text
  | 0, s => some s
  | _ + 1, [] => none
  | n + 1, c :: s => if c.utf8Size ≤ n + 1 then dropBytes? (n + 1 - c.utf8Size) s else none

/-- The text in front of a byte offset; `none` behind the end and inside of a character. -/
def takeBytes? : Nat → Text → Option Text
  | 0, _ => some []
  | _ + 1, [] => none
  | n + 1, c :: s =>
    if c.utf8Size ≤ n + 1 then (takeBytes? (n + 1 - c.utf8Size) s).map (c :: ·) else none

/-- The text between two byte offsets, if they are in order, in range and at characters. -/
def slice? (start stop : Nat) (s : Text) : Option Text :=
  if start ≤ stop then (dropBytes? start s).bind (takeBytes? (stop - start)) else none

/-- An offset inside of a character cuts nothing. -/
example : slice? 0 1 ['é', '}'] = none := by decide

theorem byteSize_cons (c : Char) (s : Text) : byteSize (c :: s) = c.utf8Size + byteSize s := rfl

theorem byteSize_append (s t : Text) : byteSize (s ++ t) = byteSize s + byteSize t := by
  induction s with
  | nil => simp [byteSize]
  | cons c s ih => rw [List.cons_append, byteSize_cons, byteSize_cons, ih, Nat.add_assoc]

theorem dropBytes?_cons (n : Nat) (c : Char) (s : Text) :
    dropBytes? (c.utf8Size + n) (c :: s) = dropBytes? n s := by
  have hpos := c.utf8Size_pos
  cases hk : c.utf8Size + n with
  | zero => omega
  | succ k => rw [dropBytes?, if_pos (by omega), ← hk, Nat.add_sub_cancel_left]

theorem takeBytes?_cons (n : Nat) (c : Char) (s : Text) :
    takeBytes? (c.utf8Size + n) (c :: s) = (takeBytes? n s).map (c :: ·) := by
  have hpos := c.utf8Size_pos
  cases hk : c.utf8Size + n with
  | zero => omega
  | succ k => rw [takeBytes?, if_pos (by omega), ← hk, Nat.add_sub_cancel_left]

theorem dropBytes?_append (s t : Text) : dropBytes? (byteSize s) (s ++ t) = some t := by
  induction s with
  | nil => simp [byteSize, dropBytes?]
  | cons c s ih => rw [byteSize_cons, List.cons_append, dropBytes?_cons, ih]

theorem takeBytes?_append (s t : Text) : takeBytes? (byteSize s) (s ++ t) = some s := by
  induction s with
  | nil => simp [byteSize, takeBytes?]
  | cons c s ih => rw [byteSize_cons, List.cons_append, takeBytes?_cons, ih, Option.map_some]

/-! ### Readers at byte offsets -/

/-- Where a reader that starts at a byte offset comes to, as a byte offset. -/
def endOffset? (read : Text → Option Text) (offset : Nat) (s : Text) : Option Nat :=
  (read (seek offset s).2).map (offsetAfter offset (seek offset s).2)

theorem seekFrom_append (before front s : Text) :
    seekFrom before (byteSize front) (front ++ s) = (front.reverse ++ before, s) := by
  induction front generalizing before with
  | nil => rw [byteSize, List.nil_append, seekFrom, List.reverse_nil, List.nil_append]
  | cons c front ih =>
    have hpos := c.utf8Size_pos
    rw [byteSize_cons, List.cons_append]
    cases hk : c.utf8Size + byteSize front with
    | zero => omega
    | succ k =>
      rw [seekFrom, ← hk, Nat.add_sub_cancel_left, ih]
      simp

/-- A reader that reads a piece off the front of a text ends behind it, wherever it starts. -/
theorem endOffset?_append {read : Text → Option Text} {piece rest : Text}
    (h : read (piece ++ rest) = some rest) (front : Text) :
    endOffset? read (byteSize front) (front ++ (piece ++ rest)) = some (byteSize (front ++ piece)) := by
  rw [endOffset?, seek, seekFrom_append, h, Option.map_some, offsetAfter, consumed_append,
    byteSize_append]

/-! ### Cuts between places -/

/-- From the place `s` of a text to the place `rest` there is a slice: the places are in order,
and a cut at their offsets gives what was read from one to the other. -/
structure IsSlice (code s rest : Text) : Prop where
  start : s <:+ code
  stop : rest <:+ s
  cut : slice? (offsetAfter 0 code s) (offsetAfter 0 code rest) code = some (consumed s rest)

/-- **A reader that leaves an end piece has read a slice.** -/
theorem isSlice_of_suffix {code s rest : Text} (hs : s <:+ code) (hrest : rest <:+ s) :
    IsSlice code s rest := by
  refine ⟨hs, hrest, ?_⟩
  obtain ⟨front, rfl⟩ := hs
  obtain ⟨piece, rfl⟩ := hrest
  have hstart : offsetAfter 0 (front ++ (piece ++ rest)) (piece ++ rest) = byteSize front := by
    rw [offsetAfter, consumed_append, Nat.zero_add]
  have hstop : offsetAfter 0 (front ++ (piece ++ rest)) rest
      = byteSize front + byteSize piece := by
    rw [offsetAfter, ← List.append_assoc, consumed_append, Nat.zero_add, byteSize_append]
  rw [hstart, hstop, slice?, if_pos (Nat.le_add_right _ _), dropBytes?_append,
    Nat.add_sub_cancel_left, consumed_append]
  exact takeBytes?_append piece rest

end LivePreview.Text
