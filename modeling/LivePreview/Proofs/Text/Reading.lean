/-
Reading a known piece off the front of a text.

Every reader of this library takes the characters of one class as far as they go.  So
what it does on `piece ++ rest` is settled by two facts: the piece is of that class, and
`rest` does not go on with it.  The second fact is `Stops`, and the lemmas here say what
the readers of blanks do in terms of it.
-/
import Mathlib
import LivePreview.Text.Basic

namespace LivePreview.Text

/-! ### Where a class of characters ends -/

/-- The text does not start with a character of the class. -/
def Stops (p : Char → Bool) (s : Text) : Prop := ∀ c ∈ s.head?, p c = false

@[simp] theorem stops_nil (p : Char → Bool) : Stops p [] := by simp [Stops]

@[simp] theorem stops_cons {p : Char → Bool} {c : Char} {s : Text} :
    Stops p (c :: s) ↔ p c = false := by
  simp [Stops]

instance (p : Char → Bool) (s : Text) : Decidable (Stops p s) :=
  match s with
  | [] => isTrue (stops_nil p)
  | _ :: _ => decidable_of_iff _ stops_cons.symm

theorem stops_mono {p q : Char → Bool} {s : Text} (hpq : ∀ c, p c = true → q c = true)
    (h : Stops q s) : Stops p s := by
  intro c hc
  have hq := h c hc
  by_contra hp
  rw [hpq c (by simpa using hp)] at hq
  exact Bool.noConfusion hq

theorem stops_dropWhile (p : Char → Bool) (s : Text) : Stops p (s.dropWhile p) := by
  intro c hc
  have := List.head?_dropWhile_not p s
  rw [Option.mem_def] at hc
  rw [hc] at this
  simpa using this

theorem takeWhile_of_stops {p : Char → Bool} {s : Text} (h : Stops p s) :
    s.takeWhile p = [] := by
  cases s with
  | nil => rfl
  | cons c s => simp [stops_cons.mp h]

theorem dropWhile_of_stops {p : Char → Bool} {s : Text} (h : Stops p s) :
    s.dropWhile p = s := by
  cases s with
  | nil => rfl
  | cons c s => simp [stops_cons.mp h]

theorem takeWhile_append {p : Char → Bool} {w rest : Text} (hw : ∀ c ∈ w, p c = true)
    (hr : Stops p rest) : (w ++ rest).takeWhile p = w := by
  rw [List.takeWhile_append_of_pos hw, takeWhile_of_stops hr, List.append_nil]

theorem dropWhile_append {p : Char → Bool} {w rest : Text} (hw : ∀ c ∈ w, p c = true)
    (hr : Stops p rest) : (w ++ rest).dropWhile p = rest := by
  rw [List.dropWhile_append_of_pos hw, dropWhile_of_stops hr]

/-- Where a class of characters does not go on, the text in front is read by itself. -/
theorem takeWhile_append_of_stops {p : Char → Bool} {s rest : Text} (hr : Stops p rest) :
    (s ++ rest).takeWhile p = s.takeWhile p := by
  rw [List.takeWhile_append, takeWhile_of_stops hr]
  split
  · rename_i h
    rw [List.append_nil]
    exact ((List.takeWhile_prefix p).eq_of_length h).symm
  · rfl

theorem dropWhile_append_of_stops {p : Char → Bool} {s rest : Text} (hr : Stops p rest) :
    (s ++ rest).dropWhile p = s.dropWhile p ++ rest := by
  rw [List.dropWhile_append, dropWhile_of_stops hr]
  split
  · rename_i h
    rw [List.isEmpty_iff.mp h, List.nil_append]
  · rfl

/-! ### The piece that was read -/

@[simp] theorem consumed_append (piece rest : Text) : consumed (piece ++ rest) rest = piece := by
  simp [consumed]

@[simp] theorem consumed_cons (c : Char) (rest : Text) : consumed (c :: rest) rest = [c] :=
  consumed_append [c] rest

/-- A word that is found stands in front of what remains. -/
theorem eq_append_of_after? {lit s rest : Text} (h : after? lit s = some rest) :
    s = lit ++ rest := by
  induction lit generalizing s with
  | nil => simpa [after?] using h
  | cons c lit ih =>
    cases s with
    | nil => cases h
    | cons d s =>
      rw [after?, Option.ite_none_right_eq_some] at h
      rw [h.1, ih h.2, List.cons_append]

/-! ### Blanks -/

@[simp] theorem skipBlanks_nil : skipBlanks [] = [] := rfl

@[simp] theorem skipBlanks_space (s : Text) : skipBlanks (' ' :: s) = skipBlanks s := rfl

theorem skipBlanks_of_stops {s : Text} (h : Stops isBlank s) : skipBlanks s = s :=
  dropWhile_of_stops h

theorem skipBlanks_cons {c : Char} {s : Text} (h : isBlank c = false) :
    skipBlanks (c :: s) = c :: s :=
  skipBlanks_of_stops (stops_cons.mpr h)

theorem skipInline_of_stops {s : Text} (h : Stops isInline s) : skipInline s = s :=
  dropWhile_of_stops h

theorem skipInline_cons {c : Char} {s : Text} (h : isInline c = false) :
    skipInline (c :: s) = c :: s :=
  skipInline_of_stops (stops_cons.mpr h)

theorem isBlank_of_isInline {c : Char} (h : isInline c = true) : isBlank c = true := by
  simp only [isInline, isBlank, Bool.or_eq_true] at h ⊢
  tauto

theorem isSpace_of_isBlank {c : Char} (h : isBlank c = true) : isSpace c = true := by
  simp only [isBlank, Bool.or_eq_true, beq_iff_eq] at h
  rcases h with (((rfl | rfl) | rfl) | rfl) | rfl <;> decide

theorem isSpace_of_isInline {c : Char} (h : isInline c = true) : isSpace c = true :=
  isSpace_of_isBlank (isBlank_of_isInline h)

/-- Blanks behind inline blanks are blanks. -/
theorem skipBlanks_skipInline (s : Text) : skipBlanks (skipInline s) = skipBlanks s := by
  induction s with
  | nil => rfl
  | cons c s ih =>
    by_cases h : isInline c = true
    · have hb : isBlank c = true := isBlank_of_isInline h
      simpa [skipBlanks, skipInline, List.dropWhile_cons, h, hb] using ih
    · rw [skipInline_cons (by simpa using h)]

/-! ### Cutting and trimming -/

theorem cutFirst_append {c : Char} {u : Text} (h : c ∉ u) (s : Text) :
    cutFirst c (u ++ c :: s) = some (u, s) := by
  have hne : ∀ d ∈ u, (d != c) = true := fun d hd => bne_iff_ne.mpr fun heq => h (heq ▸ hd)
  have hstop : Stops (· != c) (c :: s) := stops_cons.mpr (bne_self_eq_false c)
  rw [cutFirst, takeWhile_append hne hstop, dropWhile_append hne hstop]

theorem cutFirst_of_not_mem {c : Char} {s : Text} (h : c ∉ s) : cutFirst c s = none := by
  have hne : ∀ d ∈ s, (d != c) = true := fun d hd => bne_iff_ne.mpr fun heq => h (heq ▸ hd)
  rw [cutFirst, List.dropWhile_eq_nil_iff.mpr hne]

/-- Trimming leaves what stands between characters of the class, up to its first and last others. -/
theorem trimBy_append {p : Char → Bool} {u t v : Text} (hu : ∀ c ∈ u, p c = true)
    (hv : ∀ c ∈ v, p c = true) (hfirst : Stops p t) (hlast : Stops p t.reverse) :
    trimBy p (u ++ (t ++ v)) = t := by
  cases t with
  | nil =>
    have hall : ∀ c ∈ u ++ ([] ++ v), p c = true := fun c hc =>
      (List.mem_append.mp hc).elim (hu c) (hv c)
    rw [trimBy, List.dropWhile_eq_nil_iff.mpr hall]
    rfl
  | cons c t =>
    have hreverse : ∀ c ∈ v.reverse, p c = true := fun c hc => hv c (List.mem_reverse.mp hc)
    have hstop : Stops p (c :: t ++ v) := stops_cons.mpr (stops_cons.mp hfirst)
    rw [trimBy, dropWhile_append hu hstop, trimEndBy, List.reverse_append,
      dropWhile_append hreverse hlast, List.reverse_reverse]

/-! ### End pieces -/

theorem suffix_of_cons {c : Char} {s t : Text} (h : c :: s <:+ t) : s <:+ t :=
  (List.suffix_cons c s).trans h

theorem suffix_skipBlanks (s : Text) : skipBlanks s <:+ s := List.dropWhile_suffix isBlank

theorem suffix_skipInline (s : Text) : skipInline s <:+ s := List.dropWhile_suffix isInline

theorem length_skipBlanks_le (s : Text) : (skipBlanks s).length ≤ s.length :=
  (suffix_skipBlanks s).length_le

theorem length_skipInline_le (s : Text) : (skipInline s).length ≤ s.length :=
  (suffix_skipInline s).length_le

/-- The piece that was read and the end piece make up the text. -/
theorem consumed_append_of_suffix {s rest : Text} (h : rest <:+ s) :
    consumed s rest ++ rest = s := by
  obtain ⟨piece, rfl⟩ := h
  rw [consumed_append]

end LivePreview.Text
