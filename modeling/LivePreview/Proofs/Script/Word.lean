/-
Identifiers read back.

A word is a text that could be read as one identifier.  In front of a text that does not
go on with it, such a word is exactly what the readers of identifiers take.  A name is a
word that can name a binding and that no pass of this library looks for, and it is what
the printed programs of the other files are made of.
-/
import LivePreview.Proofs.Text.Reading
import LivePreview.Script.Word

namespace LivePreview.Script

open Text (Stops)

/-! ### Words -/

/-- A text that one identifier takes up. -/
def IsWord : Text → Prop
  | [] => False
  | c :: w => isIdentStart c = true ∧ ∀ d ∈ w, isIdentChar d = true

theorem isIdentChar_of_start {c : Char} (h : isIdentStart c = true) : isIdentChar c = true := by
  simp [isIdentChar, h]

theorem isBlank_eq_false_of_identChar {c : Char} (h : isIdentChar c = true) :
    isBlank c = false := by
  by_contra hb
  simp only [isBlank, Bool.not_eq_false, Bool.or_eq_true, beq_iff_eq] at hb
  obtain (((rfl | rfl) | rfl) | rfl) | rfl := hb <;> exact absurd h (by decide)

theorem isSpace_eq_false_of_isIdentChar {c : Char} (h : isIdentChar c = true) :
    isSpace c = false := by
  by_contra hs
  simp only [isSpace, Bool.not_eq_false, Bool.or_eq_true, Bool.and_eq_true, decide_eq_true_eq,
    beq_iff_eq] at hs
  simp only [isIdentChar, isIdentStart, isAsciiLetter, isAsciiDigit, Bool.or_eq_true,
    Bool.and_eq_true, decide_eq_true_eq, beq_iff_eq, Char.le_def, UInt32.le_iff_toNat_le] at h
  have hn : c.toNat = c.val.toNat := rfl
  rcases h with (((⟨h, h'⟩ | ⟨h, h'⟩) | rfl) | rfl) | ⟨h, h'⟩
  · have h₁ : 97 ≤ c.val.toNat := h
    have h₂ : c.val.toNat ≤ 122 := h'
    omega
  · have h₁ : 65 ≤ c.val.toNat := h
    have h₂ : c.val.toNat ≤ 90 := h'
    omega
  · exact absurd hs (by decide)
  · exact absurd hs (by decide)
  · have h₁ : 48 ≤ c.val.toNat := h
    have h₂ : c.val.toNat ≤ 57 := h'
    omega

theorem isInline_eq_false_of_identChar {c : Char} (h : isIdentChar c = true) :
    isInline c = false := by
  by_contra hi
  have hblank := Text.isBlank_of_isInline (by simpa using hi)
  rw [isBlank_eq_false_of_identChar h] at hblank
  exact Bool.noConfusion hblank

theorem isAsciiDigit_eq_false_of_identStart {c : Char} (h : isIdentStart c = true) :
    isAsciiDigit c = false := by
  by_contra hd
  simp only [isAsciiDigit, Bool.not_eq_false, Bool.and_eq_true, decide_eq_true_eq, Char.le_def,
    UInt32.le_iff_toNat_le] at hd
  have h₁ : 48 ≤ c.val.toNat := hd.1
  have h₂ : c.val.toNat ≤ 57 := hd.2
  simp only [isIdentStart, isAsciiLetter, Bool.or_eq_true, Bool.and_eq_true, decide_eq_true_eq,
    beq_iff_eq, Char.le_def, UInt32.le_iff_toNat_le] at h
  rcases h with ((⟨h, -⟩ | ⟨h, -⟩) | rfl) | rfl
  · have h₃ : 97 ≤ c.val.toNat := h
    omega
  · have h₃ : 65 ≤ c.val.toNat := h
    omega
  · exact absurd h₂ (by decide)
  · exact absurd h₁ (by decide)

theorem isWord_of_isIdentifier {w : Text} (h : isIdentifier w = true) : IsWord w := by
  cases w with
  | nil => exact absurd h (by simp [isIdentifier])
  | cons c w =>
    simp only [isIdentifier, Bool.and_eq_true, List.all_eq_true] at h
    exact ⟨h.1.1, h.1.2⟩

/-- A word that is written out is a word by computation. -/
theorem isWord_of_all {w : Text} (hstart : startsIdent w = true)
    (hall : w.all isIdentChar = true) : IsWord w := by
  cases w with
  | nil => exact absurd hstart (by simp [startsIdent])
  | cons c w =>
    exact ⟨hstart, fun d hd => List.all_eq_true.mp hall d (List.mem_cons_of_mem _ hd)⟩

theorem not_isReserved_of_isIdentifier {w : Text} (h : isIdentifier w = true) :
    isReserved w = false := by
  cases w with
  | nil => exact absurd h (by simp [isIdentifier])
  | cons c w =>
    simp only [isIdentifier, Bool.and_eq_true] at h
    simpa using h.2

namespace IsWord

variable {w rest : Text}

theorem identChars (hw : IsWord w) : ∀ c ∈ w, isIdentChar c = true := by
  cases w with
  | nil => exact hw.elim
  | cons c w =>
    intro d hd
    rcases List.mem_cons.mp hd with rfl | hd
    · exact isIdentChar_of_start hw.1
    · exact hw.2 d hd

theorem ne_nil (hw : IsWord w) : w ≠ [] := by
  rintro rfl
  exact hw

/-- A word ends with one of its characters. -/
theorem getLast? (hw : IsWord w) : ∃ c, w.getLast? = some c ∧ isIdentChar c = true :=
  ⟨w.getLast hw.ne_nil, List.getLast?_eq_some_getLast hw.ne_nil,
    hw.identChars _ (List.getLast_mem hw.ne_nil)⟩

/-- A word takes up no blank. -/
theorem stops_isBlank (hw : IsWord w) : Stops isBlank (w ++ rest) := by
  cases w with
  | nil => exact hw.elim
  | cons c w => exact Text.stops_cons.mpr (isBlank_eq_false_of_identChar (isIdentChar_of_start hw.1))

theorem startsIdent (hw : IsWord w) : startsIdent (w ++ rest) = true := by
  cases w with
  | nil => exact hw.elim
  | cons c w => exact hw.1

theorem ident_append (hw : IsWord w) (hr : Stops isIdentChar rest) : ident (w ++ rest) = w := by
  cases w with
  | nil => exact hw.elim
  | cons c w =>
    obtain ⟨hc, hall⟩ := hw
    simp [ident, hc, Text.takeWhile_append hall hr]

theorem skipIdent_append (hw : IsWord w) (hr : Stops isIdentChar rest) :
    skipIdent (w ++ rest) = rest := by
  cases w with
  | nil => exact hw.elim
  | cons c w =>
    obtain ⟨hc, hall⟩ := hw
    simp [skipIdent, hc, Text.dropWhile_append hall hr]

theorem word?_append (hw : IsWord w) (hr : Stops isIdentChar rest) :
    word? (w ++ rest) = some w := by
  have hne : w.isEmpty = false := by simpa using hw.ne_nil
  simp [word?, hw.ident_append hr, hne]

end IsWord

/-- Where no identifier starts there is no word. -/
theorem word?_of_stops {s : Text} (h : Stops isIdentStart s) : word? s = none := by
  cases s with
  | nil => rfl
  | cons c s => simp [word?, ident, Text.stops_cons.mp h]

theorem afterKeyword?_of_stops {w s : Text} (h : Stops isIdentStart s) :
    afterKeyword? w s = none := by
  simp [afterKeyword?, word?_of_stops h]

/-! ### Names -/

/-- Words that can name a binding and that some pass looks for. -/
def contextualWords : List Text :=
  ["interface", "type", "declare", "abstract", "as", "satisfies", "public", "private",
    "protected", "readonly", "override", "async", "of", "keyof", "unique", "infer", "asserts",
    "is", "out"].map String.toList

/-- A name in a printed program. -/
structure Name where
  text : Text
  isIdentifier : isIdentifier text = true
  isPlain : contextualWords.contains text = false
deriving DecidableEq

namespace Name

variable (x : Name) {rest : Text}

theorem isWord : IsWord x.text := isWord_of_isIdentifier x.isIdentifier

theorem not_isReserved : isReserved x.text = false :=
  not_isReserved_of_isIdentifier x.isIdentifier

/-- A name is none of the words that are reserved or looked for. -/
theorem ne_of_special {w : Text} (h : isReserved w || contextualWords.contains w) : x.text ≠ w := by
  rintro rfl
  rw [x.not_isReserved, x.isPlain] at h
  exact Bool.noConfusion h

/-- A name is in no list of such words. -/
theorem not_contains {words : List Text}
    (h : ∀ w ∈ words, (isReserved w || contextualWords.contains w) = true) :
    words.contains x.text = false := by
  by_contra hc
  have hmem : x.text ∈ words := by simpa using hc
  exact x.ne_of_special (h _ hmem) rfl

end Name

/-! ### What is left is an end piece -/

theorem suffix_skipIdent (s : Text) : skipIdent s <:+ s := by
  cases s with
  | nil => exact List.suffix_rfl
  | cons c s =>
    simp only [skipIdent]
    split
    · exact (List.dropWhile_suffix isIdentChar).trans (List.suffix_cons c s)
    · exact List.suffix_rfl

/-- An identifier that starts here takes up a character. -/
theorem suffix_tail_skipIdent {s : Text} (h : startsIdent s = true) : skipIdent s <:+ s.tail := by
  cases s with
  | nil => exact List.suffix_rfl
  | cons c s =>
    have hc : isIdentStart c = true := h
    simp only [skipIdent, hc, if_true, List.tail_cons]
    exact List.dropWhile_suffix isIdentChar

theorem length_skipIdent_lt {s : Text} (h : startsIdent s = true) :
    (skipIdent s).length < s.length := by
  cases s with
  | nil => exact absurd h (by simp [startsIdent])
  | cons c s => exact Nat.lt_succ_of_le (suffix_tail_skipIdent h).length_le

theorem suffix_afterKeyword? {w s rest : Text} (h : afterKeyword? w s = some rest) :
    rest <:+ s := by
  simp only [afterKeyword?] at h
  split at h
  · cases h
    exact suffix_skipIdent s
  · cases h

theorem length_afterKeyword?_lt {w s rest : Text} (h : afterKeyword? w s = some rest) :
    rest.length < s.length := by
  simp only [afterKeyword?] at h
  split at h
  · rename_i hw
    cases h
    apply length_skipIdent_lt
    by_contra hs
    have hstop : Stops isIdentStart s := by
      cases s with
      | nil => exact Text.stops_nil _
      | cons c s => exact Text.stops_cons.mpr (by simpa [startsIdent] using hs)
    rw [word?_of_stops hstop] at hw
    cases hw
  · cases h

end LivePreview.Script
