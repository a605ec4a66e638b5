/-
The words that a piece of a script reads.

Which names a statement rests on is read off its text: its words, but for those in a string, those
behind a dot, which name a member, and those that can never name a binding.  A reader goes over the
text character by character and remembers only where it is.  So a text that it enters and leaves
between words is read by itself: `Reads` says so, and it is shown piece by piece, for strings, for
words and for texts that are written out.
-/
import LivePreview.Proofs.Platform
import LivePreview.Proofs.Script.Word
import LivePreview.Script.Extent

namespace LivePreview.Script

variable {c : Char} {s t w : Text} {words more : List Text}

/-- Where a reader of words is. -/
inductive ReadingAt where
  | between (behindDot : Bool)
  | word (behindDot : Bool) (letters : Text)
  | string (quote : Char)
  /-- behind a backslash in a string -/
  | escape (quote : Char)
deriving DecidableEq

namespace ReadingAt

/-- Where the reader is behind a character that is in no word and no string. -/
def behind (c : Char) : ReadingAt := if isQuote c then string c else between (c == '.')

/-- Where the reader is behind a character. -/
def next : ReadingAt → Char → ReadingAt
  | between dot, c => if isIdentStart c then word dot [c] else behind c
  | word dot letters, c => if isIdentChar c then word dot (letters ++ [c]) else behind c
  | string quote, c =>
    if c = '\\' then escape quote else if c = quote then between false else string quote
  | escape quote, _ => string quote

/-- The word that ends in front of a character, if it is one that is read. -/
def ended : ReadingAt → Char → List Text
  | word false letters, c => if isIdentChar c then [] else [letters]
  | _, _ => []

end ReadingAt

open ReadingAt

/-- The words that are read in a text. -/
def wordsFrom (here : ReadingAt) : Text → List Text
  | [] => []
  | c :: s => here.ended c ++ wordsFrom (here.next c) s

/-- The words of a text that read something: none in a string, none behind a dot, none that can
never name a binding. -/
def freeWords (s : Text) : List Text :=
  (wordsFrom (between false) (s ++ ['\n'])).filter (!isReserved ·)

/-- Between words in front of a text and behind it, with the words that are read in it. -/
def Reads (s : Text) (words : List Text) : Prop :=
  wordsFrom (between false) s = words ∧ s.foldl next (between false) = between false

instance (s : Text) (words : List Text) : Decidable (Reads s words) :=
  inferInstanceAs (Decidable (_ ∧ _))

theorem wordsFrom_append (here : ReadingAt) (s t : Text) :
    wordsFrom here (s ++ t) = wordsFrom here s ++ wordsFrom (s.foldl next here) t := by
  induction s generalizing here with
  | nil => rfl
  | cons c s ih => rw [List.cons_append, wordsFrom, wordsFrom, ih, List.foldl_cons, List.append_assoc]

theorem Reads.append (hs : Reads s words) (ht : Reads t more) : Reads (s ++ t) (words ++ more) := by
  constructor
  · rw [wordsFrom_append, hs.2, hs.1, ht.1]
  · rw [List.foldl_append, hs.2, ht.2]

theorem Reads.freeWords (h : Reads s words) :
    Script.freeWords s = words.filter (!isReserved ·) := by
  have hline : Reads ['\n'] [] := by decide
  rw [Script.freeWords, (h.append hline).1, List.append_nil]

theorem Reads.freeWords_eq (h : Reads s words) (hwords : words.all (!isReserved ·) = true) :
    Script.freeWords s = words := by
  rw [h.freeWords, List.filter_eq_self.mpr (List.all_eq_true.mp hwords)]

/-! ### Words -/

theorem foldl_next_letters (hw : ∀ c ∈ w, isIdentChar c = true) (dot : Bool) (letters : Text) :
    w.foldl next (word dot letters) = word dot (letters ++ w) ∧ wordsFrom (word dot letters) w = [] := by
  induction w generalizing letters with
  | nil => exact ⟨by rw [List.append_nil]; rfl, rfl⟩
  | cons c w ih =>
    rw [List.forall_mem_cons] at hw
    obtain ⟨hend, hnone⟩ := ih hw.2 (letters ++ [c])
    have hnext : (word dot letters).next c = word dot (letters ++ [c]) := if_pos hw.1
    have hended : (word dot letters).ended c = [] := by
      cases dot
      · exact if_pos hw.1
      · rfl
    constructor
    · rw [List.foldl_cons, hnext, hend, List.append_assoc, List.singleton_append]
    · rw [wordsFrom, hnext, hnone, hended, List.append_nil]

/-- A word is read in front of what cannot go on with it. -/
theorem Reads.word (hw : IsWord w) (hc : isIdentChar c = false) (hbehind : behind c = between false) :
    Reads (w ++ [c]) [w] := by
  cases w with
  | nil => exact hw.elim
  | cons d w =>
    obtain ⟨hend, hnone⟩ := foldl_next_letters hw.2 false [d]
    have hnext : (between false).next d = ReadingAt.word false [d] := if_pos hw.1
    have hended : (ReadingAt.word false (d :: w)).ended c = [d :: w] := by
      rw [ended, if_neg (by rw [hc]; decide)]
    have hlast : (ReadingAt.word false (d :: w)).next c = between false := by
      rw [next, if_neg (by rw [hc]; decide), hbehind]
    rw [List.singleton_append] at hend
    constructor
    · rw [List.cons_append, wordsFrom, hnext, wordsFrom_append, hnone, hend, wordsFrom, hended]
      rfl
    · rw [List.cons_append, List.foldl_cons, hnext, List.foldl_append, hend, List.foldl_cons, hlast]
      rfl

/-! ### Strings -/

/-- The reader stays in the string. -/
theorem inside_of_writesChar {v : Text} (h : Json.WritesChar c v) :
    v.foldl next (string '"') = string '"' ∧ wordsFrom (string '"') v = [] := by
  have hchar : ∀ d : Char, d ≠ '\\' → d ≠ '"' → (string '"').next d = string '"' := by
    intro d hslash hquote
    rw [next, if_neg hslash, if_neg hquote]
  have hhex : ∀ {d : Char} {i : Nat}, Json.IsHex d i → (string '"').next d = string '"' := by
    intro d i h
    have hd := Json.isIdentChar_of_isHex h
    refine hchar d ?_ ?_
    · rintro rfl
      cases hd
    · rintro rfl
      cases hd
  have hopen : (string '"').next '\\' = escape '"' := rfl
  have hafter : ∀ d : Char, (escape '"').next d = string '"' := fun _ => rfl
  cases h with
  | plain hc =>
    simp only [Json.NeedsEscape, not_or] at hc
    exact ⟨hchar c hc.2.2 hc.2.1, rfl⟩
  | short => exact ⟨rfl, rfl⟩
  | code _ h₁ h₂ h₃ h₄ _ =>
    simp only [List.foldl_cons, List.foldl_nil, wordsFrom, ended, hopen, hafter, hhex h₁, hhex h₂,
      hhex h₃, hhex h₄, List.append_nil, and_self]

/-- **In a string nothing is read.** -/
theorem Reads.jsonString [Platform] [Platform.WritesStrings] (s : Text) :
    Reads (Platform.jsonString s) [] := by
  obtain ⟨escape, hescape, hstring⟩ := Platform.WritesStrings.exists_escape
  have hinside : (s.flatMap escape).foldl next (string '"') = string '"' ∧
      wordsFrom (string '"') (s.flatMap escape) = [] := by
    induction s with
    | nil => exact ⟨rfl, rfl⟩
    | cons c s ih =>
      obtain ⟨hend, hnone⟩ := inside_of_writesChar (hescape c)
      rw [List.flatMap_cons, List.foldl_append, wordsFrom_append, hend, hnone]
      exact ⟨ih.1, ih.2⟩
  have hopened : (between false).next '"' = string '"' := rfl
  constructor
  · rw [hstring, wordsFrom, hopened, wordsFrom_append, hinside.1, hinside.2]
    rfl
  · rw [hstring, List.foldl_cons, hopened, List.foldl_append, hinside.1]
    rfl

end LivePreview.Script
