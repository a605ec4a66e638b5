/-
The search for the end of a statement.

The search goes through a text character by character and takes groups, strings and templates as a
whole.  It ends behind a semicolon or in front of the end of a line, and it knows nothing of
comments.

Two facts say what it does in front of more text.  A search that comes to an end in a text comes to
the same end if more text follows, unless that text continues the statement: `statementRest_append`.
And it passes over a text that closes all that it opens: `ClosedText`.  Every type of the grammar is
such a text, so the search through a type on one line comes to the end of the line, unless something
behind the type stops it.
-/
import LivePreview.Proofs.Script.TokenText
import LivePreview.Erasure.Declaration

namespace LivePreview.Erasure

open Script
open Text (Stops)

/-! ### One step of the search -/

/-- The characters that the search does more about than to go on. -/
def searchMarks : List Char := ['(', '[', '{', '"', '\'', '\x60', ';']

/-- True of the characters that the search goes on behind, the end of a line apart. -/
def isPassed (c : Char) : Bool := !searchMarks.contains c

theorem isPassed_of {p : Char → Bool} (hp : searchMarks.all (fun c => !p c) = true) {c : Char}
    (hc : p c = true) : isPassed c = true := by
  by_contra hmark
  have hmem : c ∈ searchMarks := by simpa [isPassed] using hmark
  simpa [hc] using List.all_eq_true.mp hp c hmem

/-- What a character is to the search. -/
theorem search_cases (c : Char) :
    (Bracket.opened? c).isSome = true ∨ isQuote c = true ∨ c = '\x60' ∨ c = ';' ∨ c = '\n' ∨
      isPassed c = true ∧ c ≠ '\n' := by
  by_cases hc : isPassed c = true
  · by_cases hline : c = '\n'
    · exact Or.inr (Or.inr (Or.inr (Or.inr (Or.inl hline))))
    · exact Or.inr (Or.inr (Or.inr (Or.inr (Or.inr ⟨hc, hline⟩))))
  · have hmark : c ∈ searchMarks := by simpa [isPassed] using hc
    simp only [searchMarks, List.mem_cons, List.not_mem_nil, or_false] at hmark
    rcases hmark with rfl | rfl | rfl | rfl | rfl | rfl | rfl <;> decide

section Step

variable (start s : Text) (n : Nat)

theorem statementRestFrom_nil : statementRestFrom start n [] = [] := by
  cases n <;> rfl

theorem statementRestFrom_char {c : Char} (hc : isPassed c = true) (hne : c ≠ '\n') :
    statementRestFrom start (n + 1) (c :: s) = statementRestFrom start n s := by
  simp only [isPassed, searchMarks, List.contains_eq_mem, List.mem_cons, List.not_mem_nil,
    or_false, Bool.not_eq_true', decide_eq_false_iff_not, not_or] at hc
  obtain ⟨hround, hsquare, hcurly, hdouble, hsingle, htick, hsemi⟩ := hc
  have hopen : Bracket.opened? c = none := by simp [Bracket.opened?, hround, hsquare, hcurly]
  have hquote : isQuote c = false := by simp [isQuote, hdouble, hsingle]
  simp [statementRestFrom, hopen, hquote, htick, hsemi, hne]

/-- Without an end of the group, nothing is left. -/
theorem statementRestFrom_open {c : Char} (hopen : (Bracket.opened? c).isSome = true) :
    statementRestFrom start (n + 1) (c :: s)
      = statementRestFrom start n ((afterGroup? (c :: s)).getD []) := by
  rw [statementRestFrom, if_pos hopen]
  cases afterGroup? (c :: s) with
  | none => exact (statementRestFrom_nil start n).symm
  | some rest => rfl

theorem statementRestFrom_quote {quote : Char} (hquote : isQuote quote = true) :
    statementRestFrom start (n + 1) (quote :: s) = statementRestFrom start n (stringRest quote s) := by
  have hopen : Bracket.opened? quote = none := by
    simp only [isQuote, Bool.or_eq_true, beq_iff_eq] at hquote
    rcases hquote with rfl | rfl <;> rfl
  rw [statementRestFrom, hopen, if_neg (by simp), if_pos hquote]

theorem statementRestFrom_backtick : statementRestFrom start (n + 1) ('\x60' :: s)
    = statementRestFrom start n (skipTemplate ('\x60' :: s)) := rfl

theorem statementRestFrom_semicolon : statementRestFrom start (n + 1) (';' :: s) = s := rfl

/-- The end of a line ends a statement, if neither side of it goes on with the statement. -/
theorem statementRestFrom_line : statementRestFrom start (n + 1) ('\n' :: s)
    = if startsWithChar '|' (Text.skipBlanks s) || startsWithChar '&' (Text.skipBlanks s) ||
        isDangling (Text.consumed start ('\n' :: s))
      then statementRestFrom start n s else '\n' :: s := rfl

end Step

/-! ### The end of a statement and the text that follows -/

/-- True of the signs that continue a statement on its next line. -/
def continuesStatement (c : Char) : Bool := c == '|' || c == '&'

/-- A string that ends in front of some text ends there, whatever follows that text. -/
theorem stringRest_append_of_ne_nil {quote : Char} {s : Text} (more : Text)
    (h : stringRest quote s ≠ []) : stringRest quote (s ++ more) = stringRest quote s ++ more := by
  have apart : ∀ {c : Char} {t : Text}, (∀ d u, c = '\\' → t = d :: u → False) → t ≠ [] →
      ∀ d u, c = '\\' → t ++ more = d :: u → False := by
    intro c t hescape hne d u hc ht
    obtain ⟨e, t, rfl⟩ := List.exists_cons_of_ne_nil hne
    exact hescape e t hc rfl
  fun_induction stringRest quote s with
  | case1 => exact absurd rfl h
  | case2 c s ih => simpa [stringRest] using ih h
  | case3 s => rfl
  | case4 s hescape hline =>
    rw [List.cons_append, stringRest, if_pos rfl]
    · exact apart hescape h
    · exact hline
  | case5 c s hescape hline hc ih =>
    have hne : s ≠ [] := by
      rintro rfl
      exact h rfl
    rw [List.cons_append, stringRest, if_neg hc, ih h]
    · exact apart hescape hne
    · exact hline

theorem skipTemplate_append {s : Text} (more : Text) (h : skipTemplate s ≠ []) :
    skipTemplate (s ++ more) = skipTemplate s ++ more := by
  cases s with
  | nil => exact absurd rfl h
  | cons c s =>
    rw [skipTemplate] at h ⊢
    cases hleave : leave [.template] s with
    | none =>
      rw [hleave] at h
      exact absurd rfl h
    | some rest =>
      rw [List.cons_append, skipTemplate, leave_append more hleave]
      rfl

/-- A line end that ends a statement does so whatever follows, if that does not continue it. -/
theorem startsWithChar_skipBlanks_append {c : Char} (hc : continuesStatement c = true) {s more : Text}
    (hmore : Stops continuesStatement (Text.skipBlanks more)) :
    startsWithChar c (Text.skipBlanks (s ++ more)) = startsWithChar c (Text.skipBlanks s) := by
  rw [Text.skipBlanks, List.dropWhile_append]
  split
  · rename_i hnil
    rw [Text.skipBlanks, List.isEmpty_iff.mp hnil]
    change startsWithChar c (Text.skipBlanks more) = false
    cases hnext : Text.skipBlanks more with
    | nil => rfl
    | cons d t =>
      rw [hnext] at hmore
      have hd : d ≠ c := by
        rintro rfl
        rw [Text.stops_cons.mp hmore] at hc
        cases hc
      simpa [startsWithChar] using hd
  · rename_i hne
    cases hnext : s.dropWhile isBlank with
    | nil => simp [hnext] at hne
    | cons d t => simp [Text.skipBlanks, hnext, startsWithChar]

theorem consumed_append_append {start here : Text} (h : here <:+ start) (more : Text) :
    Text.consumed (start ++ more) (here ++ more) = Text.consumed start here := by
  obtain ⟨front, rfl⟩ := h
  rw [Text.consumed_append, List.append_assoc, Text.consumed_append]

/-- **What ends a statement is found in front of all that follows**: a search that comes to an end
in a text comes to the same end if more text follows, unless that text continues the statement. -/
theorem statementRestFrom_append {start here more : Text} {n k : Nat} (hsuffix : here <:+ start)
    (hn : here.length ≤ n) (hk : here.length ≤ k) (hne : statementRestFrom start n here ≠ [])
    (hmore : Stops continuesStatement (Text.skipBlanks more)) :
    statementRestFrom (start ++ more) k (here ++ more) = statementRestFrom start n here ++ more := by
  induction n generalizing here k with
  | zero =>
    obtain rfl : here = [] := List.length_eq_zero_iff.mp (Nat.le_zero.mp hn)
    exact absurd rfl hne
  | succ n ih =>
    cases here with
    | nil => exact absurd rfl hne
    | cons c s =>
      obtain ⟨k, rfl⟩ : ∃ m, k = m + 1 := ⟨k - 1, by simp at hk; omega⟩
      have go : ∀ t, t <:+ s → statementRestFrom start n t ≠ [] →
          statementRestFrom (start ++ more) k (t ++ more) = statementRestFrom start n t ++ more := by
        intro t ht hne
        have hlength := ht.length_le
        simp only [List.length_cons] at hn hk
        exact ih (ht.trans (Text.suffix_of_cons hsuffix)) (by omega) (by omega) hne
      -- where the search goes on, something is left
      have left : ∀ {t}, statementRestFrom start n t ≠ [] → t ≠ [] := by
        rintro t ht rfl
        exact ht (statementRestFrom_nil start n)
      rw [List.cons_append]
      rcases search_cases c with hopen | hquote | rfl | rfl | rfl | ⟨hc, hline⟩
      · rw [statementRestFrom_open _ _ _ hopen] at hne
        obtain ⟨rest, hgroup⟩ : ∃ rest, afterGroup? (c :: s) = some rest := by
          cases hgroup : afterGroup? (c :: s) with
          | none => exact absurd (by rw [hgroup]; rfl) (left hne)
          | some rest => exact ⟨rest, rfl⟩
        have happend := afterGroup?_append more hgroup
        rw [List.cons_append] at happend
        rw [hgroup] at hne
        rw [statementRestFrom_open _ _ _ hopen, statementRestFrom_open _ _ _ hopen, happend, hgroup]
        exact go rest (suffix_tail_afterGroup? hgroup) hne
      · rw [statementRestFrom_quote _ _ _ hquote] at hne
        rw [statementRestFrom_quote _ _ _ hquote, statementRestFrom_quote _ _ _ hquote,
          stringRest_append_of_ne_nil more (left hne)]
        exact go _ (suffix_stringRest c s) hne
      · rw [statementRestFrom_backtick] at hne
        rw [statementRestFrom_backtick, statementRestFrom_backtick, ← List.cons_append,
          skipTemplate_append more (left hne)]
        exact go _ (suffix_tail_skipTemplate ('\x60' :: s)) hne
      · rw [statementRestFrom_semicolon, statementRestFrom_semicolon]
      · have hread := consumed_append_append hsuffix more
        rw [List.cons_append] at hread
        rw [statementRestFrom_line] at hne
        rw [statementRestFrom_line, statementRestFrom_line, hread,
          startsWithChar_skipBlanks_append rfl hmore,
          startsWithChar_skipBlanks_append rfl hmore]
        split at hne
        · rename_i hgoes
          rw [if_pos hgoes, if_pos hgoes]
          exact go s List.suffix_rfl hne
        · rename_i hends
          rw [if_neg hends, if_neg hends]
          rfl
      · rw [statementRestFrom_char _ _ _ hc hline] at hne
        rw [statementRestFrom_char _ _ _ hc hline, statementRestFrom_char _ _ _ hc hline]
        exact go s List.suffix_rfl hne

/-- The same of the whole search, a semicolon behind it included. -/
theorem statementRest_append {s more rest : Text} (h : skipSemicolon (statementRest s) = rest)
    (hne : rest ≠ []) (hmore : Stops continuesStatement (Text.skipBlanks more)) :
    statementRest (s ++ more) = statementRest s ++ more := by
  have hfound : statementRestFrom s s.length s ≠ [] := by
    intro hnil
    rw [statementRest, hnil] at h
    exact hne h.symm
  exact statementRestFrom_append List.suffix_rfl (Nat.le_refl _) (by simp) hfound hmore

/-- A semicolon and the end of a line are passed over or left there whatever follows. -/
theorem skipSemicolon_append {s : Text} (h : skipSemicolon s = ['\n']) (more : Text) :
    skipSemicolon (s ++ more) = '\n' :: more := by
  unfold skipSemicolon at h
  split at h
  · rename_i rest hrest
    obtain rfl : rest = ['\n'] := h
    have hpass : Text.skipInline (s ++ more) = ';' :: '\n' :: more := by
      have hsplit : s = s.takeWhile isInline ++ ';' :: ['\n'] := by
        conv_lhs => rw [← List.takeWhile_append_dropWhile (p := isInline) (l := s)]
        rw [show s.dropWhile isInline = ';' :: ['\n'] from hrest]
      rw [hsplit, List.append_assoc]
      exact Text.dropWhile_append (fun _ hc => List.mem_takeWhile_imp hc)
        (Text.stops_cons.mpr (by decide))
    rw [skipSemicolon, hpass]
    rfl
  · rw [h]
    rfl

/-! ### What the search passes over -/

/-- A text that closes all that it opens, without a semicolon outside of that. -/
inductive ClosedText : Text → Prop
  | nil : ClosedText []
  | char {c : Char} {s : Text} (hc : isPassed c = true) (hs : ClosedText s) : ClosedText (c :: s)
  | group (g : BracketGroup) {s : Text} (hs : ClosedText s) : ClosedText (g.text ++ s)
  | string (q : StringType) {s : Text} (hs : ClosedText s) : ClosedText (q.text ++ s)
  | template (t : TemplateType) {s : Text} (hs : ClosedText s) : ClosedText (t.text ++ s)

namespace ClosedText

variable {s t : Text}

theorem append (ht : ClosedText t) (hs : ClosedText s) : ClosedText (t ++ s) := by
  induction ht with
  | nil => exact hs
  | char hc _ ih => exact .char hc ih
  | group g _ ih => exact (List.append_assoc ..).symm ▸ .group g ih
  | string q _ ih => exact (List.append_assoc ..).symm ▸ .string q ih
  | template t _ ih => exact (List.append_assoc ..).symm ▸ .template t ih

/-- A text of fixed characters. -/
theorem literal (h : s.all isPassed = true) : ClosedText s := by
  induction s with
  | nil => exact .nil
  | cons c s ih =>
    obtain ⟨hc, hs⟩ : isPassed c = true ∧ s.all isPassed = true := by simpa using h
    exact .char hc (ih hs)

/-- Whole tokens are passed over. -/
theorem of_tokenText (h : TokenText s) : ClosedText s := by
  induction h with
  | nil => exact .nil
  | char hc _ ih => exact .char (isPassed_of (p := isTokenChar) (by decide) hc) ih
  | group g _ ih => exact .group g ih
  | string q _ ih => exact .string q ih
  | template t _ ih => exact .template t ih

theorem of_inline (h : ∀ c ∈ s, isInline c = true) : ClosedText s := of_tokenText (.of_inline h)

theorem behindBlanks {gap : Text} (hgap : AllBlank gap) (hs : ClosedText s) :
    ClosedText (gap ++ s) := (of_tokenText (.of_allBlank hgap)).append hs

/-- **A type closes all that it opens.** -/
theorem of_typeText {k : TypeKind} (h : TypeText k s) : ClosedText s := of_tokenText (.of_typeText h)

end ClosedText

section Token

variable (start rest : Text) (n : Nat)

theorem statementRestFrom_group (g : BracketGroup) :
    statementRestFrom start (n + 1) (g.text ++ rest) = statementRestFrom start n rest := by
  have hgroup := g.afterGroup?_text rest
  have hopen : (Bracket.opened? g.bracket.opening).isSome = true := by
    rw [g.bracket.opened?_opening]
    rfl
  rw [BracketGroup.text, List.cons_append] at hgroup ⊢
  rw [statementRestFrom_open _ _ _ hopen, hgroup, Option.getD_some]

theorem statementRestFrom_string (q : StringType) :
    statementRestFrom start (n + 1) (q.text ++ rest) = statementRestFrom start n rest := by
  have hend := stringRest_of_leave q.isQuote q.closed rest
  rw [StringType.text, List.cons_append, statementRestFrom_quote _ _ _ q.isQuote,
    List.append_assoc, List.singleton_append, hend]

theorem statementRestFrom_template (t : TemplateType) :
    statementRestFrom start (n + 1) (t.text ++ rest) = statementRestFrom start n rest := by
  have hend := t.skipTemplate_text rest
  rw [TemplateType.text, List.cons_append] at hend ⊢
  rw [statementRestFrom_backtick, hend]

end Token

/-- The search comes to the end of the text, whatever follows. -/
def SearchPasses (t : Text) : Prop :=
  ∀ (start rest : Text) {n : Nat}, (t ++ rest).length ≤ n → ∃ k, rest.length ≤ k ∧
    statementRestFrom start n (t ++ rest) = statementRestFrom start k rest

/-- A piece that one step passes over, in front of the text. -/
theorem SearchPasses.behind {x s : Text} (hs : SearchPasses s) (hne : x ≠ [])
    (hstep : ∀ start rest n,
      statementRestFrom start (n + 1) (x ++ rest) = statementRestFrom start n rest) :
    SearchPasses (x ++ s) := by
  intro start rest n hn
  have hlength := List.length_pos_iff.mpr hne
  simp only [List.append_assoc, List.length_append] at hn ⊢
  obtain ⟨n, rfl⟩ : ∃ m, n = m + 1 := ⟨n - 1, by omega⟩
  rw [hstep]
  exact hs start rest (by rw [List.length_append]; omega)

/-- **The search passes over a text that closes all that it opens**, if that is on one line. -/
theorem ClosedText.searchPasses {t : Text} (ht : ClosedText t) (hline : '\n' ∉ t) : SearchPasses t := by
  induction ht with
  | nil => exact fun _ _ n hn => ⟨n, hn, rfl⟩
  | @char c s hc _ ih =>
    obtain ⟨hne, hline⟩ := not_or.mp (fun h => hline (List.mem_cons.mpr h))
    exact (ih hline).behind (x := [c]) (List.cons_ne_nil c _)
      fun start rest n => statementRestFrom_char start rest n hc (Ne.symm hne)
  | group g _ ih =>
    exact (ih fun h => hline (List.mem_append_right _ h)).behind (List.cons_ne_nil _ _)
      fun start rest n => statementRestFrom_group start rest n g
  | string q _ ih =>
    exact (ih fun h => hline (List.mem_append_right _ h)).behind (List.cons_ne_nil _ _)
      fun start rest n => statementRestFrom_string start rest n q
  | template t _ ih =>
    exact (ih fun h => hline (List.mem_append_right _ h)).behind (List.cons_ne_nil _ _)
      fun start rest n => statementRestFrom_template start rest n t

/-! ### A search that ends with its line -/

/-- A text through which the search comes to the end of the line: it closes all that it opens, but
for a string, which ends with the line. -/
inductive LineText : Text → Prop
  | closed {t : Text} (ht : ClosedText t) : LineText t
  | quoted {t s : Text} {quote : Char} (ht : ClosedText t) (hquote : isQuote quote = true)
      (hs : stringRest quote (s ++ ['\n']) = ['\n']) : LineText (t ++ quote :: s)

/-- What is in front of a character does not decide whether a line end closes the statement. -/
theorem isDangling_append (t : Text) {c : Char} (hc : isSpace c = false) (s : Text) :
    isDangling (t ++ c :: s) = isDangling (c :: s) := by
  have hne : (c :: s).reverse.dropWhile isSpace ≠ [] := by
    intro hnil
    have hall := List.dropWhile_eq_nil_iff.mp hnil c (by simp)
    rw [hc] at hall
    cases hall
  have hlast : (Text.trimEnd (t ++ c :: s)).getLast? = (Text.trimEnd (c :: s)).getLast? := by
    rw [Text.trimEnd, Text.trimEnd, Text.trimEndBy, Text.trimEndBy, List.reverse_append,
      List.dropWhile_append, if_neg (by simpa using hne), List.getLast?_reverse,
      List.getLast?_reverse, List.head?_append_of_ne_nil _ hne]
  rw [isDangling, isDangling, hlast]

theorem LineText.behind {t u : Text} (ht : ClosedText t) (hu : LineText u) : LineText (t ++ u) := by
  cases hu with
  | closed hu => exact .closed (ht.append hu)
  | quoted hu hquote hs => exact (List.append_assoc ..) ▸ .quoted (ht.append hu) hquote hs

theorem LineText.statementRest_line {t : Text} (ht : LineText t) (hline : '\n' ∉ t)
    (hends : isDangling t = false) : statementRest (t ++ ['\n']) = ['\n'] := by
  have hend : ∀ k, statementRestFrom (t ++ ['\n']) (k + 1) ['\n'] = ['\n'] := by
    intro k
    rw [statementRestFrom]
    simp [Bracket.opened?, isQuote, Text.consumed_append, hends, startsWithChar]
  cases ht with
  | closed ht =>
    obtain ⟨k, hk, hsearch⟩ := ht.searchPasses hline (t ++ ['\n']) ['\n'] (Nat.le_refl _)
    obtain ⟨k, rfl⟩ : ∃ m, k = m + 1 := ⟨k - 1, by simp at hk; omega⟩
    rw [statementRest, hsearch, hend]
  | @quoted t s quote ht hquote hs =>
    have hfront : '\n' ∉ t := fun h => hline (List.mem_append_left _ h)
    obtain ⟨k, hk, hsearch⟩ := ht.searchPasses hfront (t ++ quote :: s ++ ['\n'])
      (quote :: s ++ ['\n']) (Nat.le_refl _)
    obtain ⟨k, rfl⟩ : ∃ m, k = m + 2 := ⟨k - 2, by simp at hk; omega⟩
    rw [statementRest, List.append_assoc]
    rw [List.append_assoc] at hsearch hend
    rw [hsearch, List.cons_append, statementRestFrom_quote _ _ _ hquote, hs]
    exact hend k

end LivePreview.Erasure
