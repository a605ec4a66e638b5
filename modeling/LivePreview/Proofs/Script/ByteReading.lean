/-
Reading code byte by byte.

The readers of this library look at characters of ASCII only.  So each of them does the same on a
text and on its bytes, and leaves the bytes of what it leaves: it commutes with `spread`.  Where a
reader passes a single character whatever it is, the one behind a backslash, it passes a single byte
and goes on inside of a character; the bytes that are left of that character open and close nothing.
-/
import LivePreview.Proofs.Erasure.LoopBound
import LivePreview.Proofs.Script.BracketWord
import LivePreview.Proofs.Text.Bytes

namespace LivePreview

open Text (spread isAscii)

variable {s t rest : Text} {c d : Char}

namespace Text

/-! ### Characters and bytes in front -/

/-- A class of characters that holds of all characters beyond ASCII, or of none of them. -/
def Uniform (p : Char → Bool) (b : Bool) : Prop := ∀ c, isAscii c = false → p c = b

/-- Bytes that are no characters of ASCII. -/
def Wide (ds : Text) : Prop := ∀ d ∈ ds, isAscii d = false

theorem wide_spread (h : isAscii c = false) : Wide (spread [c]) := fun _ hd =>
  isAscii_of_mem_spread h hd

/-- The bytes of a character beyond ASCII: a first one, and others. -/
theorem spread_wide (h : isAscii c = false) (s : Text) :
    ∃ d ds, spread (c :: s) = d :: (ds ++ spread s) ∧ isAscii d = false ∧ Wide ds := by
  obtain ⟨d, ds, hds⟩ := List.exists_cons_of_ne_nil (spread_singleton_ne_nil c)
  have hwide := wide_spread h
  rw [hds] at hwide
  refine ⟨d, ds, by rw [spread_cons, hds]; rfl, hwide d List.mem_cons_self, fun x hx => ?_⟩
  exact hwide x (List.mem_cons_of_mem d hx)

/-- What a byte in front of a text can be: a character of ASCII that stands there in both, or the
first byte of another one. -/
theorem spread_cases (s : Text) :
    (s = [] ∧ spread s = []) ∨
    (∃ c t, isAscii c = true ∧ s = c :: t ∧ spread s = c :: spread t) ∨
    (∃ c t d ds, isAscii c = false ∧ isAscii d = false ∧ s = c :: t ∧ spread s = d :: ds) := by
  cases s with
  | nil => exact .inl ⟨rfl, rfl⟩
  | cons c t =>
    cases hc : isAscii c with
    | true => exact .inr (.inl ⟨c, t, hc, rfl, spread_ascii hc t⟩)
    | false =>
      obtain ⟨d, ds, hspread, hd, -⟩ := spread_wide hc t
      exact .inr (.inr ⟨c, t, d, _, hc, hd, rfl, hspread⟩)

/-- A character of ASCII in front of the bytes stands in front of the text. -/
theorem exists_of_spread_eq_cons (hc : isAscii c = true) (h : spread s = c :: t) :
    ∃ u, s = c :: u ∧ t = spread u := by
  obtain ⟨-, hnil⟩ | ⟨d, u, -, rfl, hcons⟩ | ⟨_, _, d, _, -, hd, -, hcons⟩ := spread_cases s
  · rw [hnil] at h
    cases h
  · rw [hcons] at h
    cases h
    exact ⟨u, rfl, rfl⟩
  · rw [hcons] at h
    cases h
    rw [hc] at hd
    cases hd

theorem head?_spread_eq_some (hc : isAscii c = true) :
    (spread s).head? = some c ↔ s.head? = some c := by
  obtain ⟨rfl, h⟩ | ⟨d, u, -, rfl, h⟩ | ⟨e, u, d, ds, he, hd, rfl, h⟩ := spread_cases s
  · rw [h]
  · rw [h, List.head?_cons, List.head?_cons]
  · rw [h, List.head?_cons, List.head?_cons, Option.some_inj, Option.some_inj]
    constructor <;> rintro rfl <;> simp_all

/-! ### Classes of characters -/

theorem Uniform.spread {p : Char → Bool} {b : Bool} (h : Uniform p b) (c : Char) :
    ∀ d ∈ spread [c], p d = p c := by
  intro d hd
  cases hc : isAscii c with
  | true =>
    rw [spread_ascii hc, spread_nil] at hd
    rw [List.mem_singleton.mp hd]
  | false => rw [h d (wide_spread hc d hd), h c hc]

theorem dropWhile_spread {p : Char → Bool} {b : Bool} (h : Uniform p b) (s : Text) :
    (spread s).dropWhile p = spread (s.dropWhile p) := by
  induction s with
  | nil => rfl
  | cons c s ih =>
    rw [spread_cons]
    cases hc : p c with
    | true =>
      have hall : ∀ d ∈ spread [c], p d = true := fun d hd => (h.spread c d hd).trans hc
      rw [List.dropWhile_append_of_pos hall, ih, List.dropWhile_cons_of_pos hc]
    | false =>
      obtain ⟨d, ds, hds⟩ := List.exists_cons_of_ne_nil (spread_singleton_ne_nil c)
      have hd : p d = false := by rw [h.spread c d (hds ▸ List.mem_cons_self), hc]
      rw [hds, List.cons_append, List.dropWhile_cons_of_neg (by simp [hd]),
        List.dropWhile_cons_of_neg (by simp [hc]), spread_cons c s, hds, List.cons_append]

/-- A class of characters of ASCII. -/
theorem uniform_of {p : Char → Bool} (h : ∀ c, p c = true → isAscii c = true) :
    Uniform p false := by
  intro c hc
  by_contra hp
  rw [h c (by simpa using hp)] at hc
  cases hc

theorem uniform_isBlank : Uniform isBlank false := by
  refine uniform_of fun c h => ?_
  simp only [isBlank, Bool.or_eq_true, beq_iff_eq] at h
  obtain (((rfl | rfl) | rfl) | rfl) | rfl := h <;> rfl

theorem uniform_isInline : Uniform isInline false := by
  refine uniform_of fun c h => ?_
  simp only [isInline, Bool.or_eq_true, beq_iff_eq] at h
  obtain rfl | rfl := h <;> rfl

theorem uniform_ne (hd : isAscii d = true) : Uniform (· != d) true := by
  intro c hc
  rw [bne_iff_ne]
  rintro rfl
  rw [hd] at hc
  cases hc

theorem skipBlanks_spread (s : Text) : skipBlanks (spread s) = spread (skipBlanks s) :=
  dropWhile_spread uniform_isBlank s

theorem skipInline_spread (s : Text) : skipInline (spread s) = spread (skipInline s) :=
  dropWhile_spread uniform_isInline s

theorem skipLine_spread (s : Text) : skipLine (spread s) = spread (skipLine s) :=
  dropWhile_spread (uniform_ne rfl) s

end Text

namespace Script

open Text (Uniform Wide wide_spread spread_wide spread_ascii spread_cases spread_nil
  exists_of_spread_eq_cons)

variable {inside up : List Within} {w : Within} {q : Char} {b : Bracket} {ds : Text}

/-! ### Literals and groups -/

theorem isAscii_of_isQuote (h : isQuote c = true) : isAscii c = true := by
  simp only [isQuote, Bool.or_eq_true, beq_iff_eq] at h
  obtain rfl | rfl := h <;> rfl

theorem uniform_isQuote : Uniform isQuote false :=
  Text.uniform_of fun _ => isAscii_of_isQuote

theorem isAscii_of_opened? (h : Bracket.opened? c = some b) : isAscii c = true := by
  obtain rfl | rfl | rfl := Bracket.opened?_cases h <;> rfl

theorem isAscii_of_closed? (h : Bracket.closed? c = some b) : isAscii c = true := by
  obtain rfl | rfl | rfl := Bracket.closed?_cases h <;> rfl

theorem brackets_of_wide (h : isAscii c = false) :
    Bracket.opened? c = none ∧ Bracket.closed? c = none := by
  constructor
  · refine Option.eq_none_iff_forall_not_mem.mpr fun b hb => ?_
    rw [isAscii_of_opened? hb] at h
    cases h
  · refine Option.eq_none_iff_forall_not_mem.mpr fun b hb => ?_
    rw [isAscii_of_closed? hb] at h
    cases h

/-- A character beyond ASCII is none of ASCII. -/
theorem ne_of_wide (h : isAscii c = false) (hd : isAscii d = true) : c ≠ d := by
  rintro rfl
  rw [hd] at h
  cases h

/-- A backslash that nothing follows in the text is followed by nothing in the bytes. -/
theorem last_spread (h : ∀ d u, c = '\\' → s = d :: u → False) :
    ∀ d u, c = '\\' → spread s = d :: u → False := by
  intro d u hc hu
  cases s with
  | nil => cases hu
  | cons e s => exact h e s hc rfl

/-- A pair of characters that does not stand in front of the text does not do so in the bytes. -/
theorem pair_spread {e : Char} (he : isAscii e = true) (h : ∀ t, c = d → s = e :: t → False) :
    ∀ t, c = d → spread s = e :: t → False := by
  intro t hc ht
  obtain ⟨u, rfl, -⟩ := exists_of_spread_eq_cons he ht
  exact h u hc rfl

/-- Anything but the place behind a backslash; strings are between quotes of ASCII. -/
def Within.Steady : Within → Prop
  | .escaped => False
  | .quoted q => isAscii q = true
  | _ => True

/-- Behind a backslash there is something to go on in, and so is everywhere else. -/
def Calm : List Within → Prop
  | .escaped :: w :: up => w.Steady ∧ ∀ v ∈ up, v.Steady
  | inside => ∀ v ∈ inside, v.Steady

theorem calm_of_steady (h : ∀ v ∈ inside, v.Steady) : Calm inside := by
  unfold Calm
  split
  · exact (h .escaped List.mem_cons_self).elim
  · exact h

theorem Calm.steady (h : Calm (w :: up)) (hw : w ≠ .escaped) : ∀ v ∈ w :: up, v.Steady := by
  unfold Calm at h
  split at h
  · rename_i heq
    cases heq
    exact absurd rfl hw
  · exact h

/-- What is around is calm, and so is what a group, a comment or a literal is opened in. -/
theorem Calm.outer (h : Calm (w :: up)) (hw : w ≠ .escaped) : Calm up :=
  calm_of_steady fun v hv => h.steady hw v (List.mem_cons_of_mem w hv)

theorem Calm.enter {v : Within} (h : Calm (w :: up)) (hw : w ≠ .escaped) (hv : v.Steady) :
    Calm (v :: w :: up) := by
  refine calm_of_steady fun u hu => ?_
  obtain rfl | hu := List.mem_cons.mp hu
  · exact hv
  · exact h.steady hw u hu

theorem Calm.escape (h : Calm (w :: up)) (hw : w ≠ .escaped) : Calm (.escaped :: w :: up) :=
  ⟨h.steady hw w List.mem_cons_self, fun v hv => h.steady hw v (List.mem_cons_of_mem w hv)⟩

/-- Bytes beyond ASCII are passed wherever the reader is, but behind a backslash. -/
theorem leave_wide (hw : w.Steady) (hds : Wide ds) (s : Text) :
    leave (w :: up) (ds ++ s) = leave (w :: up) s := by
  induction ds with
  | nil => rfl
  | cons d ds ih =>
    have hd := hds d List.mem_cons_self
    have hne : ∀ {e : Char}, isAscii e = true → d ≠ e := fun he => ne_of_wide hd he
    have ih := ih fun x hx => hds x (List.mem_cons_of_mem d hx)
    obtain ⟨hopen, hclose⟩ := brackets_of_wide hd
    have hquote : isQuote d = false := uniform_isQuote d hd
    rw [List.cons_append, ← ih]
    cases w with
    | escaped => exact hw.elim
    | quoted q =>
      have hline : d ≠ '\n' := hne rfl
      rw [leave, if_neg (hne rfl), if_neg (by simp [hline, hne hw])]
    | lineComment => rw [leave, if_neg (hne rfl)]
    | blockComment =>
      rw [leave]
      exact fun _ h => absurd h (hne rfl)
    | template =>
      rw [leave, if_neg (hne rfl), if_neg (hne rfl)]
      exact fun _ h => absurd h (hne rfl)
    | group b =>
      rw [leave, hquote, if_neg Bool.false_ne_true, if_neg (hne rfl), hopen, hclose]
      · exact fun _ h => absurd h (hne rfl)
      · exact fun _ h => absurd h (hne rfl)

/-- Behind a backslash one character is passed, of which the reader passes the first byte there. -/
theorem leave_escaped_spread (hw : w.Steady) (c : Char) (s : Text) :
    leave (.escaped :: w :: up) (spread (c :: s)) = leave (w :: up) (spread s) := by
  cases hc : isAscii c with
  | true => rw [spread_ascii hc, leave]
  | false =>
    obtain ⟨d, ds, hspread, -, hds⟩ := spread_wide hc s
    rw [hspread, leave, leave_wide hw hds]

/-- A character that changes nothing is passed with all of its bytes. -/
theorem leave_spread_passed (h : Calm (w :: up)) (hw : w ≠ .escaped)
    (hsame : isAscii c = true → leave (w :: up) (c :: spread s) = leave (w :: up) (spread s)) :
    leave (w :: up) (spread (c :: s)) = leave (w :: up) (spread s) := by
  cases hc : isAscii c with
  | true => rw [spread_ascii hc, hsame hc]
  | false =>
    rw [Text.spread_cons]
    exact leave_wide (h.steady hw w List.mem_cons_self) (wide_spread hc) _

/-- **Groups, strings, templates and comments are left in the bytes where they are in the text.** -/
theorem leave_spread (h : Calm inside) :
    leave inside (spread s) = (leave inside s).map spread := by
  fun_induction leave inside s with
  | case1 s => simp [leave]
  | case2 => rfl
  | case3 up c s ih =>
    cases up with
    | nil => exact (h .escaped List.mem_cons_self).elim
    | cons w up =>
      obtain ⟨hw, hup⟩ := h
      rw [leave_escaped_spread hw, ih (calm_of_steady (List.forall_mem_cons.mpr ⟨hw, hup⟩))]
  | case4 q up s ih => rw [spread_ascii rfl, leave, if_pos rfl, ih (h.escape (by simp))]
  | case5 q up c s hslash hend ih =>
    have hc : isAscii c = true := by
      obtain rfl | rfl : c = '\n' ∨ c = q := by simpa using hend
      · rfl
      · exact h.steady (by simp) _ List.mem_cons_self
    rw [spread_ascii hc, leave, if_neg hslash, if_pos hend, ih (h.outer (by simp))]
  | case6 q up c s hslash hend ih =>
    rw [← ih h]
    exact leave_spread_passed h (by simp) fun _ => by rw [leave, if_neg hslash, if_neg hend]
  | case7 up c s ih =>
    by_cases hc : c = '\n'
    · subst hc
      simp only [if_true] at ih ⊢
      rw [spread_ascii rfl, leave, if_pos rfl, ih (h.outer (by simp))]
    · simp only [if_neg hc] at ih ⊢
      rw [← ih h]
      exact leave_spread_passed h (by simp) fun _ => by rw [leave, if_neg hc]
  | case8 up s ih => rw [spread_ascii rfl, spread_ascii rfl, leave, ih (h.outer (by simp))]
  | case9 up c s hpair ih =>
    rw [← ih h]
    refine leave_spread_passed h (by simp) fun _ => ?_
    rw [leave]
    exact pair_spread rfl hpair
  | case10 up s ih =>
    rw [spread_ascii rfl, spread_ascii rfl, leave, ih (h.enter (by simp) trivial)]
  | case11 up s hpair ih =>
    rw [spread_ascii rfl, leave, if_pos rfl, ih (h.escape (by simp))]
    exact pair_spread rfl hpair
  | case12 up c s hpair hslash ih =>
    by_cases hc : c = '\x60'
    · subst hc
      simp only [if_true] at ih ⊢
      rw [spread_ascii rfl, leave, if_neg hslash, if_pos rfl, ih (h.outer (by simp))]
      exact pair_spread rfl hpair
    · simp only [if_neg hc] at ih ⊢
      rw [← ih h]
      refine leave_spread_passed h (by simp) fun _ => ?_
      rw [leave, if_neg hslash, if_neg hc]
      exact pair_spread rfl hpair
  | case13 b up s ih =>
    rw [spread_ascii rfl, spread_ascii rfl, leave, ih (h.enter (by simp) trivial)]
  | case14 b up s ih =>
    rw [spread_ascii rfl, spread_ascii rfl, leave, ih (h.enter (by simp) trivial)]
  | case15 b up c s hline hblock hq ih =>
    have hc := isAscii_of_isQuote hq
    rw [spread_ascii hc, leave, if_pos hq, ih (h.enter (by simp) hc)]
    · exact pair_spread rfl hline
    · exact pair_spread rfl hblock
  | case16 b up s hline hblock hq ih =>
    rw [spread_ascii rfl, leave, if_neg hq, if_pos rfl, ih (h.enter (by simp) trivial)]
    · exact pair_spread rfl hline
    · exact pair_spread rfl hblock
  | case17 b up c s hline hblock hq htick inner hopen ih =>
    rw [spread_ascii (isAscii_of_opened? hopen), leave_opening hopen, ih (h.enter (by simp) trivial)]
  | case18 up c s hline hblock hq htick closed hclose hopen ih =>
    rw [spread_ascii (isAscii_of_closed? hclose), leave_closing hclose, if_pos rfl,
      ih (h.outer (by simp))]
  | case19 b up c s hline hblock hq htick closed hclose hopen hne =>
    rw [spread_ascii (isAscii_of_closed? hclose), leave_closing hclose, if_neg hne, Option.map_none]
  | case20 b up c s hline hblock hq htick hclose hopen ih =>
    rw [← ih h]
    refine leave_spread_passed h (by simp) fun _ => ?_
    rw [leave, if_neg hq, if_neg htick, hopen, hclose]
    · exact pair_spread rfl hline
    · exact pair_spread rfl hblock

theorem afterGroup?_spread (s : Text) :
    afterGroup? (spread s) = (afterGroup? s).map spread := by
  obtain ⟨rfl, h⟩ | ⟨c, t, -, rfl, h⟩ | ⟨c, t, d, ds, hc, hd, rfl, h⟩ := spread_cases s
  · rfl
  · rw [h, afterGroup?, afterGroup?]
    cases Bracket.opened? c with
    | none => rfl
    | some b => exact leave_spread (calm_of_steady (by simp [Within.Steady]))
  · rw [h, afterGroup?, afterGroup?, (brackets_of_wide hc).1, (brackets_of_wide hd).1]
    rfl

theorem skipTemplate_spread (s : Text) :
    skipTemplate ('\x60' :: spread s) = spread (skipTemplate ('\x60' :: s)) := by
  rw [skipTemplate, skipTemplate, leave_spread (calm_of_steady (by simp [Within.Steady]))]
  cases leave [.template] s <;> rfl

theorem stringRest_wide (hds : Wide ds) (hq : isAscii q = true) (s : Text) :
    stringRest q (ds ++ s) = stringRest q s := by
  induction ds with
  | nil => rfl
  | cons d ds ih =>
    have hd := hds d List.mem_cons_self
    rw [List.cons_append, stringRest, if_neg (ne_of_wide hd hq)]
    · exact ih fun x hx => hds x (List.mem_cons_of_mem d hx)
    · exact fun _ _ h => absurd h (ne_of_wide hd rfl)
    · exact ne_of_wide hd rfl

theorem stringRest_spread (hq : isAscii q = true) (s : Text) :
    stringRest q (spread s) = spread (stringRest q s) := by
  fun_induction stringRest q s with
  | case1 => rfl
  | case2 c s ih =>
    rw [spread_ascii rfl]
    cases hc : isAscii c with
    | true => rw [spread_ascii hc, stringRest, ih]
    | false =>
      obtain ⟨d, ds, hspread, -, hds⟩ := spread_wide hc s
      rw [hspread, stringRest, stringRest_wide hds hq, ih]
  | case3 s => rw [spread_ascii rfl, stringRest]
  | case4 s hescape hline =>
    rw [spread_ascii hq, stringRest, if_pos rfl]
    · exact last_spread hescape
    · exact hline
  | case5 c s hescape hline hc ih =>
    cases hascii : isAscii c with
    | true =>
      rw [spread_ascii hascii, stringRest, if_neg hc, ih]
      · exact last_spread hescape
      · exact hline
    | false => rw [Text.spread_cons, stringRest_wide (wide_spread hascii) hq, ih]

theorem blockRest_wide (hds : Wide ds) (s : Text) : blockRest (ds ++ s) = blockRest s := by
  induction ds with
  | nil => rfl
  | cons d ds ih =>
    have hd := hds d List.mem_cons_self
    rw [List.cons_append, blockRest]
    · exact ih fun x hx => hds x (List.mem_cons_of_mem d hx)
    · exact fun _ h => absurd h (ne_of_wide hd rfl)

theorem blockRest_spread (s : Text) : blockRest (spread s) = spread (blockRest s) := by
  fun_induction blockRest s with
  | case1 => rfl
  | case2 s => rw [spread_ascii rfl, spread_ascii rfl, blockRest]
  | case3 c s hend ih =>
    cases hc : isAscii c with
    | true =>
      rw [spread_ascii hc, blockRest, ih]
      exact pair_spread rfl hend
    | false => rw [Text.spread_cons, blockRest_wide (wide_spread hc), ih]

/-! ### Comments between tokens -/

theorem triviaRest_spread (n : Nat) (s : Text) :
    triviaRest n (spread s) = spread (triviaRest n s) := by
  induction n generalizing s with
  | zero => exact Text.skipBlanks_spread s
  | succ n ih =>
    simp only [triviaRest, Text.skipBlanks_spread]
    generalize Text.skipBlanks s = t
    split
    · rename_i u hu
      obtain ⟨v, rfl, hv⟩ := exists_of_spread_eq_cons rfl hu
      obtain ⟨w, rfl, rfl⟩ := exists_of_spread_eq_cons rfl hv.symm
      rw [Text.skipLine_spread, ih]
      rfl
    · rename_i u hu
      obtain ⟨v, rfl, hv⟩ := exists_of_spread_eq_cons rfl hu
      obtain ⟨w, rfl, rfl⟩ := exists_of_spread_eq_cons rfl hv.symm
      rw [blockRest_spread, ih]
      rfl
    · rename_i hline hblock
      split
      · exact absurd (by rw [spread_ascii rfl, spread_ascii rfl]) (hline _)
      · exact absurd (by rw [spread_ascii rfl, spread_ascii rfl]) (hblock _)
      · rfl

theorem triviaRest_stable {n k : Nat} {s : Text} (hn : s.length ≤ n) (hk : s.length ≤ k) :
    triviaRest n s = triviaRest k s := by
  refine bound_stable List.length triviaRest ?_ ?_ hn hk
  · intro n k s hs
    obtain rfl := List.length_eq_zero_iff.mp hs
    cases n <;> cases k <;> rfl
  · intro n k s hshorter
    have hs := Text.length_skipBlanks_le s
    simp only [triviaRest]
    split
    · rename_i t ht
      rw [ht, List.length_cons, List.length_cons] at hs
      have hrest : (Text.skipLine t).length ≤ t.length := (List.dropWhile_suffix _).length_le
      exact hshorter _ (by omega)
    · rename_i t ht
      rw [ht, List.length_cons, List.length_cons] at hs
      have hrest := (suffix_blockRest t).length_le
      exact hshorter _ (by omega)
    · rfl

theorem length_le_byteSize (s : Text) : s.length ≤ Text.byteSize s := by
  induction s with
  | nil => exact Nat.le_refl 0
  | cons c s ih =>
    have hpos := c.utf8Size_pos
    rw [List.length_cons, Text.byteSize_cons]
    omega

theorem length_le_spread (s : Text) : s.length ≤ (spread s).length := by
  rw [Text.length_spread]
  exact length_le_byteSize s

theorem skipTrivia_spread (s : Text) : skipTrivia (spread s) = spread (skipTrivia s) := by
  rw [skipTrivia, triviaRest_spread, skipTrivia,
    triviaRest_stable (length_le_spread s) (Nat.le_refl s.length)]

/-! ### Words -/

theorem isAscii_of_le (hcd : c ≤ d) (hd : isAscii d = true) : isAscii c = true := by
  have hle : c.toNat ≤ d.toNat := UInt32.le_iff_toNat_le.mp (Char.le_def.mp hcd)
  simp only [isAscii, decide_eq_true_eq] at hd ⊢
  omega

theorem isAscii_of_isAsciiDigit (h : isAsciiDigit c = true) : isAscii c = true := by
  simp only [isAsciiDigit, Bool.and_eq_true, decide_eq_true_eq] at h
  exact isAscii_of_le h.2 rfl

theorem isAscii_of_isIdentStart (h : isIdentStart c = true) : isAscii c = true := by
  simp only [isIdentStart, isAsciiLetter, Bool.or_eq_true, Bool.and_eq_true, decide_eq_true_eq,
    beq_iff_eq] at h
  obtain ((⟨-, h⟩ | ⟨-, h⟩) | rfl) | rfl := h
  · exact isAscii_of_le h rfl
  · exact isAscii_of_le h rfl
  · rfl
  · rfl

theorem isAscii_of_isIdentChar (h : isIdentChar c = true) : isAscii c = true := by
  rw [isIdentChar, Bool.or_eq_true] at h
  exact h.elim isAscii_of_isIdentStart isAscii_of_isAsciiDigit

theorem uniform_isAsciiDigit : Uniform isAsciiDigit false :=
  Text.uniform_of fun _ => isAscii_of_isAsciiDigit

theorem uniform_isIdentStart : Uniform isIdentStart false :=
  Text.uniform_of fun _ => isAscii_of_isIdentStart

theorem uniform_isIdentChar : Uniform isIdentChar false :=
  Text.uniform_of fun _ => isAscii_of_isIdentChar

theorem startsIdent_spread (s : Text) : startsIdent (spread s) = startsIdent s := by
  obtain ⟨rfl, h⟩ | ⟨c, t, -, rfl, h⟩ | ⟨c, t, d, ds, hc, hd, rfl, h⟩ := spread_cases s
  · rfl
  · rw [h, startsIdent, startsIdent]
  · rw [h, startsIdent, startsIdent, uniform_isIdentStart c hc, uniform_isIdentStart d hd]

theorem skipIdent_spread (s : Text) : skipIdent (spread s) = spread (skipIdent s) := by
  obtain ⟨rfl, h⟩ | ⟨c, t, -, rfl, h⟩ | ⟨c, t, d, ds, hc, hd, rfl, h⟩ := spread_cases s
  · rfl
  · rw [h, skipIdent, skipIdent, Text.dropWhile_spread uniform_isIdentChar]
    split
    · rfl
    · rw [h]
  · rw [h, skipIdent, skipIdent, uniform_isIdentStart c hc, uniform_isIdentStart d hd,
      if_neg Bool.false_ne_true, if_neg Bool.false_ne_true, h]

theorem takeWhile_spread {p : Char → Bool} (h : Uniform p false) (s : Text) :
    (spread s).takeWhile p = s.takeWhile p := by
  induction s with
  | nil => rfl
  | cons c s ih =>
    cases hc : isAscii c with
    | true => rw [spread_ascii hc, List.takeWhile_cons, List.takeWhile_cons, ih]
    | false =>
      obtain ⟨d, ds, hspread, hd, -⟩ := spread_wide hc s
      rw [hspread, List.takeWhile_cons_of_neg (by simp [h d hd]),
        List.takeWhile_cons_of_neg (by simp [h c hc])]

theorem ident_spread (s : Text) : ident (spread s) = ident s := by
  obtain ⟨rfl, h⟩ | ⟨c, t, -, rfl, h⟩ | ⟨c, t, d, ds, hc, hd, rfl, h⟩ := spread_cases s
  · rfl
  · rw [h, ident, ident, takeWhile_spread uniform_isIdentChar]
  · rw [h, ident, ident, uniform_isIdentStart c hc, uniform_isIdentStart d hd]
    rfl

theorem afterKeyword?_spread (w s : Text) :
    afterKeyword? w (spread s) = (afterKeyword? w s).map spread := by
  rw [afterKeyword?, afterKeyword?, word?, word?, ident_spread, skipIdent_spread]
  split <;> split <;> rfl

theorem dottedRest_spread (n : Nat) (s : Text) :
    dottedRest n (spread s) = spread (dottedRest n s) := by
  induction n generalizing s with
  | zero => rfl
  | succ n ih =>
    simp only [dottedRest, skipIdent_spread]
    generalize skipIdent s = t
    split
    · rename_i u hu
      obtain ⟨v, rfl, rfl⟩ := exists_of_spread_eq_cons rfl hu
      rw [startsIdent_spread, ih]
      show _ = spread (if startsIdent v then dottedRest n v else '.' :: v)
      split
      · rfl
      · rw [spread_ascii rfl]
    · rename_i hdot
      split
      · exact absurd (spread_ascii rfl _) (hdot _)
      · rfl

end Script

end LivePreview
