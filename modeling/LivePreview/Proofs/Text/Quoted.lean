/-
What a quoted text stands for.

A string literal between double quotes is read character by character: a backslash and what follows
it stand for one character, and any other character for itself.  What `Text.quoted` writes is read
back to the text that was quoted.  The one exception are texts in which a digit follows a null
character: that is written as a backslash, a zero and the digit, and no literal may hold these.
-/
import LivePreview.Text.Quoted
import LivePreview.Proofs.Text.Reading

namespace LivePreview.Text

/-! ### Reading a literal -/

/-- The value of a hexadecimal digit. -/
def hexDigit? (c : Char) : Option Nat :=
  if isAsciiDigit c then some (c.toNat - '0'.toNat)
  else if 'a' ≤ c && c ≤ 'f' then some (c.toNat - 'a'.toNat + 10)
  else if 'A' ≤ c && c ≤ 'F' then some (c.toNat - 'A'.toNat + 10)
  else none

/-- Where the reader of a literal stands. -/
inductive LiteralPlace where
  /-- in front of a character -/
  | plain
  /-- behind a backslash -/
  | escape
  /-- in front of the brace of a code point -/
  | codePoint
  /-- among the digits of a code point, with the value of those in front -/
  | digits (n : Nat)

/-- The text that a literal between double quotes stands for, from any place inside of it on. -/
def literalValue? : LiteralPlace → Text → Option Text
  | _, [] => none
  | .plain, c :: s =>
    if c = '"' then if s.isEmpty then some [] else none
    else if c = '\n' || c = '\r' then none
    else if c = '\\' then literalValue? .escape s
    else (literalValue? .plain s).map (c :: ·)
  | .escape, c :: s =>
    if c = 'n' then (literalValue? .plain s).map ('\n' :: ·)
    else if c = 'r' then (literalValue? .plain s).map ('\r' :: ·)
    else if c = 't' then (literalValue? .plain s).map ('\t' :: ·)
    else if c = 'u' then literalValue? .codePoint s
    else if c = '0' then
      if s.head?.any isAsciiDigit then none else (literalValue? .plain s).map ('\x00' :: ·)
    else if c = '"' || c = '\\' then (literalValue? .plain s).map (c :: ·)
    else none
  | .codePoint, c :: s => if c = '{' then literalValue? (.digits 0) s else none
  | .digits n, c :: s =>
    if c = '\x7d' then (literalValue? .plain s).map (Char.ofNat n :: ·)
    else (hexDigit? c).bind fun d => literalValue? (.digits (16 * n + d)) s

/-! ### Reading what was quoted -/

theorem hexDigit?_digitChar {d : Nat} (h : d < 16) :
    hexDigit? d.digitChar = some d ∧ d.digitChar ≠ '\x7d' := by
  have hall : ∀ d < 16, hexDigit? d.digitChar = some d ∧ d.digitChar ≠ '\x7d' := by decide
  exact hall d h

theorem literalValue?_digit {d : Nat} (h : d < 16) (n : Nat) (s : Text) :
    literalValue? (.digits n) (d.digitChar :: s) = literalValue? (.digits (16 * n + d)) s := by
  obtain ⟨hvalue, hbrace⟩ := hexDigit?_digitChar h
  rw [literalValue?, if_neg hbrace, hvalue, Option.bind_some]

theorem literalValue?_hex (n : Nat) (s : Text) :
    literalValue? (.digits 0) (hex n ++ s) = literalValue? (.digits n) s := by
  unfold hex
  induction n using Nat.strongRecOn generalizing s with
  | ind n ih =>
    rw [Nat.toDigits_eq_if (by decide)]
    split
    · rename_i hlt
      rw [List.singleton_append, literalValue?_digit hlt, Nat.mul_zero, Nat.zero_add]
    · rename_i hge
      have hless : n / 16 < n := by omega
      have hdigit : n % 16 < 16 := Nat.mod_lt n (by decide)
      have hsum : 16 * (n / 16) + n % 16 = n := Nat.div_add_mod n 16
      rw [List.append_assoc, List.singleton_append, ih (n / 16) hless, literalValue?_digit hdigit, hsum]

/-- No digit follows a null character. -/
def NullsApart (s : Text) : Prop := s.IsChain fun c d => c = '\x00' → isAsciiDigit d = false

instance (s : Text) : Decidable (NullsApart s) :=
  inferInstanceAs (Decidable (s.IsChain fun c d => c = '\x00' → isAsciiDigit d = false))

/-- An escape or a character stands for the character that was quoted. -/
theorem literalValue?_quotedChar (c : Char) {s : Text}
    (hnull : c = '\x00' → s.head?.any isAsciiDigit = false) :
    literalValue? .plain (quotedChar c ++ s) = (literalValue? .plain s).map (c :: ·) := by
  unfold quotedChar
  split
  · rfl
  · rfl
  · rfl
  · rfl
  · rfl
  · show (if s.head?.any isAsciiDigit then none else _) = _
    rw [hnull rfl, if_neg Bool.false_ne_true]
    rfl
  · rename_i hquote hslash hline hreturn _ _
    by_cases hhidden : isHidden c = true
    · have hescape : literalValue? .plain ("\\u\x7b".toList ++ hex c.toNat ++ "\x7d".toList ++ s)
          = literalValue? (.digits 0) (hex c.toNat ++ ("\x7d".toList ++ s)) := by
        simp only [List.append_assoc]
        rfl
      rw [if_pos hhidden, hescape, literalValue?_hex]
      show (literalValue? .plain s).map (Char.ofNat c.toNat :: ·) = _
      rw [Char.ofNat_toNat]
    · have hplain : c ≠ '"' ∧ c ≠ '\\' ∧ c ≠ '\n' ∧ c ≠ '\r' := ⟨hquote, hslash, hline, hreturn⟩
      simp [hhidden, literalValue?, hplain]

/-- What is written for a character that is no digit does not start with one. -/
theorem head?_quotedChar {c : Char} (hc : isAsciiDigit c = false) (s : Text) :
    (quotedChar c ++ s).head?.any isAsciiDigit = false := by
  unfold quotedChar
  split
  case h_7 =>
    split
    · rfl
    · exact hc
  all_goals rfl

/-- **A quoted text is read back.** -/
theorem literalValue?_quoted {s : Text} (h : NullsApart s) :
    literalValue? .plain (s.flatMap quotedChar ++ ['"']) = some s := by
  induction s with
  | nil => rfl
  | cons c s ih =>
    have hbehind : NullsApart s := List.IsChain.tail h
    have hnull : c = '\x00' → (s.flatMap quotedChar ++ ['"']).head?.any isAsciiDigit = false := by
      intro hc
      cases s with
      | nil => rfl
      | cons d s =>
        have hd : isAsciiDigit d = false := (List.isChain_cons_cons.mp h).1 hc
        rw [List.flatMap_cons, List.append_assoc]
        exact head?_quotedChar hd _
    rw [List.flatMap_cons, List.append_assoc, literalValue?_quotedChar c hnull, ih hbehind,
      Option.map_some]

end LivePreview.Text
