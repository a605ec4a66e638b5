/-
Offsets between characters.

A program that reads code byte by byte and keeps offsets into it has to come to an offset between
two characters, or it cannot cut the text there.  `Scan.end_usable` says that all readers of code
and of types do, from any such offset on: run on the bytes of a text, they come to where they come
to in the text, which is no earlier than where they started and no later than the end.  The readers
of literals, block comments, groups and types come to a later place.
-/
import LivePreview.Proofs.Script.ByteTypes

namespace LivePreview

open Text (spread bytes byteEnd? endOffset? dropBytes? slice? byteSize)

namespace Script

variable {s t rest : Text}

/-! ### A type is not empty -/

theorem suffix_skipIdent_dottedRest (n : Nat) (s : Text) : dottedRest (n + 1) s <:+ skipIdent s := by
  simp only [dottedRest]
  split
  · rename_i t ht
    rw [ht]
    split
    · exact (suffix_dottedRest n t).trans (List.suffix_cons '.' t)
    · exact List.suffix_rfl
  · exact List.suffix_rfl

/-- The forms that read at least one character. -/
def TypeForm.isNonempty : TypeForm → Bool
  | .whole | .joined _ | .operand | .primary => true
  | _ => false

/-- A reader whose nonempty forms leave less than they are given. -/
def TypeReader.Advances (read : TypeReader) : Prop :=
  ∀ ⦃f : TypeForm⦄ ⦃s rest : Text⦄, f.isNonempty = true → read f s = some rest →
    rest.length < s.length

section

variable {read : TypeReader} (hread : read.LeavesEnd)

include hread

/-- A conditional type goes on behind the type that it tests. -/
theorem exists_plain_of_wholeRest? (h : wholeRest? read s = some rest) :
    ∃ plain, read (.joined .union) s = some plain ∧ rest <:+ plain := by
  simp only [wholeRest?] at h
  split at h
  · cases h
  rename_i plain hplain
  refine ⟨plain, hplain, ?_⟩
  split at h
  · cases h
    exact List.suffix_rfl
  rename_i checked hchecked
  obtain ⟨bound, hbound, hchecked⟩ := Option.bind_eq_some_iff.mp hchecked
  have hchecked : Text.skipBlanks checked <:+ plain :=
    (Text.suffix_skipBlanks checked).trans ((hread hchecked).trans
      ((suffix_afterKeyword? hbound).trans (Text.suffix_skipBlanks plain)))
  split at h
  · rename_i whenTrue htrue
    rw [htrue] at hchecked
    split at h
    · cases h
    rename_i result hresult
    have hresult : Text.skipBlanks result <:+ plain :=
      (Text.suffix_skipBlanks result).trans ((hread hresult).trans (Text.suffix_of_cons hchecked))
    split at h
    · rename_i whenFalse hfalse
      rw [hfalse] at hresult
      exact (hread h).trans (Text.suffix_of_cons hresult)
    · cases h
      exact List.suffix_rfl
  · cases h
    exact List.suffix_rfl

theorem length_roundRest?_lt (h : roundRest? read s = some rest) : rest.length < s.length := by
  simp only [roundRest?] at h
  split at h
  · cases h
  rename_i close hclose
  have hlt := length_afterGroup?_lt hclose
  split at h
  · rename_i result hresult
    have hle := (hread h).length_le
    have hblanks := Text.length_skipBlanks_le close
    rw [hresult, List.length_cons, List.length_cons] at hblanks
    omega
  · cases h
    exact hlt

theorem length_wordRest?_lt (hs : startsIdent s = true) (h : wordRest? read s = some rest) :
    rest.length < s.length := by
  refine Nat.lt_of_le_of_lt (List.IsSuffix.length_le ?_) (length_skipIdent_lt hs)
  have hblanks := Text.suffix_skipBlanks (skipIdent s)
  simp only [wordRest?] at h
  split at h
  · exact (suffix_afterDotted? h).trans hblanks
  split at h
  · exact hread h
  split at h
  · exact hread h
  split at h
  · exact (suffix_predicateRest? hread h).trans ((suffix_skipIdent _).trans hblanks)
  split at h
  · cases h
  · cases s with
    | nil => cases hs
    | cons c s =>
      exact (suffix_predicateRest? hread h).trans
        ((suffix_skipArguments hread _).trans (suffix_skipIdent_dottedRest s.length (c :: s)))

theorem length_primaryRest?_lt (h : primaryRest? read s = some rest) : rest.length < s.length := by
  refine Nat.lt_of_lt_of_le ?_ (Text.length_skipBlanks_le s)
  simp only [primaryRest?] at h
  split at h
  · cases h
  rename_i c t hc
  rw [hc]
  have behind : rest <:+ t → rest.length < (c :: t).length := fun hsuffix =>
    Nat.lt_succ_of_le hsuffix.length_le
  split at h
  · exact length_roundRest?_lt hread h
  split at h
  · exact length_afterGroup?_lt h
  split at h
  · simp only [afterStringType?, Option.ite_none_right_eq_some] at h
    obtain ⟨-, h⟩ := h
    cases h
    exact behind (suffix_stringRest c t)
  split at h
  · cases h
    exact behind (suffix_tail_skipTemplate (c :: t))
  split at h
  · obtain ⟨params, hparams, hresult⟩ := Option.bind_eq_some_iff.mp h
    exact behind ((hread hresult).trans (hread hparams))
  split at h
  · simp only [afterNumber?, Option.ite_none_right_eq_some] at h
    obtain ⟨hlt, h⟩ := h
    cases h
    refine Nat.lt_of_lt_of_le hlt ?_
    split
    · rename_i u hu
      cases hu
      exact Nat.le_succ _
    · exact Nat.le_refl _
  split at h
  · rename_i hstart
    exact length_wordRest?_lt hread hstart h
  · cases h

theorem advances_formRest? (hadvance : read.Advances) : TypeReader.Advances (formRest? read) := by
  intro f s rest hf h
  cases f with
  | whole =>
    obtain ⟨plain, hplain, hrest⟩ := exists_plain_of_wholeRest? hread h
    exact Nat.lt_of_le_of_lt hrest.length_le (hadvance rfl hplain)
  | joined j =>
    obtain ⟨part, hpart, hmore⟩ := Option.bind_eq_some_iff.mp h
    have hj : j.part.isNonempty = true := by cases j <;> rfl
    have hsign := (suffix_skipSign j s).length_le
    have hlt := hadvance hj hpart
    have hle := (hread hmore).length_le
    omega
  | operand =>
    obtain ⟨part, hpart, hmore⟩ := Option.bind_eq_some_iff.mp h
    exact Nat.lt_of_le_of_lt (hread hmore).length_le (hadvance rfl hpart)
  | primary => exact length_primaryRest?_lt hread h
  | more | brackets | arguments | parameters => cases hf

end

theorem advances_extent (n : Nat) : TypeReader.Advances (extent n) := by
  induction n with
  | zero =>
    intro f s rest hf h
    cases h
  | succ n ih => exact advances_formRest? (leavesEnd_extent n) ih

theorem length_afterType?_lt (h : afterType? s = some rest) : rest.length < s.length :=
  advances_extent _ rfl h

theorem length_lt_of_suffix_tail (hs : s ≠ []) (h : rest <:+ s.tail) : rest.length < s.length := by
  obtain ⟨c, s, rfl⟩ := List.exists_cons_of_ne_nil hs
  exact Nat.lt_succ_of_le h.length_le

theorem ne_nil_of_afterTypeArguments? (h : afterTypeArguments? s = some rest) : s ≠ [] := by
  rintro rfl
  cases h

theorem ne_nil_of_afterTypeParameters? (h : afterTypeParameters? s = some rest) : s ≠ [] := by
  rintro rfl
  cases h

theorem suffix_triviaRest (n : Nat) (s : Text) : triviaRest n s <:+ s := by
  induction n generalizing s with
  | zero => exact Text.suffix_skipBlanks s
  | succ n ih =>
    have hs := Text.suffix_skipBlanks s
    rw [triviaRest]
    split
    · rename_i t ht
      rw [ht] at hs
      exact (ih _).trans ((List.dropWhile_suffix _).trans (Text.suffix_of_cons (Text.suffix_of_cons hs)))
    · rename_i t ht
      rw [ht] at hs
      exact (ih _).trans ((suffix_blockRest t).trans (Text.suffix_of_cons (Text.suffix_of_cons hs)))
    · exact hs

theorem afterTypeArguments?_of_head (h : s.head? ≠ some '<') : afterTypeArguments? s = none := by
  unfold afterTypeArguments?
  split
  · exact absurd rfl h
  · rfl

theorem afterTypeParameters?_of_head (h : s.head? ≠ some '<') : afterTypeParameters? s = none := by
  unfold afterTypeParameters?
  split
  · exact absurd rfl h
  · rfl

/-- A reader of a list between angle brackets does the same on the bytes of a text. -/
theorem angles_spread {after : Text → Option Text} {f : TypeForm}
    (hangle : ∀ s, after ('<' :: s) = rest? f s)
    (hother : ∀ {s : Text}, s.head? ≠ some '<' → after s = none) (s : Text) :
    after (spread s) = (after s).map spread := by
  by_cases hs : s.head? = some '<'
  · obtain ⟨t, rfl⟩ : ∃ t, s = '<' :: t := ⟨s.tail, List.eq_cons_of_mem_head? hs⟩
    rw [Text.spread_ascii rfl, hangle, hangle]
    exact spreads_rest? f t
  · have hspread : (spread s).head? ≠ some '<' := fun h => hs ((Text.head?_spread_eq_some rfl).mp h)
    rw [hother hs, hother hspread, Option.map_none]

/-! ### All readers -/

/-- The readers that step over a piece of code, and those that look ahead over a type. -/
inductive Scan where
  | blanks
  | trivia
  | inlineBlanks
  | identifier
  | lineComment
  | string
  | template
  | blockComment
  | group
  | type
  | typeArguments
  | typeParameters

namespace Scan

/-- What remains behind the piece. -/
def rest? : Scan → Text → Option Text
  | blanks, s => some (Text.skipBlanks s)
  | trivia, s => some (skipTrivia s)
  | inlineBlanks, s => some (Text.skipInline s)
  | identifier, s => some (skipIdent s)
  | lineComment, s => some (skipLineComment s)
  | string, s => some (skipString s)
  | template, s => some (skipTemplate s)
  | blockComment, s => some (skipBlockComment s)
  | group, s => afterGroup? s
  | type, s => afterType? s
  | typeArguments, s => afterTypeArguments? s
  | typeParameters, s => afterTypeParameters? s

/-- The places from which the reader is run: those of literals, block comments and groups start at
what opens these, and the others anywhere. -/
def startsAt : Scan → Text → Bool
  | string, s => s.head?.any isQuote
  | template, s => s.head? = some '\x60'
  | blockComment, s => "/*".toList.isPrefixOf s
  | group, s => (s.head?.bind Bracket.opened?).isSome
  | _, _ => true

/-- The readers that always come to an end piece. -/
def isTotal : Scan → Bool
  | group | type | typeArguments | typeParameters => false
  | _ => true

/-- The readers that read something wherever they return. -/
def isStrict : Scan → Bool
  | string | template | blockComment | group | type | typeArguments | typeParameters => true
  | _ => false

variable {k : Scan}

theorem isSome_rest? (htotal : k.isTotal = true) (s : Text) : (k.rest? s).isSome = true := by
  cases k with
  | group | type | typeArguments | typeParameters => cases htotal
  | _ => rfl

theorem exists_quote (h : Scan.string.startsAt s = true) : ∃ q t, s = q :: t ∧ isQuote q = true := by
  cases s with
  | nil => cases h
  | cons q t => exact ⟨q, t, rfl, by simpa [startsAt] using h⟩

theorem exists_tick (h : Scan.template.startsAt s = true) : ∃ t, s = '\x60' :: t := by
  simp only [startsAt, decide_eq_true_eq] at h
  exact ⟨s.tail, (List.eq_cons_of_mem_head? h)⟩

theorem exists_comment (h : Scan.blockComment.startsAt s = true) : ∃ t, s = '/' :: '*' :: t := by
  obtain ⟨t, rfl⟩ := List.isPrefixOf_iff_prefix.mp h
  exact ⟨t, rfl⟩

/-- Every reader leaves an end piece. -/
theorem suffix_rest? (h : k.rest? s = some rest) : rest <:+ s := by
  cases k with
  | group => exact suffix_afterGroup? h
  | type => exact suffix_afterType? h
  | typeArguments => exact (suffix_tail_afterTypeArguments? h).trans (List.tail_suffix s)
  | typeParameters => exact (suffix_tail_afterTypeParameters? h).trans (List.tail_suffix s)
  | blanks => exact Option.some.inj h ▸ Text.suffix_skipBlanks s
  | trivia => exact Option.some.inj h ▸ suffix_triviaRest _ s
  | inlineBlanks => exact Option.some.inj h ▸ Text.suffix_skipInline s
  | identifier => exact Option.some.inj h ▸ suffix_skipIdent s
  | lineComment => exact Option.some.inj h ▸ List.dropWhile_suffix _
  | template => exact Option.some.inj h ▸ suffix_skipTemplate s
  | blockComment => exact Option.some.inj h ▸ (suffix_blockRest _).trans (List.drop_suffix 2 s)
  | string =>
    cases h
    cases s with
    | nil => exact List.suffix_rfl
    | cons q t => exact (suffix_stringRest q t).trans (List.suffix_cons q t)

/-- The readers of literals, block comments, groups and types read something. -/
theorem length_rest?_lt (hstrict : k.isStrict = true) (hstart : k.startsAt s = true)
    (h : k.rest? s = some rest) : rest.length < s.length := by
  cases k with
  | group => exact length_afterGroup?_lt h
  | type => exact length_afterType?_lt h
  | typeArguments =>
    exact length_lt_of_suffix_tail (ne_nil_of_afterTypeArguments? h)
      (suffix_tail_afterTypeArguments? h)
  | typeParameters =>
    exact length_lt_of_suffix_tail (ne_nil_of_afterTypeParameters? h)
      (suffix_tail_afterTypeParameters? h)
  | string =>
    obtain ⟨q, t, rfl, -⟩ := exists_quote hstart
    exact Option.some.inj h ▸ Nat.lt_succ_of_le (suffix_stringRest q t).length_le
  | template =>
    obtain ⟨t, rfl⟩ := exists_tick hstart
    exact Option.some.inj h ▸ Nat.lt_succ_of_le (suffix_tail_skipTemplate ('\x60' :: t)).length_le
  | blockComment =>
    obtain ⟨t, rfl⟩ := exists_comment hstart
    have hle := (suffix_blockRest t).length_le
    exact Option.some.inj h ▸ Nat.lt_of_le_of_lt hle (by simp)
  | blanks | trivia | inlineBlanks | identifier | lineComment => cases hstrict

/-- Every reader does the same on the bytes of a text as on the text. -/
theorem rest?_spread (hstart : k.startsAt s = true) :
    k.rest? (spread s) = (k.rest? s).map spread := by
  cases k with
  | blanks => exact congrArg some (Text.skipBlanks_spread s)
  | trivia => exact congrArg some (skipTrivia_spread s)
  | inlineBlanks => exact congrArg some (Text.skipInline_spread s)
  | identifier => exact congrArg some (skipIdent_spread s)
  | lineComment => exact congrArg some (Text.skipLine_spread s)
  | group => exact afterGroup?_spread s
  | type => exact spreads_rest? .whole s
  | string =>
    obtain ⟨q, t, rfl, hq⟩ := exists_quote hstart
    have hascii := isAscii_of_isQuote hq
    rw [rest?, rest?, Text.spread_ascii hascii, skipString, skipString, stringRest_spread hascii]
    rfl
  | blockComment =>
    obtain ⟨t, rfl⟩ := exists_comment hstart
    rw [rest?, rest?, Text.spread_ascii rfl, Text.spread_ascii rfl]
    exact congrArg some (blockRest_spread t)
  | template =>
    obtain ⟨t, rfl⟩ := exists_tick hstart
    rw [rest?, rest?, Text.spread_ascii rfl]
    exact congrArg some ((skipTemplate_spread t).trans (congrArg spread rfl))
  | typeArguments => exact angles_spread afterTypeArguments?_cons afterTypeArguments?_of_head s
  | typeParameters => exact angles_spread afterTypeParameters?_cons afterTypeParameters?_of_head s

end Scan

/-- **From any place between two characters every reader comes to such a place**: in the bytes of
the text it comes to where it comes to in the text, and the text can be cut there. -/
theorem Scan.end_usable (k : Scan) {s t : Text} {pos : Nat} (hpos : dropBytes? pos s = some t)
    (hstart : k.startsAt t = true) :
    (k.isTotal = true → (byteEnd? k.rest? pos (bytes s)).isSome = true) ∧
    byteEnd? k.rest? pos (bytes s) = endOffset? k.rest? pos s ∧
    ∀ e, byteEnd? k.rest? pos (bytes s) = some e →
      pos ≤ e ∧ (k.isStrict = true → pos < e) ∧ e ≤ (bytes s).length ∧
        (dropBytes? e s).isSome = true ∧ (slice? pos e s).isSome = true := by
  have hsame := Text.byteEnd?_bytes hpos (Scan.rest?_spread hstart) fun _ => Scan.suffix_rest?
  refine ⟨fun htotal => ?_, hsame, fun e he => ?_⟩
  · rw [byteEnd?, Option.isSome_map]
    exact Scan.isSome_rest? htotal _
  · obtain ⟨front, rfl, rfl⟩ := Text.dropBytes?_eq_some_iff.mp hpos
    rw [hsame, endOffset?, Text.seek, Text.seekFrom_append, Option.map_eq_some_iff] at he
    obtain ⟨rest, hrest, rfl⟩ := he
    -- what is read is a piece of the text, and the offset is the one behind it
    obtain ⟨piece, rfl⟩ := Scan.suffix_rest? hrest
    have hend : Text.offsetAfter (byteSize front) (piece ++ rest) rest
        = byteSize front + byteSize piece := by
      rw [Text.offsetAfter, Text.consumed_append]
    have hsize : byteSize (front ++ (piece ++ rest))
        = byteSize front + (byteSize piece + byteSize rest) := by
      rw [Text.byteSize_append, Text.byteSize_append]
    rw [hend, Text.length_bytes, hsize]
    refine ⟨Nat.le_add_right _ _, fun hstrict => ?_, by omega, ?_, ?_⟩
    · have hlt := Scan.length_rest?_lt hstrict hstart hrest
      have hpiece := length_le_byteSize piece
      rw [List.length_append] at hlt
      omega
    · rw [← List.append_assoc, ← Text.byteSize_append, Text.dropBytes?_append]
      rfl
    · rw [slice?, if_pos (Nat.le_add_right _ _), Text.dropBytes?_append, Option.bind_some,
        Nat.add_sub_cancel_left, Text.takeBytes?_append]
      rfl

/-- A string with an escape in front of a character of two bytes, and a comment behind it: the byte
behind the backslash is the first one of that character. -/
theorem Scan.end_usable_escape :
    dropBytes? 1 "é".toList = none ∧
    dropBytes? 1 "(\"\\é\"/*é*/)".toList = some "\"\\é\"/*é*/)".toList ∧
    byteEnd? Scan.string.rest? 1 (bytes "(\"\\é\"/*é*/)".toList) = some 6 ∧
    (slice? 1 6 "(\"\\é\"/*é*/)".toList).isSome = true := by
  have hdrop : dropBytes? 1 "(\"\\é\"/*é*/)".toList = some "\"\\é\"/*é*/)".toList := by decide
  have hend : byteEnd? Scan.string.rest? 1 (bytes "(\"\\é\"/*é*/)".toList) = some 6 := by decide
  exact ⟨by decide, hdrop, hend, ((Scan.end_usable .string hdrop (by decide)).2.2 6 hend).2.2.2.2⟩

end Script

end LivePreview
