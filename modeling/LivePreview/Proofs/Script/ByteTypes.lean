/-
Reading types byte by byte.

Each form of the type grammar is read by a function of its own, over a reader for the forms that it
is made of.  If that reader commutes with `spread` then so does the function, and the bound on the
depth of the calls carries this to all forms at once.  The bytes of a text are more than its
characters, so the bound for them is larger, which makes no difference.
-/
import LivePreview.Proofs.Script.ByteReading
import LivePreview.Proofs.Script.TypeReading

namespace LivePreview.Script

open Text (spread isAscii Uniform spread_ascii spread_cases exists_of_spread_eq_cons)

variable {s t rest : Text} {c d : Char}

/-! ### Names, numbers and strings -/

theorem dottedRest_length_spread (s : Text) :
    dottedRest (spread s).length (spread s) = spread (dottedRest s.length s) := by
  rw [dottedRest_spread, dottedRest_stable (length_le_spread s) (Nat.le_refl s.length)]

theorem afterDotted?_spread (s : Text) : afterDotted? (spread s) = (afterDotted? s).map spread := by
  rw [afterDotted?, afterDotted?, startsIdent_spread, dottedRest_length_spread]
  split <;> rfl

theorem skipModifier_spread (s modifier : Text) :
    skipModifier (spread s) modifier = spread (skipModifier s modifier) := by
  rw [skipModifier, skipModifier, afterKeyword?_spread]
  cases afterKeyword? modifier s with
  | none => rfl
  | some rest =>
    simp only [Option.map_some, Text.skipBlanks_spread, startsIdent_spread]
    split <;> rfl

theorem skipModifiers_spread (modifiers : List Text) (s : Text) :
    modifiers.foldl skipModifier (spread s) = spread (modifiers.foldl skipModifier s) := by
  induction modifiers generalizing s with
  | nil => rfl
  | cons modifier modifiers ih => rw [List.foldl_cons, List.foldl_cons, skipModifier_spread, ih]

theorem startsWithChar_spread (hc : isAscii c = true) (s : Text) :
    startsWithChar c (spread s) = startsWithChar c s := by
  rw [startsWithChar, startsWithChar, Bool.eq_iff_iff, beq_iff_eq, beq_iff_eq,
    Text.head?_spread_eq_some hc]

/-- End pieces are shorter in the bytes where they are shorter in the text. -/
theorem length_spread_lt_iff (h : rest <:+ s) :
    (spread rest).length < (spread s).length ↔ rest.length < s.length := by
  obtain ⟨piece, rfl⟩ := h
  have hpiece := length_le_spread piece
  rw [Text.spread_append, List.length_append, List.length_append]
  cases piece with
  | nil => simp
  | cons c piece =>
    rw [List.length_cons] at hpiece ⊢
    omega

theorem afterNumber?_of_ne (h : ∀ t, s ≠ '-' :: t) :
    afterNumber? s = if (s.dropWhile fun c => isAsciiDigit c || c == '.').length < s.length
      then some (s.dropWhile fun c => isAsciiDigit c || c == '.') else none := by
  simp only [afterNumber?]

theorem afterNumber?_spread (s : Text) : afterNumber? (spread s) = (afterNumber? s).map spread := by
  have huniform : Uniform (fun c => isAsciiDigit c || c == '.') false := by
    refine Text.uniform_of fun c h => ?_
    rw [Bool.or_eq_true, beq_iff_eq] at h
    obtain h | rfl := h
    · exact isAscii_of_isAsciiDigit h
    · rfl
  have digits : ∀ t : Text,
      (if ((spread t).dropWhile fun c => isAsciiDigit c || c == '.').length < (spread t).length
        then some ((spread t).dropWhile fun c => isAsciiDigit c || c == '.') else none)
      = (if (t.dropWhile fun c => isAsciiDigit c || c == '.').length < t.length
        then some (t.dropWhile fun c => isAsciiDigit c || c == '.') else none).map spread := by
    intro t
    rw [Text.dropWhile_spread huniform]
    simp only [length_spread_lt_iff (List.dropWhile_suffix (l := t) _)]
    split <;> rfl
  by_cases hminus : ∃ t, s = '-' :: t
  · obtain ⟨t, rfl⟩ := hminus
    rw [spread_ascii rfl]
    exact digits t
  · have hs : ∀ t, s ≠ '-' :: t := fun t ht => hminus ⟨t, ht⟩
    have hspread : ∀ t, spread s ≠ '-' :: t := fun t ht =>
      let ⟨u, hu, _⟩ := exists_of_spread_eq_cons rfl ht
      hs u hu
    rw [afterNumber?_of_ne hspread, afterNumber?_of_ne hs]
    exact digits s

theorem consumed_spread (h : rest <:+ s) :
    Text.consumed (spread s) (spread rest) = spread (Text.consumed s rest) := by
  obtain ⟨piece, rfl⟩ := h
  rw [Text.spread_append, Text.consumed_append, Text.consumed_append]

theorem getLast?_spread_eq_some (hc : isAscii c = true) (s : Text) :
    (spread s).getLast? = some c ↔ s.getLast? = some c := by
  obtain rfl | ⟨t, d, rfl⟩ := s.eq_nil_or_concat
  · rfl
  rw [List.concat_eq_append, Text.spread_append, List.getLast?_append_of_ne_nil _
    (Text.spread_singleton_ne_nil d), List.getLast?_concat]
  cases hd : isAscii d with
  | true => rw [spread_ascii hd, Text.spread_nil, List.getLast?_singleton]
  | false =>
    refine iff_of_false (fun h => ?_) (fun h => ?_)
    · have hlast := Text.wide_spread hd c (List.mem_of_getLast? h)
      rw [hc] at hlast
      cases hlast
    · exact ne_of_wide hd hc (Option.some.inj h)

theorem afterStringType?_spread (hc : isQuote c = true) (s : Text) :
    afterStringType? (c :: spread s) = (afterStringType? (c :: s)).map spread := by
  have hascii := isAscii_of_isQuote hc
  simp only [afterStringType?]
  rw [stringRest_spread hascii, consumed_spread (suffix_stringRest c s)]
  simp only [getLast?_spread_eq_some hascii]
  split <;> rfl

theorem drop_one_spread (h : startsWithChar c s = true) (hc : isAscii c = true) :
    (spread s).drop 1 = spread (s.drop 1) := by
  obtain ⟨t, rfl⟩ := List.head?_eq_some_iff.mp (beq_iff_eq.mp h)
  rw [spread_ascii hc]
  rfl

theorem skipSign_spread (j : Joint) (s : Text) : skipSign j (spread s) = spread (skipSign j s) := by
  have hj : isAscii j.sign = true := by cases j <;> rfl
  rw [skipSign, skipSign, Text.skipBlanks_spread]
  generalize Text.skipBlanks s = t
  obtain ⟨rfl, h⟩ | ⟨c, u, hc, rfl, h⟩ | ⟨c, u, d, ds, hc, hd, rfl, h⟩ := spread_cases t
  · rfl
  · rw [h]
    simp only [startsWithChar_spread hj]
    split
    · rfl
    · rw [h]
  · rw [h]
    have hcj : c ≠ j.sign := ne_of_wide hc hj
    have hdj : d ≠ j.sign := ne_of_wide hd hj
    simp only [hcj, hdj, decide_false, Bool.false_and, Bool.false_eq_true, if_false]
    rw [h]

/-! ### The forms -/

/-- A reader of forms that does the same on the bytes of a text. -/
def TypeReader.Spreads (read : TypeReader) : Prop :=
  ∀ f s, read f (spread s) = (read f s).map spread

section

variable {read : TypeReader} (hread : read.Spreads)

include hread

theorem wholeRest?_spread (s : Text) : wholeRest? read (spread s) = (wholeRest? read s).map spread := by
  simp only [wholeRest?, hread _ s]
  cases read (.joined .union) s with
  | none => rfl
  | some plain =>
    simp only [Option.map_some, Text.skipBlanks_spread, afterKeyword?_spread]
    cases afterKeyword? "extends".toList (Text.skipBlanks plain) with
    | none => rfl
    | some bound =>
      simp only [Option.map_some, Option.bind_some, hread _ bound]
      cases read (.joined .union) bound with
      | none => rfl
      | some checked =>
        simp only [Option.map_some, Text.skipBlanks_spread]
        generalize Text.skipBlanks checked = t
        split
        · rename_i u hu
          obtain ⟨v, rfl, rfl⟩ := exists_of_spread_eq_cons rfl hu
          simp only [hread _ v]
          cases read .whole v with
          | none => rfl
          | some rest =>
            simp only [Option.map_some, Text.skipBlanks_spread]
            generalize Text.skipBlanks rest = t
            split
            · rename_i u hu
              obtain ⟨v, rfl, rfl⟩ := exists_of_spread_eq_cons rfl hu
              exact hread _ v
            · rename_i hcolon
              split
              · exact absurd (spread_ascii rfl _) (hcolon _)
              · rfl
        · rename_i hmark
          split
          · exact absurd (spread_ascii rfl _) (hmark _)
          · rfl

theorem joinedRest?_spread (j : Joint) (s : Text) :
    joinedRest? read j (spread s) = (joinedRest? read j s).map spread := by
  rw [joinedRest?, joinedRest?, skipSign_spread, hread]
  cases read j.part (skipSign j s) with
  | none => rfl
  | some part => exact hread _ part

theorem moreRest?_spread (j : Joint) (s : Text) :
    moreRest? read j (spread s) = (moreRest? read j s).map spread := by
  have hj : isAscii j.sign = true := by cases j <;> rfl
  rw [moreRest?, moreRest?, Text.skipBlanks_spread]
  generalize Text.skipBlanks s = t
  obtain ⟨rfl, h⟩ | ⟨c, u, hc, rfl, h⟩ | ⟨c, u, d, ds, hc, hd, rfl, h⟩ := spread_cases t
  · rfl
  · rw [h]
    simp only [startsWithChar_spread hj, startsWithChar_spread (c := '=') rfl, hread _ u]
    split
    · cases read j.part u with
      | none => rfl
      | some part => exact hread _ part
    · rfl
  · rw [h]
    have hcj : c ≠ j.sign := ne_of_wide hc hj
    have hdj : d ≠ j.sign := ne_of_wide hd hj
    simp only [hcj, hdj, decide_false, Bool.false_and, Bool.false_eq_true, if_false]
    rfl

theorem bracketsRest?_spread (s : Text) :
    bracketsRest? read (spread s) = (bracketsRest? read s).map spread := by
  rw [bracketsRest?, bracketsRest?, startsWithChar_spread rfl, afterGroup?_spread]
  split
  · cases afterGroup? s with
    | none => rfl
    | some part => exact hread _ part
  · rfl

theorem roundRest?_spread (s : Text) :
    roundRest? read (spread s) = (roundRest? read s).map spread := by
  rw [roundRest?, roundRest?, afterGroup?_spread]
  cases afterGroup? s with
  | none => rfl
  | some close =>
    simp only [Option.map_some, Text.skipBlanks_spread]
    generalize Text.skipBlanks close = t
    split
    · rename_i u hu
      obtain ⟨v, rfl, hv⟩ := exists_of_spread_eq_cons rfl hu
      obtain ⟨w, rfl, rfl⟩ := exists_of_spread_eq_cons rfl hv.symm
      exact hread _ w
    · rename_i harrow
      split
      · exact absurd (by rw [spread_ascii rfl, spread_ascii rfl]) (harrow _)
      · rfl

theorem predicateRest?_spread (s : Text) :
    predicateRest? read (spread s) = (predicateRest? read s).map spread := by
  rw [predicateRest?, predicateRest?, Text.skipInline_spread, afterKeyword?_spread]
  cases afterKeyword? "is".toList (Text.skipInline s) with
  | none => rfl
  | some type => exact hread _ type

theorem skipArguments_spread (s : Text) :
    skipArguments read (spread s) = spread (skipArguments read s) := by
  unfold skipArguments
  split
  · rename_i u hu
    obtain ⟨v, rfl, rfl⟩ := exists_of_spread_eq_cons rfl hu
    rw [hread]
    show _ = spread ((read (.arguments false) v).getD ('<' :: v))
    cases read (.arguments false) v with
    | none => rfl
    | some rest => rfl
  · rename_i hangle
    split
    · exact absurd (spread_ascii rfl _) (hangle _)
    · rfl

theorem wordRest?_spread (s : Text) : wordRest? read (spread s) = (wordRest? read s).map spread := by
  simp only [wordRest?, ident_spread, skipIdent_spread, Text.skipBlanks_spread,
    afterDotted?_spread, dottedRest_length_spread, predicateRest?_spread hread,
    skipArguments_spread hread, hread _ (skipIdent s)]
  split_ifs <;> rfl

omit hread in
/-- No type starts with a character beyond ASCII. -/
theorem primaryRest?_of_wide (hc : isAscii c = false) (h : Text.skipBlanks s = c :: t) :
    primaryRest? read s = none := by
  have hne : ∀ {e : Char}, isAscii e = true → c ≠ e := fun he => ne_of_wide hc he
  have hcurly : c ≠ '{' := hne rfl
  have hsquare : c ≠ '[' := hne rfl
  have hminus : c ≠ '-' := hne rfl
  rw [primaryRest?, h]
  dsimp only
  rw [if_neg (hne rfl), if_neg (by simp [hcurly, hsquare]), uniform_isQuote c hc,
    if_neg Bool.false_ne_true, if_neg (hne rfl), if_neg (hne rfl),
    if_neg (by simp [hminus, uniform_isAsciiDigit c hc]), uniform_isIdentStart c hc,
    if_neg Bool.false_ne_true]

theorem primaryRest?_spread (s : Text) :
    primaryRest? read (spread s) = (primaryRest? read s).map spread := by
  have hblanks := Text.skipBlanks_spread s
  obtain ⟨hs, h⟩ | ⟨c, u, -, hs, h⟩ | ⟨c, u, d, ds, hc, hd, hs, h⟩ :=
    spread_cases (Text.skipBlanks s)
  · rw [primaryRest?, primaryRest?, hblanks, h, hs]
    rfl
  · have hround := roundRest?_spread hread (c :: u)
    have hgroup := afterGroup?_spread (c :: u)
    have hnumber := afterNumber?_spread (c :: u)
    have hword := wordRest?_spread hread (c :: u)
    rw [← hs, h, hs] at hround hgroup hnumber hword
    rw [primaryRest?, primaryRest?, hblanks, h, hs]
    dsimp only
    -- one way for each first character
    simp only [apply_ite (Option.map spread)]
    refine ite_congr rfl (fun _ => hround) fun _ => ?_
    refine ite_congr rfl (fun _ => hgroup) fun _ => ?_
    refine ite_congr rfl (fun h => afterStringType?_spread h u) fun _ => ?_
    refine ite_congr rfl (fun h => ?template) fun _ => ?_
    case template =>
      subst h
      rw [skipTemplate_spread]
      rfl
    refine ite_congr rfl (fun _ => ?parameters) fun _ => ?_
    case parameters =>
      rw [hread]
      cases read (.parameters false) u with
      | none => rfl
      | some rest => exact hread _ rest
    exact ite_congr rfl (fun _ => hnumber) fun _ => ite_congr rfl (fun _ => hword) fun _ => rfl
  · rw [primaryRest?_of_wide hd (hblanks.trans h), primaryRest?_of_wide hc hs]
    rfl

theorem listRest?_spread (again : TypeForm) (s : Text) :
    listRest? read again (spread s) = (listRest? read again s).map spread := by
  simp only [listRest?]
  split
  · rename_i u hu
    obtain ⟨v, rfl, rfl⟩ := exists_of_spread_eq_cons rfl hu
    exact hread _ v
  · rename_i u hu
    obtain ⟨v, rfl, rfl⟩ := exists_of_spread_eq_cons rfl hu
    rfl
  · rename_i hcomma hangle
    split
    · exact absurd (spread_ascii rfl _) (hcomma _)
    · exact absurd (spread_ascii rfl _) (hangle _)
    · rfl

theorem argumentsRest?_spread (any : Bool) (s : Text) :
    argumentsRest? read any (spread s) = (argumentsRest? read any s).map spread := by
  simp only [argumentsRest?, Text.skipBlanks_spread, startsWithChar_spread (c := '>') rfl]
  split
  · rename_i hclose
    rw [Bool.and_eq_true] at hclose
    rw [drop_one_spread hclose.2 rfl]
    rfl
  · rw [hread]
    cases read .whole (Text.skipBlanks s) with
    | none => rfl
    | some rest =>
      simp only [Option.map_some, Option.bind_some, Text.skipBlanks_spread]
      exact listRest?_spread hread _ _

theorem boundRest?_spread (s : Text) :
    boundRest? read (spread s) = (boundRest? read s).map spread := by
  rw [boundRest?, boundRest?, afterKeyword?_spread]
  cases afterKeyword? "extends".toList s with
  | none => rfl
  | some bound =>
    simp only [Option.map_some, hread _ bound]
    cases read .whole bound with
    | none => rfl
    | some rest => simp only [Option.map_some, Text.skipBlanks_spread]

theorem defaultRest?_spread (s : Text) :
    defaultRest? read (spread s) = (defaultRest? read s).map spread := by
  simp only [defaultRest?]
  split
  · rename_i u hu
    obtain ⟨v, rfl, rfl⟩ := exists_of_spread_eq_cons rfl hu
    simp only [startsWithChar_spread (c := '>') rfl, hread _ v]
    split
    · rfl
    · cases read .whole v with
      | none => rfl
      | some rest => simp only [Option.map_some, Text.skipBlanks_spread]
  · rename_i hequals
    split
    · exact absurd (spread_ascii rfl _) (hequals _)
    · rfl

theorem parametersRest?_spread (any : Bool) (s : Text) :
    parametersRest? read any (spread s) = (parametersRest? read any s).map spread := by
  simp only [parametersRest?, Text.skipBlanks_spread, startsWithChar_spread (c := '>') rfl,
    skipModifiers_spread, startsIdent_spread, skipIdent_spread, boundRest?_spread hread]
  generalize parameterModifiers.foldl skipModifier (Text.skipBlanks s) = name
  split
  · rename_i hclose
    rw [Bool.and_eq_true] at hclose
    rw [drop_one_spread hclose.2 rfl]
    rfl
  split
  · rfl
  cases boundRest? read (Text.skipBlanks (skipIdent name)) with
  | none => rfl
  | some bounded =>
    simp only [Option.map_some, Option.bind_some, defaultRest?_spread hread]
    cases defaultRest? read bounded with
    | none => rfl
    | some list => exact listRest?_spread hread _ list

theorem spreads_formRest? : TypeReader.Spreads (formRest? read) := by
  intro f s
  cases f with
  | whole => exact wholeRest?_spread hread s
  | joined j => exact joinedRest?_spread hread j s
  | more j => exact moreRest?_spread hread j s
  | operand =>
    simp only [formRest?, hread .primary s]
    cases read .primary s with
    | none => rfl
    | some part => exact hread _ part
  | brackets => exact bracketsRest?_spread hread s
  | primary => exact primaryRest?_spread hread s
  | arguments any => exact argumentsRest?_spread hread any s
  | parameters any => exact parametersRest?_spread hread any s

end

/-- **Every form is read in the bytes of a text as in the text.** -/
theorem spreads_extent (n : Nat) : TypeReader.Spreads (extent n) := by
  induction n with
  | zero =>
    intro f s
    rfl
  | succ n ih => exact spreads_formRest? ih

theorem spreads_rest? : TypeReader.Spreads rest? := by
  intro f s
  have hlt := f.measure_lt_depth s
  have hle := length_le_spread s
  rw [rest?, spreads_extent, extent_eq_rest?]
  simp only [depth] at hlt ⊢
  omega

end LivePreview.Script
