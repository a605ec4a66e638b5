/-
Lists that are read as types and as declared parameters.

Behind the name of a class the eraser asks for declared parameters first, also where the list holds
the arguments of the class that is extended.  Many a list of types can be read as parameters too,
and then the first reader decides where the list ends.  What is proved here is that it does not
matter: where both readers get through, they leave the same text.

The two readers meet at each item.  A name is a type and a parameter, and both readers stop behind
it at the same comma or bracket.  Where a parameter has a bound, the type would go on with
`extends`, which takes a question mark that no parameter has; where it has a default, the type ends
at `=`, where no list goes on.  Only behind `typeof` and `asserts` is `extends` a name to the one
reader and a keyword to the other, and then a type follows for both: the one goes on behind the name
as behind any type, the other starts a type anew.  `eq_of_afterPrimary?` and `eq_of_predicate` say
that these two meet again.
-/
import LivePreview.Proofs.Script.TypeGrammarReading

namespace LivePreview.Script

open Text (Stops)
open TypeParameter (Closes)

/-! ### A whole type from its first primary on -/

/-- What remains of a whole type behind its joined types: the conditional type that they open, if
they open one. -/
def conditionRest? (plain : Text) : Option Text :=
  match (afterKeyword? "extends".toList (Text.skipBlanks plain)).bind (rest? (.joined .union)) with
  | none => some plain
  | some checked =>
    match Text.skipBlanks checked with
    | '?' :: whenTrue =>
      match rest? .whole whenTrue with
      | none => none
      | some rest =>
        match Text.skipBlanks rest with
        | ':' :: whenFalse => rest? .whole whenFalse
        | _ => some plain
    | _ => some plain

/-- What remains of a whole type behind its first primary. -/
def afterPrimary? (s : Text) : Option Text := (afterOperand? s).bind conditionRest?

/-- True of the signs that join types. -/
def joins (c : Char) : Bool := c == '|' || c == '&'

variable {s t u v a b p q : Text}

theorem rest?_whole_eq (s : Text) : rest? .whole s = (rest? (.joined .union) s).bind conditionRest? := by
  rw [rest?_eq]
  show wholeRest? rest? s = _
  unfold wholeRest?
  cases rest? (.joined .union) s <;> rfl

theorem rest?_more_eq (j : Joint) (s : Text) : rest? (.more j) s = moreRest? rest? j s := by
  rw [rest?_eq]
  rfl

theorem skipBlanks_skipBlanks (s : Text) : Text.skipBlanks (Text.skipBlanks s) = Text.skipBlanks s :=
  Text.skipBlanks_of_stops (Text.stops_dropWhile _ _)

theorem rest?_primary_skipBlanks (s : Text) : rest? .primary (Text.skipBlanks s) = rest? .primary s := by
  obtain ⟨gap, hgap, hs⟩ := exists_blanks s
  conv_rhs => rw [hs]
  exact (rest?_primary_append hgap _).symm

theorem stops_sign (h : Stops joins s) (j : Joint) : Stops (· == j.sign) s :=
  Text.stops_mono (fun c hc => by
    obtain rfl : c = j.sign := by simpa using hc
    cases j <;> decide) h

section Stops

variable (h : Stops joins (Text.skipBlanks s))

include h

/-- Where no sign stands in front, joined types are their first primary and what goes on with it. -/
theorem rest?_union_of_stops :
    rest? (.joined .union) s = (rest? .primary s).bind afterOperand? := by
  have hpass := skipBlanks_skipBlanks s
  have hinter : rest? (.joined .intersection) (Text.skipBlanks s)
      = ((rest? .primary s).bind (rest? .brackets)).bind (rest? (.more .intersection)) := by
    rw [rest?_joined_eq, skipSign_of_stops (by rw [hpass]; exact stops_sign h _), hpass]
    show (rest? .operand _).bind _ = _
    rw [rest?_operand_eq, rest?_primary_skipBlanks]
  rw [rest?_joined_eq, skipSign_of_stops (stops_sign h _)]
  show (rest? (.joined .intersection) _).bind _ = _
  rw [hinter, Option.bind_assoc, Option.bind_assoc]
  refine Option.bind_congr fun part _ => ?_
  rw [afterOperand?, Option.bind_assoc]

theorem rest?_whole_of_stops : rest? .whole s = (rest? .primary s).bind afterPrimary? := by
  rw [rest?_whole_eq, rest?_union_of_stops h, Option.bind_assoc]
  rfl

end Stops

/-! ### Words in front -/

/-- A word that is found stands in front. -/
theorem ident_of_word? {w : Text} (h : word? s = some w) : ident s = w ∧ startsIdent s = true := by
  cases s with
  | nil => cases h
  | cons c s =>
    by_cases hc : isIdentStart c = true
    · simp only [word?, ident, hc, if_true, List.isEmpty_cons, Bool.false_eq_true, if_false,
        Option.some.injEq] at h
      exact ⟨by simpa [ident, hc] using h, hc⟩
    · simp [word?, ident, hc] at h

theorem stops_joins_of_startsIdent (h : startsIdent s = true) : Stops joins (Text.skipBlanks s) := by
  cases s with
  | nil => cases h
  | cons c s =>
    have hc : isIdentStart c = true := h
    rw [Text.skipBlanks_cons (isBlank_eq_false_of_identChar (isIdentChar_of_start hc))]
    refine Text.stops_cons.mpr ?_
    by_contra hj
    simp only [joins, Bool.not_eq_false, Bool.or_eq_true, beq_iff_eq] at hj
    rcases hj with rfl | rfl <;> exact absurd hc (by decide)

/-- A whole type that starts with a word is what the word opens, and what goes on with it. -/
theorem rest?_whole_word (h : startsIdent s = true) :
    rest? .whole s = (wordRest? rest? s).bind afterPrimary? := by
  rw [rest?_whole_of_stops (stops_joins_of_startsIdent h), rest?_primary_word h]

/-! ### Where no type starts -/

/-- What stands behind an item of a list, or behind the bound of a parameter. -/
def EndsItem (s : Text) : Prop := ∃ c ∈ [',', '>', '='], ∃ t, Text.skipBlanks s = c :: t

/-- What stands behind the name of a parameter. -/
def EndsParameter (s : Text) : Prop :=
  EndsItem s ∨ word? (Text.skipBlanks s) = some "extends".toList

theorem EndsItem.of_closes (h : Closes (Text.skipBlanks s)) : EndsItem s := by
  obtain ⟨t, ht⟩ | ⟨t, ht⟩ := h.cases
  · exact ⟨',', by simp, t, ht⟩
  · exact ⟨'>', by simp, t, ht⟩

theorem EndsParameter.stops (h : EndsParameter s) : Stops joins (Text.skipBlanks s) := by
  obtain ⟨c, hc, t, ht⟩ | hword := h
  · rw [ht]
    exact Text.stops_cons.mpr (by fin_cases hc <;> decide)
  · have hstop := stops_joins_of_startsIdent (ident_of_word? hword).2
    rwa [skipBlanks_skipBlanks] at hstop

theorem EndsParameter.rest?_primary (h : EndsParameter s) : rest? .primary s = none := by
  rw [← rest?_primary_skipBlanks]
  obtain ⟨c, hc, t, ht⟩ | hword := h
  · rw [ht, rest?_eq]
    fin_cases hc <;> rfl
  · obtain ⟨hident, hstart⟩ := ident_of_word? hword
    rw [rest?_primary_word hstart, wordRest?, hident]
    rfl

/-- No type starts behind the name of a parameter. -/
theorem EndsParameter.rest?_whole (h : EndsParameter s) : rest? .whole s = none := by
  rw [rest?_whole_of_stops h.stops, h.rest?_primary, Option.bind_none]

theorem EndsParameter.rest?_union (h : EndsParameter s) : rest? (.joined .union) s = none := by
  rw [rest?_union_of_stops h.stops, h.rest?_primary, Option.bind_none]

/-! ### Behind a type nothing goes on -/

theorem startsWithChar_of_brackets (h : rest? .brackets s = some a) : startsWithChar '[' a = false := by
  induction hn : s.length using Nat.strong_induction_on generalizing s with
  | _ n ih =>
    subst hn
    rw [rest?_eq] at h
    by_cases hopen : startsWithChar '[' s = true
    · simp only [formRest?, bracketsRest?, hopen, if_true] at h
      obtain ⟨part, hpart, hmore⟩ := Option.bind_eq_some_iff.mp h
      exact ih part.length (length_afterGroup?_lt hpart) hmore rfl
    · have hclosed := eq_false_of_ne_true hopen
      simp only [formRest?, bracketsRest?, hclosed, Bool.false_eq_true, if_false,
        Option.some.injEq] at h
      rwa [← h]

/-- Behind joined types no further one follows, and what is so behind each part is so behind all. -/
theorem more_settles {j : Joint} {Q : Text → Prop}
    (hpart : ∀ {s a : Text}, rest? j.part s = some a → Q a) (hs : Q s)
    (h : rest? (.more j) s = some a) : Q a ∧ rest? (.more j) a = some a := by
  induction hn : s.length using Nat.strong_induction_on generalizing s with
  | _ n ih =>
    subst hn
    have hmore := h
    rw [rest?_more_eq, moreRest?] at h
    have hblank := Text.length_skipBlanks_le s
    split at h
    · rename_i c rest hc
      rw [hc, List.length_cons] at hblank
      split at h
      · obtain ⟨part, hp, hrest⟩ := Option.bind_eq_some_iff.mp h
        have hle := (leavesEnd_rest? hp).length_le
        exact ih part.length (by omega) (hpart hp) hrest rfl
      · obtain rfl := Option.some.inj h
        exact ⟨hs, hmore⟩
    · obtain rfl := Option.some.inj h
      exact ⟨hs, hmore⟩

theorem brackets_of_operand (h : rest? .operand s = some a) : rest? .brackets a = some a := by
  rw [rest?_operand_eq] at h
  obtain ⟨part, -, hbrackets⟩ := Option.bind_eq_some_iff.mp h
  exact rest?_brackets_of_ne (startsWithChar_of_brackets hbrackets)

theorem more_of_joined {j : Joint} {Q : Text → Prop}
    (hpart : ∀ {s a : Text}, rest? j.part s = some a → Q a) (h : rest? (.joined j) s = some a) :
    Q a ∧ rest? (.more j) a = some a := by
  rw [rest?_joined_eq] at h
  obtain ⟨part, hp, hmore⟩ := Option.bind_eq_some_iff.mp h
  exact more_settles hpart (hpart hp) hmore

theorem afterOperand?_of_union (h : rest? (.joined .union) s = some a) :
    afterOperand? a = some a := by
  have hpart : ∀ {s a : Text}, rest? Joint.union.part s = some a →
      rest? .brackets a = some a ∧ rest? (.more .intersection) a = some a := fun hp =>
    more_of_joined (j := .intersection) brackets_of_operand hp
  obtain ⟨⟨hbrackets, hinter⟩, hunion⟩ := more_of_joined hpart h
  simp [afterOperand?, hbrackets, hinter, hunion]

theorem conditionRest?_cases (h : conditionRest? s = some a) :
    a = s ∨ ∃ v, v.length < s.length ∧ rest? .whole v = some a := by
  unfold conditionRest? at h
  split at h
  · exact Or.inl (Option.some.inj h).symm
  rename_i checked hchecked
  obtain ⟨bound, hbound, hunion⟩ := Option.bind_eq_some_iff.mp hchecked
  have h₁ := length_afterKeyword?_lt hbound
  have h₂ := Text.length_skipBlanks_le s
  have h₃ := (leavesEnd_rest? hunion).length_le
  have h₄ := Text.length_skipBlanks_le checked
  split at h
  · rename_i whenTrue htrue
    rw [htrue, List.length_cons] at h₄
    split at h
    · cases h
    rename_i rest hrest
    have h₅ := (leavesEnd_rest? hrest).length_le
    have h₆ := Text.length_skipBlanks_le rest
    split at h
    · rename_i whenFalse hfalse
      rw [hfalse, List.length_cons] at h₆
      exact Or.inr ⟨whenFalse, by omega, h⟩
    · exact Or.inl (Option.some.inj h).symm
  · exact Or.inl (Option.some.inj h).symm

/-- **Behind a whole type there is nothing that a type would go on with.** -/
theorem afterPrimary?_of_whole (h : rest? .whole s = some a) : afterPrimary? a = some a := by
  induction hn : s.length using Nat.strong_induction_on generalizing s with
  | _ n ih =>
    subst hn
    rw [rest?_whole_eq] at h
    obtain ⟨plain, hunion, hcondition⟩ := Option.bind_eq_some_iff.mp h
    have hle := (leavesEnd_rest? hunion).length_le
    obtain rfl | ⟨v, hlt, hv⟩ := conditionRest?_cases hcondition
    · rw [afterPrimary?, afterOperand?_of_union hunion, Option.bind_some, hcondition]
    · exact ih v.length (by omega) hv rfl

/-! ### Going on with a type, and starting one anew -/

theorem conditionRest?_of_ne (h : word? (Text.skipBlanks s) ≠ some "extends".toList) :
    conditionRest? s = some s := by
  rw [conditionRest?, afterKeyword?, if_neg h, Option.bind_none]

/-- What stands behind an item is no word. -/
theorem EndsItem.word? (h : EndsItem s) : word? (Text.skipBlanks s) = none := by
  obtain ⟨c, hc, t, ht⟩ := h
  rw [ht]
  exact word?_of_stops (Text.stops_cons.mpr (by fin_cases hc <;> decide))

/-- Behind brackets both readers go on with what is behind them. -/
theorem afterPrimary?_of_bracket (h : startsWithChar '[' s = true) :
    afterPrimary? s = rest? .whole s := by
  have hhead : s.head? = some '[' := by simpa [startsWithChar] using h
  obtain ⟨t, rfl⟩ := List.head?_eq_some_iff.mp hhead
  have hpass : Text.skipBlanks ('[' :: t) = '[' :: t := Text.skipBlanks_cons (by decide)
  have hprimary : rest? .primary ('[' :: t) = afterGroup? ('[' :: t) := by
    rw [rest?_eq]
    rfl
  have hbrackets : rest? .brackets ('[' :: t) = (afterGroup? ('[' :: t)).bind (rest? .brackets) := by
    rw [rest?_eq]
    rfl
  rw [rest?_whole_of_stops (by rw [hpass]; exact Text.stops_cons.mpr (by decide)), hprimary]
  unfold afterPrimary? afterOperand?
  rw [hbrackets]
  simp only [Option.bind_assoc]

/-- Behind a sign that joins both readers go on with the type behind the sign. -/
theorem afterOperand?_of_sign {j : Joint} (hs : Text.skipBlanks s = j.sign :: t)
    (hbrackets : startsWithChar '[' s = false) (hsign : startsWithChar j.sign t = false)
    (hequals : startsWithChar '=' t = false) :
    afterOperand? s = rest? (.joined .union) s := by
  have hmore : rest? (.more j) s = (rest? j.part t).bind (rest? (.more j)) := by
    rw [rest?_more_eq, moreRest?, hs]
    simp [hsign, hequals]
  have hjoined : rest? (.joined j) (j.sign :: t) = (rest? j.part t).bind (rest? (.more j)) := by
    rw [rest?_joined_eq, skipSign, Text.skipBlanks_cons (by cases j <;> decide)]
    simp [hsign]
  rw [afterOperand?, rest?_brackets_of_ne hbrackets, Option.bind_some]
  have hwhole : rest? (.joined .union) s = rest? (.joined .union) (j.sign :: t) := by
    obtain ⟨gap, hgap, hgaps⟩ := exists_blanks s
    rw [hgaps, hs, rest?_joined_append hgap]
  cases j with
  | union =>
    rw [rest?_more_of_ne (by rw [hs]; exact Text.stops_cons.mpr (by decide)), Option.bind_some, hmore,
      hwhole, hjoined]
  | intersection =>
    have hskip : skipSign .union ('&' :: t) = '&' :: t :=
      skipSign_of_stops (Text.stops_cons.mpr (by decide))
    rw [hmore, ← hjoined, hwhole, rest?_joined_eq .union, show Joint.intersection.sign = '&' from rfl,
      hskip]
    rfl

/-- Behind a type nothing joins. -/
theorem afterPrimary?_of_stays (hbrackets : startsWithChar '[' s = false)
    (hmore : ∀ j : Joint, rest? (.more j) s = some s) : afterPrimary? s = conditionRest? s := by
  simp [afterPrimary?, afterOperand?, rest?_brackets_of_ne hbrackets, hmore]

/-- **What can go on with a type and can be a type ends at the same place either way**, as far as a
list goes on there. -/
theorem eq_of_afterPrimary? (ha : afterPrimary? s = some a) (hb : rest? .whole s = some b)
    (hend : EndsItem a) : a = b := by
  by_cases hopen : startsWithChar '[' s = true
  · rw [afterPrimary?_of_bracket hopen, hb] at ha
    exact (Option.some.inj ha).symm
  have hbrackets := eq_false_of_ne_true hopen
  by_cases hsign : ∃ (j : Joint) (t : Text), Text.skipBlanks s = j.sign :: t ∧
      startsWithChar j.sign t = false ∧ startsWithChar '=' t = false
  · obtain ⟨j, t, hs, hsign, hequals⟩ := hsign
    rw [afterPrimary?, afterOperand?_of_sign hs hbrackets hsign hequals, ← rest?_whole_eq, hb] at ha
    exact (Option.some.inj ha).symm
  -- no bracket and no sign goes on here, so this is the end of the one and no beginning of the other
  have hmore : ∀ j : Joint, rest? (.more j) s = some s := by
    intro j
    rw [rest?_more_eq, moreRest?]
    split
    · rename_i c t hs
      rw [if_neg]
      intro hc
      simp only [Bool.and_eq_true, decide_eq_true_eq, Bool.not_eq_true'] at hc
      obtain ⟨⟨rfl, hj⟩, hequals⟩ := hc
      exact hsign ⟨j, t, hs, hj, hequals⟩
    · rfl
  rw [afterPrimary?_of_stays hbrackets hmore] at ha
  by_cases hword : word? (Text.skipBlanks s) = some "extends".toList
  · rw [EndsParameter.rest?_whole (Or.inr hword)] at hb
    cases hb
  · obtain rfl := Option.some.inj ((conditionRest?_of_ne hword).symm.trans ha)
    rw [EndsParameter.rest?_whole (Or.inl hend)] at hb
    cases hb

/-! ### Behind a name -/

/-- A text that starts with a word is the word and what is behind it. -/
theorem exists_word (h : startsIdent s = true) :
    ∃ w rest, IsWord w ∧ Stops isIdentChar rest ∧ s = w ++ rest := by
  cases s with
  | nil => cases h
  | cons c s =>
    refine ⟨c :: s.takeWhile isIdentChar, s.dropWhile isIdentChar,
      ⟨h, fun d hd => List.mem_takeWhile_imp hd⟩, Text.stops_dropWhile _ _, ?_⟩
    rw [List.cons_append, List.takeWhile_append_dropWhile]

theorem exists_keyword {w : Text} (h : afterKeyword? w s = some u) :
    IsWord w ∧ Stops isIdentChar u ∧ s = w ++ u := by
  simp only [afterKeyword?, Option.ite_none_right_eq_some, Option.some.injEq] at h
  obtain ⟨hword, hskip⟩ := h
  obtain ⟨hident, hstart⟩ := ident_of_word? hword
  obtain ⟨v, rest, hv, hrest, rfl⟩ := exists_word hstart
  rw [hv.ident_append hrest] at hident
  rw [hv.skipIdent_append hrest] at hskip
  subst hident hskip
  exact ⟨hv, hrest, rfl⟩

theorem stops_joins_of_primary (h : rest? .primary s = some a) : Stops joins (Text.skipBlanks s) := by
  rw [← rest?_primary_skipBlanks] at h
  cases hs : Text.skipBlanks s with
  | nil => exact Text.stops_nil _
  | cons c t =>
    refine Text.stops_cons.mpr ?_
    by_contra hc
    have hmem : c ∈ ['|', '&', '=', '>'] := by
      simp only [joins, Bool.not_eq_false, Bool.or_eq_true, beq_iff_eq] at hc
      rcases hc with rfl | rfl <;> simp
    rw [hs, rest?_primary_sign hmem] at h
    cases h

/-- No type starts with a dot. -/
theorem rest?_whole_dot (t : Text) : rest? .whole ('.' :: t) = none := by
  rw [rest?_whole_of_stops (Text.stops_cons.mpr (by decide)), rest?_eq]
  rfl

/-- A type that is behind a word is apart from it. -/
theorem stops_isPathChar_of_whole (hu : Stops isIdentChar u) (hb : rest? .whole u = some b) :
    Stops isPathChar u := by
  cases u with
  | nil => exact Text.stops_nil _
  | cons c u =>
    refine Text.stops_cons.mpr ?_
    by_contra hc
    rw [Text.stops_cons] at hu
    obtain rfl : c = '.' := by simpa [isPathChar, hu] using hc
    rw [rest?_whole_dot] at hb
    cases hb

/-- A word that names a type is passed over, and then its arguments are looked for. -/
theorem rest?_primary_namesType {w : Text} (hw : IsWord w) (hname : namesType w = true)
    (hu : Stops isPathChar u) :
    rest? .primary (w ++ u) = predicateRest? rest? (skipArguments rest? u) := by
  have hprimary := rest?_primary_path ⟨w, [], hw, nofun⟩ hname hu
  rwa [show TypePath.text ⟨w, [], hw, nofun⟩ = w from List.append_nil w] at hprimary

/-- The two readers of a list that opens within a text of less than `n` characters agree. -/
def ListsAgree (n : Nat) : Prop :=
  ∀ {list a p : Text}, list.length < n → rest? (.arguments false) list = some a →
    rest? (.parameters false) list = some p → p = a

/-- The type arguments of a name are the parameters of a function type. -/
theorem rest?_whole_skipArguments (hlists : ListsAgree u.length) (hb : rest? .whole u = some b) :
    rest? .whole (skipArguments rest? u) = some b := by
  unfold skipArguments
  split
  · rename_i list
    cases hargs : rest? (.arguments false) list with
    | none => exact hb
    | some q =>
      have hgeneric : rest? .primary ('<' :: list)
          = (rest? (.parameters false) list).bind (rest? .primary) := by
        rw [rest?_eq]
        rfl
      rw [rest?_whole_of_stops (Text.stops_cons.mpr (by decide)), hgeneric] at hb
      obtain ⟨part, hpart, hafter⟩ := Option.bind_eq_some_iff.mp hb
      obtain ⟨p, hparams, hprimary⟩ := Option.bind_eq_some_iff.mp hpart
      obtain rfl := hlists (Nat.lt_succ_self _) hargs hparams
      rw [Option.getD_some, rest?_whole_of_stops (stops_joins_of_primary hprimary), hprimary,
        Option.bind_some, hafter]
  · exact hb

/-- The word `is` names a type as any word does. -/
theorem rest?_whole_is (hu : Stops isIdentChar u) (hb : rest? .whole u = some b) :
    rest? .whole ("is".toList ++ u)
      = (predicateRest? rest? (skipArguments rest? u)).bind afterPrimary? := by
  have hword : IsWord "is".toList := isWord_of_all (by decide) (by decide)
  have hname : namesType "is".toList = true := by decide
  rw [rest?_whole_of_stops (Text.stops_cons.mpr (by decide)),
    rest?_primary_namesType hword hname (stops_isPathChar_of_whole hu hb)]

/-- **What can go on with a name and can be a type ends at the same place either way.**  A predicate
that goes on with the one may start with `is` as the name of the other, so the two change places
with each `is`. -/
theorem eq_of_predicate (hlists : ListsAgree s.length)
    (ha : (predicateRest? rest? s).bind afterPrimary? = some a) (hb : rest? .whole s = some b)
    (hea : EndsItem a) (heb : EndsItem b) : a = b := by
  induction hn : s.length using Nat.strong_induction_on generalizing s a b with
  | _ n ih =>
    subst hn
    cases hword : afterKeyword? "is".toList (Text.skipInline s) with
    | none =>
      rw [predicateRest?, hword, Option.bind_some] at ha
      exact eq_of_afterPrimary? ha hb hea
    | some u =>
      obtain ⟨-, hu, hs⟩ := exists_keyword hword
      have hlt := length_afterKeyword?_lt hword
      have hle := (Text.suffix_skipInline s).length_le
      have hargs := (suffix_skipArguments leavesEnd_rest? u).length_le
      rw [predicateRest?, hword] at ha
      obtain ⟨r, hr, hra⟩ := Option.bind_eq_some_iff.mp ha
      obtain rfl : r = a := Option.some.inj ((afterPrimary?_of_whole hr).symm.trans hra)
      have hname : rest? .whole ("is".toList ++ u) = some b := by
        rw [← hs, ← rest?_whole_skipBlanks, Text.skipBlanks_skipInline, rest?_whole_skipBlanks, hb]
      rw [rest?_whole_is hu hr] at hname
      have hlists' : ListsAgree u.length := fun h => hlists (by omega)
      exact (ih _ (by omega) (fun h => hlists (by omega)) hname (rest?_whole_skipArguments hlists' hr)
        heb hea rfl).symm

/-! ### One item -/

section Item

variable {w z after : Text}

/-- Behind the name of a parameter there is no bracket, and no sign of a path. -/
theorem EndsParameter.stops_of (h : EndsParameter z) {q : Char → Bool}
    (hq : ∀ c, q c = true → isBlank c = false ∧ isIdentStart c = false ∧ c ∉ [',', '>', '=']) :
    Stops q z := by
  cases z with
  | nil => exact Text.stops_nil _
  | cons c z =>
    refine Text.stops_cons.mpr ?_
    by_contra hc
    obtain ⟨hblank, hstart, hmem⟩ := hq c (by simpa using hc)
    have hpass : Text.skipBlanks (c :: z) = c :: z := Text.skipBlanks_cons hblank
    obtain ⟨d, hd, t, ht⟩ | hword := h
    · rw [hpass] at ht
      rw [(List.cons.inj ht).1] at hmem
      exact hmem hd
    · rw [hpass, word?_of_stops (Text.stops_cons.mpr hstart)] at hword
      cases hword

theorem startsWithChar_of_stops {c : Char} (h : Stops (· == c) s) : startsWithChar c s = false := by
  cases s with
  | nil => rfl
  | cons d s => simpa [startsWithChar] using h

theorem EndsParameter.bracket (h : EndsParameter z) : startsWithChar '[' z = false :=
  startsWithChar_of_stops <| h.stops_of fun c hc => by
    obtain rfl : c = '[' := by simpa using hc
    decide

theorem EndsParameter.stops_goesOnName (h : EndsParameter z) (hz : Stops isIdentChar z) :
    Stops goesOnName z := by
  have hsign : Stops (fun c => c == '.' || c == '<') z := h.stops_of fun c hc => by
    simp only [Bool.or_eq_true, beq_iff_eq] at hc
    rcases hc with rfl | rfl <;> decide
  intro c hc
  simpa [goesOnName, isPathChar, hz c hc] using hsign c hc

theorem EndsParameter.cases (h : EndsParameter z) :
    EndsItem z ∨ ∃ y, afterKeyword? "extends".toList (Text.skipBlanks z) = some y :=
  h.imp_right fun hword => ⟨_, if_pos hword⟩

theorem EndsItem.skipBlanks (h : EndsItem z) : EndsItem (Text.skipBlanks z) := by
  rwa [EndsItem, skipBlanks_skipBlanks]

theorem EndsItem.startsIdent (h : EndsItem z) : startsIdent (Text.skipBlanks z) = false := by
  obtain ⟨c, hc, t, ht⟩ := h
  rw [ht]
  fin_cases hc <;> rfl

theorem EndsItem.skipIdent (h : EndsItem z) :
    skipIdent (Text.skipBlanks z) = Text.skipBlanks z := by
  obtain ⟨c, hc, t, ht⟩ := h
  rw [ht]
  fin_cases hc <;> rfl

theorem EndsParameter.word (h : EndsParameter z) :
    afterKeyword? "is".toList (Text.skipBlanks z) = none := by
  obtain hitem | hword := h
  · rw [afterKeyword?, hitem.word?]
    rfl
  · rw [afterKeyword?, hword]
    rfl

/-- Where a list of parameters goes on behind a default, it does so in front of it. -/
theorem endsItem_of_default (h : defaultRest? rest? (Text.skipBlanks s) = some after)
    (hafter : Closes after) : EndsItem s := by
  unfold defaultRest? at h
  split at h
  · rename_i value hs
    exact ⟨'=', by simp, value, hs⟩
  · obtain rfl := Option.some.inj h
    exact .of_closes hafter

theorem endsParameter_of_bounded
    (h : (boundRest? rest? (Text.skipBlanks z)).bind (defaultRest? rest?) = some after)
    (hafter : Closes after) : EndsParameter z := by
  obtain ⟨bounded, hbound, hdefault⟩ := Option.bind_eq_some_iff.mp h
  unfold boundRest? at hbound
  split at hbound
  · rename_i y hy
    refine Or.inr ?_
    simp only [afterKeyword?, Option.ite_none_right_eq_some] at hy
    exact hy.1
  · obtain rfl := Option.some.inj hbound
    exact Or.inl (endsItem_of_default hdefault hafter)

theorem afterDotted?_word (hw : IsWord w) (hu : Stops isPathChar u) :
    afterDotted? (w ++ u) = some u := by
  have hdotted := TypePath.dottedRest_text ⟨w, [], hw, nofun⟩ hu
  rw [show TypePath.text ⟨w, [], hw, nofun⟩ = w from List.append_nil w] at hdotted
  rw [afterDotted?, if_pos hw.startsIdent, hdotted]

/-- What a word opens in front of the end of a parameter: it is a type of its own there, or it takes
`extends` for a name. -/
theorem wordRest?_cases (hw : IsWord w) (hz : Stops isIdentChar z) (hend : EndsParameter z)
    (hbound : ∀ y, afterKeyword? "extends".toList (Text.skipBlanks z) = some y →
      ∃ b, rest? .whole y = some b)
    (h : wordRest? rest? (w ++ z) = some a) :
    (Text.skipBlanks a = Text.skipBlanks z ∧ startsWithChar '[' a = false) ∨
      ∃ y, afterKeyword? "extends".toList (Text.skipBlanks z) = some y ∧
        (a = y ∨ predicateRest? rest? y = some a) := by
  by_cases hname : namesType w = true
  · have hgoes := hend.stops_goesOnName hz
    rw [← rest?_primary_word hw.startsIdent, rest?_primary_namesType hw hname (stops_isPathChar hgoes),
      skipArguments_of_stops hgoes, predicateRest?, afterKeyword?_skipInline hend.word,
      Option.some.injEq] at h
    rw [← h]
    exact Or.inl ⟨rfl, hend.bracket⟩
  unfold wordRest? at h
  simp only [hw.ident_append hz, hw.skipIdent_append hz] at h
  split at h
  · -- `typeof`
    obtain hitem | ⟨y, hy⟩ := hend.cases
    · rw [afterDotted?, if_neg (by simp [hitem.startsIdent])] at h
      cases h
    · obtain ⟨b, hb⟩ := hbound y hy
      obtain ⟨hextends, hstop, hs⟩ := exists_keyword hy
      rw [hs, afterDotted?_word hextends (stops_isPathChar_of_whole hstop hb), Option.some.injEq] at h
      exact Or.inr ⟨y, hy, Or.inl h.symm⟩
  split at h
  · rw [rest?_operand_eq, hend.rest?_primary] at h
    cases h
  split at h
  · rw [hend.rest?_primary] at h
    cases h
  split at h
  · -- `asserts`
    obtain hitem | ⟨y, hy⟩ := hend.cases
    · have hitem' : EndsParameter (Text.skipBlanks z) := Or.inl hitem.skipBlanks
      rw [hitem.skipIdent, predicateRest?, afterKeyword?_skipInline hitem'.word,
        Option.some.injEq] at h
      rw [← h]
      exact Or.inl ⟨skipBlanks_skipBlanks z, hitem'.bracket⟩
    · obtain ⟨hextends, hstop, hs⟩ := exists_keyword hy
      rw [hs, hextends.skipIdent_append hstop] at h
      exact Or.inr ⟨y, hy, Or.inr h⟩
  split at h
  · cases h
  · rename_i hoperator hcallable hasserts hreserved
    refine absurd ?_ hname
    have habstract : w ≠ "abstract".toList := by
      rintro rfl
      exact hcallable (by simp)
    have hallowed : (!isReserved w || typeWords.contains w) = true := by
      cases hr : isReserved w with
      | false => rfl
      | true => simpa [hr] using hreserved
    rw [namesType, eq_false_of_ne_true hoperator, bne_iff_ne.mpr habstract, bne_iff_ne.mpr hasserts,
      hallowed]
    rfl

/-- A conditional type has a question mark where the bound of a parameter ends, so nothing is
both. -/
theorem conditionRest?_ne (hs : afterKeyword? "extends".toList (Text.skipBlanks s) = some u)
    (hb : rest? .whole u = some b) (hbound : EndsItem b) (ha : EndsItem a) :
    conditionRest? s ≠ some a := by
  intro h
  rw [rest?_whole_eq] at hb
  obtain ⟨checked, hchecked, hcondition⟩ := Option.bind_eq_some_iff.mp hb
  unfold conditionRest? at h
  rw [hs, Option.bind_some, hchecked] at h
  simp only at h
  split at h
  · rename_i whenTrue hmark
    have hnone : word? (Text.skipBlanks checked) = none := by
      rw [hmark]
      exact word?_of_stops (Text.stops_cons.mpr (by decide))
    rw [conditionRest?_of_ne (by simp [hnone]), Option.some.injEq] at hcondition
    obtain ⟨c, hc, t, ht⟩ := hbound
    rw [← hcondition, hmark] at ht
    rw [← (List.cons.inj ht).1] at hc
    exact absurd hc (by decide)
  · have hword := ha.word?
    rw [← Option.some.inj h] at hword
    rw [afterKeyword?, hword] at hs
    cases hs

theorem eq_of_item (hlists : ListsAgree (w ++ z).length) (hw : IsWord w) (hz : Stops isIdentChar z)
    (ha : rest? .whole (w ++ z) = some a) (hcloses : Closes (Text.skipBlanks a))
    (h : (boundRest? rest? (Text.skipBlanks z)).bind (defaultRest? rest?) = some after)
    (hafter : Closes after) : after = Text.skipBlanks a := by
  have hend := endsParameter_of_bounded h hafter
  obtain ⟨bounded, hbound, hdefault⟩ := Option.bind_eq_some_iff.mp h
  have hwhole : ∀ y, afterKeyword? "extends".toList (Text.skipBlanks z) = some y →
      ∃ b, rest? .whole y = some b ∧ bounded = Text.skipBlanks b := by
    intro y hy
    rw [boundRest?, hy] at hbound
    obtain ⟨b, hb, rfl⟩ := Option.map_eq_some_iff.mp hbound
    exact ⟨b, hb, rfl⟩
  rw [rest?_whole_word hw.startsIdent] at ha
  obtain ⟨part, hpart, hprimary⟩ := Option.bind_eq_some_iff.mp ha
  have hcases := wordRest?_cases hw hz hend (fun y hy => (hwhole y hy).imp fun b hb => hb.1) hpart
  obtain ⟨hpass, hbracket⟩ | ⟨y, hy, hgoes⟩ := hcases
  · have hstop : Stops joins (Text.skipBlanks part) := by
      rw [hpass]
      exact hend.stops
    rw [afterPrimary?_of_stays hbracket fun j => rest?_more_of_ne (stops_sign hstop j)] at hprimary
    obtain hitem | ⟨y, hy⟩ := hend.cases
    · -- the type and the parameter are the word alone
      have hkeyword : afterKeyword? "extends".toList (Text.skipBlanks z) = none := by
        rw [afterKeyword?, hitem.word?]
        rfl
      rw [conditionRest?_of_ne (by simp [hpass, hitem.word?]), Option.some.injEq] at hprimary
      rw [← hprimary, hpass] at hcloses ⊢
      rw [boundRest?, hkeyword, Option.some.injEq] at hbound
      rw [← hbound, defaultRest?_of_closes hcloses, Option.some.injEq] at hdefault
      exact hdefault.symm
    · obtain ⟨b, hb, rfl⟩ := hwhole y hy
      rw [← hpass] at hy
      exact absurd hprimary (conditionRest?_ne hy hb (endsItem_of_default hdefault hafter)
        (.of_closes hcloses))
  · -- the type and the bound of the parameter go on behind `extends`
    obtain ⟨b, hb, rfl⟩ := hwhole y hy
    have heb := endsItem_of_default hdefault hafter
    have hea : EndsItem a := .of_closes hcloses
    have hlt := length_afterKeyword?_lt hy
    have hle := Text.length_skipBlanks_le z
    have hab : a = b := by
      obtain rfl | hpredicate := hgoes
      · exact eq_of_afterPrimary? hprimary hb hea
      · refine eq_of_predicate (fun h => hlists ?_) (Option.bind_eq_some_iff.mpr
          ⟨part, hpredicate, hprimary⟩) hb hea heb
        rw [List.length_append]
        omega
    subst hab
    exact Option.some.inj (hdefault.symm.trans (defaultRest?_of_closes hcloses))

theorem skipModifier_word (hw : IsWord w) (hz : Stops isIdentChar z) (m : Text) :
    skipModifier (w ++ z) m
      = if w = m ∧ startsIdent (Text.skipBlanks z) = true then Text.skipBlanks z else w ++ z := by
  rw [skipModifier, afterKeyword?, hw.word?_append hz, hw.skipIdent_append hz]
  by_cases hm : w = m <;> simp [hm]

/-- A name behind a name is no type, unless `is` is between them. -/
theorem not_closes_of_names (hw : IsWord w) (hname : namesType w = true) (hz : Stops isIdentChar z)
    (hnext : startsIdent (Text.skipBlanks z) = true)
    (hend : EndsParameter (skipIdent (Text.skipBlanks z))) (ha : rest? .whole (w ++ z) = some a) :
    ¬Closes (Text.skipBlanks a) := by
  intro hcloses
  have hblank : ∀ {q : Char → Bool}, (∀ c, q c = true → isBlank c = false) → Stops q z := by
    intro q hq
    cases z with
    | nil => exact Text.stops_nil _
    | cons c z =>
      refine Text.stops_cons.mpr ?_
      by_contra hc
      rw [Text.skipBlanks_cons (hq c (by simpa using hc))] at hnext
      rw [Text.stops_cons, isIdentChar_of_start hnext] at hz
      cases hz
  have hgoes : Stops goesOnName z := hblank fun _ => isBlank_eq_false_of_goesOnName
  have hstop : Stops joins (Text.skipBlanks z) := by
    rw [← skipBlanks_skipBlanks]
    exact stops_joins_of_startsIdent hnext
  rw [rest?_whole_word hw.startsIdent, ← rest?_primary_word hw.startsIdent,
    rest?_primary_namesType hw hname (stops_isPathChar hgoes), skipArguments_of_stops hgoes] at ha
  cases hword : afterKeyword? "is".toList (Text.skipInline z) with
  | some u =>
    -- no type is behind the predicate
    obtain ⟨his, hu, hs⟩ := exists_keyword hword
    rw [← Text.skipBlanks_skipInline, hs, Text.skipBlanks_of_stops his.stops_isBlank,
      his.skipIdent_append hu] at hend
    rw [predicateRest?, hword] at ha
    simp only [hend.rest?_whole] at ha
    cases ha
  | none =>
    have hbracket : startsWithChar '[' z = false := startsWithChar_of_stops <| hblank fun c hc => by
      obtain rfl : c = '[' := by simpa using hc
      decide
    have hplain : conditionRest? z = some z := by
      unfold conditionRest?
      split
      · rfl
      · rename_i checked hchecked
        obtain ⟨y, hy, hunion⟩ := Option.bind_eq_some_iff.mp hchecked
        obtain ⟨hextends, hstop, hs⟩ := exists_keyword hy
        rw [hs, hextends.skipIdent_append hstop] at hend
        rw [hend.rest?_union] at hunion
        cases hunion
    rw [predicateRest?, hword, Option.bind_some,
      afterPrimary?_of_stays hbracket fun j => rest?_more_of_ne (stops_sign hstop j), hplain,
      Option.some.injEq] at ha
    have hitem : EndsItem a := .of_closes hcloses
    have hstart := hitem.startsIdent
    rw [← ha, hnext] at hstart
    cases hstart

/-- A modifier in front of the name of a parameter is no type. -/
theorem skipModifiers_of_whole (hw : IsWord w) (hz : Stops isIdentChar z)
    (ha : rest? .whole (w ++ z) = some a) (hcloses : Closes (Text.skipBlanks a))
    (hend : EndsParameter (skipIdent (parameterModifiers.foldl skipModifier (w ++ z)))) :
    parameterModifiers.foldl skipModifier (w ++ z) = w ++ z := by
  have hreserved : ∀ m ∈ ["const".toList, "in".toList], w ≠ m := by
    rintro m hm rfl
    rw [rest?_whole_word hw.startsIdent, wordRest?, hw.ident_append hz] at ha
    fin_cases hm <;> cases ha
  have hfold : parameterModifiers.foldl skipModifier (w ++ z) = skipModifier (w ++ z) "out".toList := by
    have hskip : ∀ m ∈ ["const".toList, "in".toList], skipModifier (w ++ z) m = w ++ z := by
      intro m hm
      rw [skipModifier_word hw hz, if_neg fun h => hreserved m hm h.1]
    simp only [parameterModifiers, List.map_cons, List.map_nil, List.foldl_cons, List.foldl_nil,
      hskip "const".toList (by simp), hskip "in".toList (by simp)]
  rw [hfold, skipModifier_word hw hz] at hend ⊢
  by_cases hout : w = "out".toList ∧ startsIdent (Text.skipBlanks z) = true
  · rw [if_pos hout] at hend
    obtain ⟨rfl, hnext⟩ := hout
    exact absurd hcloses (not_closes_of_names hw (by decide) hz hnext hend ha)
  · rw [if_neg hout]

theorem startsIdent_of_skipModifiers
    (h : startsIdent (parameterModifiers.foldl skipModifier s) = true) : startsIdent s = true := by
  by_contra hstart
  have hskip : ∀ m, skipModifier s m = s := by
    intro m
    have hstop : Stops isIdentStart s := by
      cases s with
      | nil => exact Text.stops_nil _
      | cons c s => exact Text.stops_cons.mpr (by simpa [startsIdent] using hstart)
    rw [skipModifier, afterKeyword?_of_stops hstop]
  simp only [parameterModifiers, List.map_cons, List.map_nil, List.foldl_cons, List.foldl_nil,
    hskip] at h
  exact hstart h

end Item

/-! ### The list -/

theorem listRest?_some {again : TypeForm} (h : listRest? rest? again s = some a) : Closes s := by
  unfold listRest? at h
  split at h
  · exact TypeParameter.closes_comma _
  · exact TypeParameter.closes_angle _
  · cases h

/-- **Where a list is read as types and as declared parameters, it ends at the same place.** -/
theorem parameters_eq_arguments {any : Bool} (ha : rest? (.arguments any) s = some a)
    (hp : rest? (.parameters any) s = some p) : p = a := by
  induction hn : s.length using Nat.strong_induction_on generalizing s a p any with
  | _ n ih =>
    subst hn
    have hle := Text.length_skipBlanks_le s
    rw [rest?_eq] at ha hp
    simp only [formRest?, argumentsRest?, parametersRest?] at ha hp
    split at ha
    · rename_i hclose
      rw [if_pos hclose] at hp
      exact Option.some.inj (hp.symm.trans ha)
    rename_i hopen
    rw [if_neg hopen] at hp
    split at hp
    · cases hp
    rename_i hstart
    obtain ⟨b, hwhole, ha⟩ := Option.bind_eq_some_iff.mp ha
    obtain ⟨after, hbounded, hp⟩ := Option.bind_eq_some_iff.mp hp
    have hcloses := listRest?_some ha
    have hafter := listRest?_some hp
    have hend := endsParameter_of_bounded hbounded hafter
    rw [Bool.not_eq_true, Bool.not_eq_false'] at hstart
    obtain ⟨w, z, hw, hz, hs⟩ := exists_word (startsIdent_of_skipModifiers hstart)
    rw [hs] at hwhole hend hbounded hle
    have hskip := skipModifiers_of_whole hw hz hwhole hcloses hend
    rw [hskip, hw.skipIdent_append hz] at hbounded
    have hlists : ListsAgree (w ++ z).length := fun hlt ha hp => ih _ (by omega) ha hp rfl
    obtain rfl := eq_of_item hlists hw hz hwhole hcloses hbounded hafter
    -- both readers go on behind the same comma, or end at the same bracket
    obtain ⟨t, ht⟩ | ⟨t, ht⟩ := hcloses.cases
    · rw [ht, listRest?] at ha hp
      refine ih t.length ?_ ha hp rfl
      have h₁ := (leavesEnd_rest? hwhole).length_le
      have h₂ := Text.length_skipBlanks_le b
      rw [ht, List.length_cons] at h₂
      omega
    · rw [ht, listRest?] at ha hp
      exact Option.some.inj (hp.symm.trans ha)

/-- **A list of types is read to its end, also where declared parameters are looked for first.** -/
theorem parameters_or_arguments (h : afterTypeArguments? s = some a) :
    (afterTypeParameters? s).or (afterTypeArguments? s) = some a := by
  cases hparams : afterTypeParameters? s with
  | none => rw [h, Option.none_or]
  | some p =>
    obtain ⟨inside, rfl⟩ := exists_angles_of_afterTypeParameters? hparams
    rw [parameters_eq_arguments h hparams, Option.some_or]

end LivePreview.Script
