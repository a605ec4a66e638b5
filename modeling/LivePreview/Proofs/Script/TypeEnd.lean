/-
What remains behind a type is an end piece of the text.

Each form of the type grammar is read by a function of its own, over a reader for the forms that
it is made of.  If that reader leaves end pieces then so does the function, and the bound on the
depth of the calls carries this to all forms at once.
-/
import LivePreview.Proofs.Script.Extent
import LivePreview.Script.TypeExtent

namespace LivePreview.Script

/-! ### Names, numbers and strings -/

theorem suffix_dottedRest (n : Nat) (s : Text) : dottedRest n s <:+ s := by
  induction n generalizing s with
  | zero => exact List.suffix_rfl
  | succ n ih =>
    have hs := suffix_skipIdent s
    simp only [dottedRest]
    split
    · rename_i t ht
      rw [ht] at hs
      split
      · exact (ih t).trans (Text.suffix_of_cons hs)
      · exact hs
    · exact hs

theorem suffix_afterDotted? {s rest : Text} (h : afterDotted? s = some rest) : rest <:+ s := by
  simp only [afterDotted?] at h
  split at h
  · cases h
    exact suffix_dottedRest _ _
  · cases h

theorem suffix_afterNumber? {s rest : Text} (h : afterNumber? s = some rest) : rest <:+ s := by
  simp only [afterNumber?, Option.ite_none_right_eq_some] at h
  obtain ⟨-, h⟩ := h
  cases h
  refine (List.dropWhile_suffix _).trans ?_
  split
  · exact List.suffix_cons _ _
  · exact List.suffix_rfl

theorem suffix_afterStringType? {s rest : Text} (h : afterStringType? s = some rest) :
    rest <:+ s := by
  cases s with
  | nil => cases h
  | cons quote s =>
    simp only [afterStringType?] at h
    split at h
    · cases h
      exact (suffix_stringRest quote s).trans (List.suffix_cons quote s)
    · cases h

theorem suffix_skipModifier (s modifier : Text) : skipModifier s modifier <:+ s := by
  simp only [skipModifier]
  split
  · rename_i rest hrest
    split
    · exact (Text.suffix_skipBlanks rest).trans (suffix_afterKeyword? hrest)
    · exact List.suffix_rfl
  · exact List.suffix_rfl

theorem suffix_skipModifiers (modifiers : List Text) (s : Text) :
    modifiers.foldl skipModifier s <:+ s := by
  induction modifiers generalizing s with
  | nil => exact List.suffix_rfl
  | cons modifier modifiers ih => exact (ih _).trans (suffix_skipModifier s modifier)

theorem suffix_skipSign (j : Joint) (s : Text) : skipSign j s <:+ s := by
  have hs := Text.suffix_skipBlanks s
  simp only [skipSign]
  split
  · rename_i c rest hc
    rw [hc] at hs
    split
    · exact Text.suffix_of_cons hs
    · exact hs
  · exact List.nil_suffix

/-! ### The forms -/

/-- A reader that leaves an end piece of what it is given. -/
def TypeReader.LeavesEnd (read : TypeReader) : Prop :=
  ∀ ⦃f : TypeForm⦄ ⦃s rest : Text⦄, read f s = some rest → rest <:+ s

section

variable {read : TypeReader} (hread : read.LeavesEnd) {s rest : Text}

include hread

theorem suffix_wholeRest? (h : wholeRest? read s = some rest) : rest <:+ s := by
  simp only [wholeRest?] at h
  split at h
  · cases h
  rename_i plain hplain
  have hplain := hread hplain
  split at h
  · cases h
    exact hplain
  rename_i checked hchecked
  obtain ⟨bound, hbound, hchecked⟩ := Option.bind_eq_some_iff.mp hchecked
  have hbound : bound <:+ s :=
    (suffix_afterKeyword? hbound).trans ((Text.suffix_skipBlanks plain).trans hplain)
  have hchecked : Text.skipBlanks checked <:+ s :=
    (Text.suffix_skipBlanks checked).trans ((hread hchecked).trans hbound)
  split at h
  · rename_i whenTrue htrue
    rw [htrue] at hchecked
    split at h
    · cases h
    rename_i result hresult
    have hresult : Text.skipBlanks result <:+ s :=
      (Text.suffix_skipBlanks result).trans
        ((hread hresult).trans (Text.suffix_of_cons hchecked))
    split at h
    · rename_i whenFalse hfalse
      rw [hfalse] at hresult
      exact (hread h).trans (Text.suffix_of_cons hresult)
    · cases h
      exact hplain
  · cases h
    exact hplain

theorem suffix_joinedRest? {j : Joint} (h : joinedRest? read j s = some rest) : rest <:+ s := by
  obtain ⟨part, hpart, hmore⟩ := Option.bind_eq_some_iff.mp h
  exact (hread hmore).trans ((hread hpart).trans (suffix_skipSign j s))

theorem suffix_moreRest? {j : Joint} (h : moreRest? read j s = some rest) : rest <:+ s := by
  have hs := Text.suffix_skipBlanks s
  simp only [moreRest?] at h
  split at h
  · rename_i c t hc
    rw [hc] at hs
    split at h
    · obtain ⟨part, hpart, hmore⟩ := Option.bind_eq_some_iff.mp h
      exact (hread hmore).trans ((hread hpart).trans (Text.suffix_of_cons hs))
    · cases h
      exact List.suffix_rfl
  · cases h
    exact List.suffix_rfl

theorem suffix_bracketsRest? (h : bracketsRest? read s = some rest) : rest <:+ s := by
  simp only [bracketsRest?] at h
  split at h
  · obtain ⟨part, hpart, hmore⟩ := Option.bind_eq_some_iff.mp h
    exact (hread hmore).trans (suffix_afterGroup? hpart)
  · cases h
    exact List.suffix_rfl

theorem suffix_roundRest? (h : roundRest? read s = some rest) : rest <:+ s := by
  simp only [roundRest?] at h
  split at h
  · cases h
  rename_i close hclose
  have hclose := suffix_afterGroup? hclose
  have hblanks := (Text.suffix_skipBlanks close).trans hclose
  split at h
  · rename_i result hresult
    rw [hresult] at hblanks
    exact (hread h).trans (Text.suffix_of_cons (Text.suffix_of_cons hblanks))
  · cases h
    exact hclose

theorem suffix_predicateRest? (h : predicateRest? read s = some rest) : rest <:+ s := by
  simp only [predicateRest?] at h
  split at h
  · rename_i type htype
    exact (hread h).trans ((suffix_afterKeyword? htype).trans (Text.suffix_skipInline s))
  · cases h
    exact List.suffix_rfl

theorem suffix_skipArguments (s : Text) : skipArguments read s <:+ s := by
  simp only [skipArguments]
  split
  · rename_i list
    cases hlist : read (.arguments false) list with
    | none => exact List.suffix_rfl
    | some after => exact (hread hlist).trans (List.suffix_cons '<' list)
  · exact List.suffix_rfl

theorem suffix_wordRest? (h : wordRest? read s = some rest) : rest <:+ s := by
  have hword := suffix_skipIdent s
  have hblanks := (Text.suffix_skipBlanks (skipIdent s)).trans hword
  simp only [wordRest?] at h
  split at h
  · exact (suffix_afterDotted? h).trans hblanks
  split at h
  · exact (hread h).trans hword
  split at h
  · exact (hread h).trans hword
  split at h
  · exact (suffix_predicateRest? hread h).trans ((suffix_skipIdent _).trans hblanks)
  split at h
  · cases h
  · exact (suffix_predicateRest? hread h).trans
      ((suffix_skipArguments hread _).trans (suffix_dottedRest _ s))

theorem suffix_primaryRest? (h : primaryRest? read s = some rest) : rest <:+ s := by
  have hs := Text.suffix_skipBlanks s
  simp only [primaryRest?] at h
  split at h
  · cases h
  rename_i c t hc
  rw [hc] at hs
  refine List.IsSuffix.trans ?_ hs
  split at h
  · exact suffix_roundRest? hread h
  split at h
  · exact suffix_afterGroup? h
  split at h
  · exact suffix_afterStringType? h
  split at h
  · cases h
    exact suffix_skipTemplate _
  split at h
  · obtain ⟨params, hparams, hresult⟩ := Option.bind_eq_some_iff.mp h
    exact (hread hresult).trans ((hread hparams).trans (List.suffix_cons c t))
  split at h
  · exact suffix_afterNumber? h
  split at h
  · exact suffix_wordRest? hread h
  · cases h

theorem suffix_listRest? {again : TypeForm} (h : listRest? read again s = some rest) :
    rest <:+ s := by
  simp only [listRest?] at h
  split at h
  · exact (hread h).trans (List.suffix_cons _ _)
  · cases h
    exact List.suffix_cons _ _
  · cases h

theorem suffix_argumentsRest? {any : Bool} (h : argumentsRest? read any s = some rest) :
    rest <:+ s := by
  have hs := Text.suffix_skipBlanks s
  simp only [argumentsRest?] at h
  split at h
  · cases h
    exact (List.drop_suffix 1 _).trans hs
  · obtain ⟨type, htype, hlist⟩ := Option.bind_eq_some_iff.mp h
    exact (suffix_listRest? hread hlist).trans
      ((Text.suffix_skipBlanks type).trans ((hread htype).trans hs))

theorem suffix_boundRest? (h : boundRest? read s = some rest) : rest <:+ s := by
  simp only [boundRest?] at h
  split at h
  · rename_i bound hbound
    obtain ⟨type, htype, rfl⟩ := Option.map_eq_some_iff.mp h
    exact (Text.suffix_skipBlanks type).trans ((hread htype).trans (suffix_afterKeyword? hbound))
  · cases h
    exact List.suffix_rfl

theorem suffix_defaultRest? (h : defaultRest? read s = some rest) : rest <:+ s := by
  simp only [defaultRest?] at h
  split at h
  · rename_i value
    split at h
    · cases h
      exact List.suffix_rfl
    · obtain ⟨type, htype, rfl⟩ := Option.map_eq_some_iff.mp h
      exact (Text.suffix_skipBlanks type).trans ((hread htype).trans (List.suffix_cons '=' value))
  · cases h
    exact List.suffix_rfl

/-- In front of the list behind its first parameter, there is that parameter. -/
theorem parametersRest?_cases {any : Bool} (h : parametersRest? read any s = some rest) :
    '>' :: rest <:+ s ∨
      ∃ list, list <:+ s ∧ listRest? read (.parameters true) list = some rest := by
  have hs := Text.suffix_skipBlanks s
  simp only [parametersRest?] at h
  split at h
  · rename_i hclose
    cases h
    have hhead : (Text.skipBlanks s).head? = some '>' := by
      simpa [startsWithChar] using (Bool.and_eq_true_iff.mp hclose).2
    obtain ⟨rest, hrest⟩ := List.head?_eq_some_iff.mp hhead
    rw [hrest] at hs ⊢
    exact Or.inl hs
  split at h
  · cases h
  obtain ⟨list, hlist, h⟩ := Option.bind_eq_some_iff.mp h
  obtain ⟨bounded, hbounded, hdefault⟩ := Option.bind_eq_some_iff.mp hlist
  refine Or.inr ⟨list, ?_, h⟩
  exact (suffix_defaultRest? hread hdefault).trans ((suffix_boundRest? hread hbounded).trans
    ((Text.suffix_skipBlanks _).trans ((suffix_skipIdent _).trans
      ((suffix_skipModifiers parameterModifiers _).trans hs))))

theorem suffix_parametersRest? {any : Bool} (h : parametersRest? read any s = some rest) :
    rest <:+ s := by
  obtain hclose | ⟨list, hlist, h⟩ := parametersRest?_cases hread h
  · exact Text.suffix_of_cons hclose
  · exact (suffix_listRest? hread h).trans hlist

theorem leavesEnd_formRest? : TypeReader.LeavesEnd (formRest? read) := by
  intro f s rest h
  cases f with
  | whole => exact suffix_wholeRest? hread h
  | joined j => exact suffix_joinedRest? hread h
  | more j => exact suffix_moreRest? hread h
  | operand =>
    obtain ⟨part, hpart, hmore⟩ := Option.bind_eq_some_iff.mp h
    exact (hread hmore).trans (hread hpart)
  | brackets => exact suffix_bracketsRest? hread h
  | primary => exact suffix_primaryRest? hread h
  | arguments any => exact suffix_argumentsRest? hread h
  | parameters any => exact suffix_parametersRest? hread h

end

/-- **Every form leaves an end piece of what it was given.** -/
theorem leavesEnd_extent (n : Nat) : TypeReader.LeavesEnd (extent n) := by
  induction n with
  | zero =>
    intro f s rest h
    cases h
  | succ n ih => exact leavesEnd_formRest? ih

theorem suffix_afterType? {s rest : Text} (h : afterType? s = some rest) : rest <:+ s :=
  leavesEnd_extent _ h

theorem suffix_tail_afterTypeArguments? {s rest : Text} (h : afterTypeArguments? s = some rest) :
    rest <:+ s.tail := by
  unfold afterTypeArguments? at h
  split at h
  · exact leavesEnd_extent _ h
  · cases h

/-- **A list of declared parameters ends with its bracket.** -/
theorem closing_of_parameters {n : Nat} {any : Bool} {s rest : Text}
    (h : extent n (.parameters any) s = some rest) : '>' :: rest <:+ s := by
  induction n generalizing any s with
  | zero => cases h
  | succ n ih =>
    obtain hclose | ⟨list, hlist, h⟩ := parametersRest?_cases (leavesEnd_extent n) h
    · exact hclose
    · refine List.IsSuffix.trans ?_ hlist
      unfold listRest? at h
      split at h
      · exact (ih h).trans (List.suffix_cons _ _)
      · cases h
        exact List.suffix_rfl
      · cases h

theorem exists_angles_of_afterTypeParameters? {s rest : Text}
    (h : afterTypeParameters? s = some rest) : ∃ inside, s = '<' :: (inside ++ '>' :: rest) := by
  unfold afterTypeParameters? at h
  split at h
  · obtain ⟨inside, rfl⟩ := closing_of_parameters h
    exact ⟨inside, rfl⟩
  · cases h

theorem suffix_tail_afterTypeParameters? {s rest : Text}
    (h : afterTypeParameters? s = some rest) : rest <:+ s.tail := by
  obtain ⟨inside, rfl⟩ := exists_angles_of_afterTypeParameters? h
  exact ⟨inside ++ ['>'], by simp⟩

end LivePreview.Script
