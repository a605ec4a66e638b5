/-
The type grammar without its bound.

`extent` counts down a bound on the depth of its calls, which hides the grammar from
every proof about it.  This file takes the bound away.  A call of `extent` is measured by

    8 · (characters left) + (height of the form)

where the height orders the forms that call each other without reading a character.
Every call that `extent` makes has a smaller measure than the call it is made from, so a
bound above the measure is as good as any other: `extent_stable`.  `rest?` is the reader
under such a bound, and it satisfies the equations of the grammar with no bound in them.

That no reader leaves more than it was given follows from what it leaves being an end piece.
-/
import LivePreview.Proofs.Script.TypeEnd

namespace LivePreview.Script

/-! ### A bound above the measure is as good as any other -/

/-- The place of a form among those that call each other without reading a character. -/
def TypeForm.height : TypeForm → Nat
  | .more _ | .brackets => 0
  | .primary | .parameters _ => 1
  | .operand => 2
  | .joined .intersection => 3
  | .joined .union => 4
  | .whole => 5
  | .arguments _ => 6

/-- The measure of a call. -/
def TypeForm.measure (f : TypeForm) (s : Text) : Nat := 8 * s.length + f.height

theorem TypeForm.height_le (f : TypeForm) : f.height ≤ 6 := by
  rcases f with _ | ⟨_ | _⟩ | _ | _ | _ | _ | _ | _ <;> simp [TypeForm.height]

/-- The depth of a text is a bound above the measure of every call on it. -/
theorem TypeForm.measure_lt_depth (f : TypeForm) (s : Text) : f.measure s < depth s := by
  have := f.height_le
  simp only [TypeForm.measure, depth]
  omega

theorem Joint.height_part_lt (j : Joint) : j.part.height < (TypeForm.joined j).height := by
  cases j <;> simp [Joint.part, TypeForm.height]

/-- Two readers that agree on all calls of a smaller measure. -/
def TypeReader.Agree (read read' : TypeReader) (m : Nat) : Prop :=
  ∀ f s, f.measure s < m → read f s = read' f s

section Agree

variable {read read' : TypeReader} {f : TypeForm} {s : Text}

theorem TypeReader.Agree.shorter (h : read.Agree read' (f.measure s)) (g : TypeForm) {t : Text}
    (hlt : t.length < s.length) : read g t = read' g t := by
  refine h g t ?_
  have := g.height_le
  simp only [TypeForm.measure]
  omega

theorem TypeReader.Agree.lower (h : read.Agree read' (f.measure s)) (g : TypeForm) {t : Text}
    (hle : t.length ≤ s.length) (hlt : g.height < f.height) : read g t = read' g t := by
  refine h g t ?_
  simp only [TypeForm.measure]
  omega

theorem bracketsRest?_congr (h : read.Agree read' (TypeForm.brackets.measure s)) :
    bracketsRest? read s = bracketsRest? read' s := by
  simp only [bracketsRest?]
  split
  · exact Option.bind_congr fun part hp => h.shorter _ (length_afterGroup?_lt hp)
  · rfl

theorem predicateRest?_congr {s t : Text} (h : read.Agree read' (f.measure s))
    (ht : t.length ≤ s.length) : predicateRest? read t = predicateRest? read' t := by
  have hi := Text.length_skipInline_le t
  simp only [predicateRest?]
  split
  · rename_i type htype
    have := length_afterKeyword?_lt htype
    exact h.shorter _ (by omega)
  · rfl

theorem skipArguments_congr {s t : Text} (h : read.Agree read' (f.measure s))
    (ht : t.length ≤ s.length) : skipArguments read t = skipArguments read' t := by
  simp only [skipArguments]
  split
  · rename_i list
    rw [List.length_cons] at ht
    rw [h.shorter (.arguments false) (by omega)]
  · rfl

theorem roundRest?_congr {s t : Text} (h : read.Agree read' (f.measure s))
    (ht : t.length ≤ s.length) : roundRest? read t = roundRest? read' t := by
  simp only [roundRest?]
  cases hclose : afterGroup? t with
  | none => rfl
  | some close =>
    have h₁ := length_afterGroup?_lt hclose
    have h₂ := Text.length_skipBlanks_le close
    simp only
    split
    · rename_i result hresult
      rw [hresult, List.length_cons, List.length_cons] at h₂
      exact h.shorter _ (by omega)
    · rfl

theorem listRest?_congr {s t : Text} {again : TypeForm} (h : read.Agree read' (f.measure s))
    (ht : t.length ≤ s.length) : listRest? read again t = listRest? read' again t := by
  simp only [listRest?]
  split
  · rename_i next
    rw [List.length_cons] at ht
    exact h.shorter _ (by omega)
  · rfl
  · rfl

theorem boundRest?_congr {s t : Text} (h : read.Agree read' (f.measure s))
    (ht : t.length ≤ s.length) : boundRest? read t = boundRest? read' t := by
  simp only [boundRest?]
  split
  · rename_i bound hbound
    have := length_afterKeyword?_lt hbound
    rw [h.shorter .whole (t := bound) (by omega)]
  · rfl

theorem defaultRest?_congr {s t : Text} (h : read.Agree read' (f.measure s))
    (ht : t.length ≤ s.length) : defaultRest? read t = defaultRest? read' t := by
  simp only [defaultRest?]
  split
  · rename_i value
    rw [List.length_cons] at ht
    rw [h.shorter .whole (t := value) (by omega)]
  · rfl

variable (hread : read'.LeavesEnd)

include hread

theorem wholeRest?_congr (h : read.Agree read' (TypeForm.whole.measure s)) :
    wholeRest? read s = wholeRest? read' s := by
  have hunion : read (.joined .union) s = read' (.joined .union) s :=
    h.lower _ (Nat.le_refl _) (by simp [TypeForm.height])
  simp only [wholeRest?, hunion]
  cases hplain : read' (.joined .union) s with
  | none => rfl
  | some plain =>
    have h₁ := (hread hplain).length_le
    have h₂ := Text.length_skipBlanks_le plain
    simp only
    cases hbound : afterKeyword? "extends".toList (Text.skipBlanks plain) with
    | none => rfl
    | some bound =>
      have h₃ := length_afterKeyword?_lt hbound
      have hchecked : read (.joined .union) bound = read' (.joined .union) bound :=
        h.shorter _ (by omega)
      simp only [Option.bind_some, hchecked]
      cases hc : read' (.joined .union) bound with
      | none => rfl
      | some checked =>
        have h₄ := (hread hc).length_le
        have h₅ := Text.length_skipBlanks_le checked
        simp only
        split
        · rename_i whenTrue ht
          rw [ht, List.length_cons] at h₅
          have htrue : read .whole whenTrue = read' .whole whenTrue := h.shorter _ (by omega)
          rw [htrue]
          cases hw : read' .whole whenTrue with
          | none => rfl
          | some rest =>
            have h₆ := (hread hw).length_le
            have h₇ := Text.length_skipBlanks_le rest
            simp only
            split
            · rename_i whenFalse hf
              rw [hf, List.length_cons] at h₇
              exact h.shorter _ (by omega)
            · rfl
        · rfl

theorem joinedRest?_congr {j : Joint} (h : read.Agree read' ((TypeForm.joined j).measure s)) :
    joinedRest? read j s = joinedRest? read' j s := by
  have hs := (suffix_skipSign j s).length_le
  have hpart : read j.part (skipSign j s) = read' j.part (skipSign j s) :=
    h.lower _ hs j.height_part_lt
  rw [joinedRest?, joinedRest?, hpart]
  refine Option.bind_congr fun part hp => ?_
  have := (hread hp).length_le
  refine h.lower _ (by omega) ?_
  cases j <;> simp [TypeForm.height]

theorem moreRest?_congr {j : Joint} (h : read.Agree read' ((TypeForm.more j).measure s)) :
    moreRest? read j s = moreRest? read' j s := by
  have hs := Text.length_skipBlanks_le s
  simp only [moreRest?]
  split
  · rename_i c t hc
    rw [hc, List.length_cons] at hs
    split
    · have hpart : read j.part t = read' j.part t := h.shorter _ (by omega)
      rw [hpart]
      refine Option.bind_congr fun part hp => ?_
      have := (hread hp).length_le
      exact h.shorter _ (by omega)
    · rfl
  · rfl

/-- Behind a word of the type grammar every call is on less text. -/
theorem wordRest?_congr {s t : Text} (h : read.Agree read' (f.measure s))
    (ht : t.length ≤ s.length) (hstart : startsIdent t = true) :
    wordRest? read t = wordRest? read' t := by
  have hw := length_skipIdent_lt hstart
  have hb := Text.length_skipBlanks_le (skipIdent t)
  have hs := (suffix_skipIdent (Text.skipBlanks (skipIdent t))).length_le
  have hd := (suffix_dottedRest t.length t).length_le
  simp only [wordRest?]
  rw [h.shorter .operand (t := skipIdent t) (by omega),
    h.shorter .primary (t := skipIdent t) (by omega),
    predicateRest?_congr h (t := skipIdent (Text.skipBlanks (skipIdent t))) (by omega),
    skipArguments_congr h (t := dottedRest t.length t) (by omega)]
  have ha := (suffix_skipArguments hread (dottedRest t.length t)).length_le
  rw [predicateRest?_congr h (t := skipArguments read' (dottedRest t.length t)) (by omega)]

theorem primaryRest?_congr (h : read.Agree read' (TypeForm.primary.measure s)) :
    primaryRest? read s = primaryRest? read' s := by
  have hs := Text.length_skipBlanks_le s
  simp only [primaryRest?]
  split
  · rfl
  rename_i c t hc
  rw [hc] at hs
  have ht : t.length < s.length := by
    rw [List.length_cons] at hs
    omega
  rw [roundRest?_congr h hs, h.shorter (.parameters false) ht]
  have hgeneric : (read' (.parameters false) t).bind (read .primary)
      = (read' (.parameters false) t).bind (read' .primary) := by
    refine Option.bind_congr fun result hr => ?_
    have := (hread hr).length_le
    exact h.shorter _ (by omega)
  rw [hgeneric]
  by_cases hi : isIdentStart c = true
  · rw [wordRest?_congr hread h hs hi]
  · simp [hi]

theorem argumentsRest?_congr {any : Bool}
    (h : read.Agree read' ((TypeForm.arguments any).measure s)) :
    argumentsRest? read any s = argumentsRest? read' any s := by
  have hs := Text.length_skipBlanks_le s
  have hwhole : read .whole (Text.skipBlanks s) = read' .whole (Text.skipBlanks s) :=
    h.lower _ hs (by simp [TypeForm.height])
  simp only [argumentsRest?, hwhole]
  split
  · rfl
  · refine Option.bind_congr fun type htype => ?_
    have h₁ := (hread htype).length_le
    have h₂ := Text.length_skipBlanks_le type
    exact listRest?_congr h (by omega)

theorem parametersRest?_congr {any : Bool}
    (h : read.Agree read' ((TypeForm.parameters any).measure s)) :
    parametersRest? read any s = parametersRest? read' any s := by
  have h₁ := Text.length_skipBlanks_le s
  have h₂ := (suffix_skipModifiers parameterModifiers (Text.skipBlanks s)).length_le
  simp only [parametersRest?]
  set name := parameterModifiers.foldl skipModifier (Text.skipBlanks s) with hname
  have h₃ := Text.length_skipBlanks_le (skipIdent name)
  split
  · rfl
  by_cases hstart : startsIdent name = true
  · have h₄ := length_skipIdent_lt hstart
    have hlist : (boundRest? read (Text.skipBlanks (skipIdent name))).bind (defaultRest? read)
        = (boundRest? read' (Text.skipBlanks (skipIdent name))).bind (defaultRest? read') := by
      rw [boundRest?_congr h (t := Text.skipBlanks (skipIdent name)) (by omega)]
      refine Option.bind_congr fun bounded hb => ?_
      have := (suffix_boundRest? hread hb).length_le
      exact defaultRest?_congr h (by omega)
    rw [hlist]
    simp only [hstart, Bool.not_true, Bool.false_eq_true, if_false]
    refine Option.bind_congr fun defaulted hd => ?_
    obtain ⟨bounded, hbounded, hdefault⟩ := Option.bind_eq_some_iff.mp hd
    have h₅ := (suffix_boundRest? hread hbounded).length_le
    have h₆ := (suffix_defaultRest? hread hdefault).length_le
    exact listRest?_congr h (by omega)
  · simp [hstart]

theorem formRest?_congr (h : read.Agree read' (f.measure s)) :
    formRest? read f s = formRest? read' f s := by
  cases f with
  | whole => exact wholeRest?_congr hread h
  | joined j => exact joinedRest?_congr hread h
  | more j => exact moreRest?_congr hread h
  | operand =>
    simp only [formRest?]
    rw [h.lower .primary (Nat.le_refl _) (by simp [TypeForm.height])]
    refine Option.bind_congr fun part hp => ?_
    exact h.lower .brackets (hread hp).length_le (by simp [TypeForm.height])
  | brackets => exact bracketsRest?_congr h
  | primary => exact primaryRest?_congr hread h
  | arguments any => exact argumentsRest?_congr hread h
  | parameters any => exact parametersRest?_congr hread h

end Agree

/-- **Above its measure the bound of a call does not matter.** -/
theorem extent_stable {n k : Nat} {f : TypeForm} {s : Text} (hn : f.measure s < n)
    (hk : f.measure s < k) : extent n f s = extent k f s := by
  induction n generalizing k f s with
  | zero => omega
  | succ n ih =>
    cases k with
    | zero => omega
    | succ k =>
      refine formRest?_congr (leavesEnd_extent k) fun g t hlt => ?_
      exact ih (by omega) (by omega)

/-! ### The grammar without the bound -/

/-- What remains behind a form of the type grammar. -/
def rest? (f : TypeForm) (s : Text) : Option Text := extent (depth s) f s

theorem leavesEnd_rest? : TypeReader.LeavesEnd rest? := fun _ s _ h =>
  leavesEnd_extent (depth s) h

theorem extent_eq_rest? {n : Nat} {f : TypeForm} {s : Text} (hn : f.measure s < n) :
    extent n f s = rest? f s :=
  extent_stable hn (f.measure_lt_depth s)

/-- **Each form is read by its function, over the forms that it is made of.** -/
theorem rest?_eq (f : TypeForm) (s : Text) : rest? f s = formRest? rest? f s := by
  have hlt := f.measure_lt_depth s
  show extent (8 * s.length + 7 + 1) f s = formRest? rest? f s
  refine formRest?_congr leavesEnd_rest? fun g t hg => ?_
  simp only [depth] at hlt
  exact extent_eq_rest? (by omega)

theorem afterType?_eq (s : Text) : afterType? s = rest? .whole s := rfl

theorem afterTypeArguments?_cons (s : Text) :
    afterTypeArguments? ('<' :: s) = rest? (.arguments false) s := rfl

theorem afterTypeParameters?_cons (s : Text) :
    afterTypeParameters? ('<' :: s) = rest? (.parameters false) s := rfl

end LivePreview.Script
