/-
Readers of literals, comments and groups in a text that goes on.

Where such a reader stops inside of the text in front, it does so without the text behind: a pair of
characters across the border would take it beyond.  With `leave_append` this says that what is read
in front of the place where a reader stops settles where it stops.

Inside of a group, code is read as it is read on its own, literal by literal and comment by comment.
-/
import LivePreview.Proofs.Script.TokenText

namespace LivePreview

variable {s t b : Text} {c : Char}

/-- An end piece of a text that a text is put in front of is all of it. -/
theorem Text.eq_nil_of_suffix {u : Text} (h : t ++ b <:+ u) (hle : u.length ≤ b.length) : t = [] := by
  have hlength := h.length_le
  rw [List.length_append] at hlength
  exact List.length_eq_zero_iff.mp (by omega)

theorem Text.dropWhile_cut {p : Char → Bool} (h : (s ++ b).dropWhile p = t ++ b) :
    s.dropWhile p = t := by
  induction s with
  | nil =>
    have hsuffix : t ++ b <:+ b := h ▸ List.dropWhile_suffix p
    rw [Text.eq_nil_of_suffix hsuffix (Nat.le_refl _)]
    rfl
  | cons c s ih =>
    rw [List.cons_append, List.dropWhile_cons] at h
    rw [List.dropWhile_cons]
    split
    · rename_i hc
      rw [if_pos hc] at h
      exact ih h
    · rename_i hc
      rw [if_neg hc, ← List.cons_append] at h
      exact List.append_cancel_right h

namespace Script

variable {inside up : List Within} {rest : Text} {q : Char} {w : Within} {g : Bracket}

/-! ### The text behind -/

/-- What is left of anything has a character less. -/
theorem length_leave_lt (hne : inside ≠ []) (h : leave inside s = some rest) :
    rest.length < s.length := by
  fun_induction leave inside s with
  | case1 => exact absurd rfl hne
  | case2 | case19 => cases h
  | _ =>
    have hle := (suffix_leave h).length_le
    simp only [List.length_cons]
    omega

theorem stringRest_cut (hq : isQuote q = true) (h : stringRest q (s ++ b) = t ++ b) :
    stringRest q s = t := by
  have behind : ∀ {u : Text}, stringRest q u = t ++ b → u.length ≤ b.length → t = [] :=
    fun hu => Text.eq_nil_of_suffix (hu ▸ suffix_stringRest q _)
  have hslash : q ≠ '\\' := by
    rintro rfl
    exact absurd hq (by decide)
  fun_induction stringRest q s with
  | case1 => exact (behind h (Nat.le_refl _)).symm
  | case2 c s ih => exact ih h
  | case3 s => exact List.append_cancel_right h
  | case4 s hescape hline =>
    rw [List.cons_append, stringRest, if_pos rfl] at h
    · exact List.append_cancel_right h
    · exact fun _ _ heq => absurd heq hslash
    · exact hline
  | case5 c s hescape hline hc ih =>
    by_cases hpair : c = '\\'
    · -- the backslash ends the text in front, and escapes what follows
      have hs : s = [] := by
        cases s with
        | nil => rfl
        | cons d s => exact absurd rfl (hescape d s hpair)
      subst hs hpair
      cases b with
      | nil => simpa [stringRest] using h
      | cons d u =>
        have hlength := (suffix_stringRest q u).length_le
        rw [List.singleton_append, stringRest] at h
        rw [h, List.length_append, List.length_cons] at hlength
        omega
    · rw [List.cons_append, stringRest, if_neg hc] at h
      · exact ih h
      · exact fun _ _ heq => absurd heq hpair
      · exact hline

theorem blockRest_cut (h : blockRest (s ++ b) = t ++ b) : blockRest s = t := by
  fun_induction blockRest s with
  | case1 => exact (Text.eq_nil_of_suffix (h ▸ suffix_blockRest b) (Nat.le_refl _)).symm
  | case2 s => exact List.append_cancel_right h
  | case3 c s hend ih =>
    by_cases hpair : ∃ u, c = '*' ∧ s ++ b = '/' :: u
    · obtain ⟨u, rfl, hu⟩ := hpair
      cases s with
      | nil =>
        obtain rfl : b = '/' :: u := hu
        have hlength := congrArg List.length h
        simp [blockRest] at hlength
        omega
      | cons d s =>
        obtain ⟨rfl, -⟩ := List.cons.inj hu
        exact absurd rfl (hend s rfl)
    · rw [List.cons_append, blockRest] at h
      · exact ih h
      · exact fun u hc hu => hpair ⟨u, hc, hu⟩

/-- A pair that does not stand at the front of a text stands there in no longer text either, unless
the border parts it. -/
theorem no_pair_cut {c d e : Char} (h : ∀ u, c = d → s = e :: u → False)
    (hborder : s = [] → c = d → ∀ u, b = e :: u → False) :
    ∀ u, c = d → s ++ b = e :: u → False := by
  intro u hc hu
  cases s with
  | nil => exact hborder rfl hc u hu
  | cons x s =>
    obtain ⟨rfl, -⟩ := List.cons.inj hu
    exact h s hc rfl

/-- **Where everything is left inside of a text, it is left there without the text behind.** -/
theorem leave_cut (h : leave inside (s ++ b) = some (t ++ b)) : leave inside s = some t := by
  -- what stands behind the border is not left in a part of itself
  have beyond : ∀ {inside : List Within} {e : Char} {u : Text}, b = e :: u →
      leave inside u = some (t ++ b) → False := by
    rintro inside e u rfl hu
    have hlength := (suffix_leave hu).length_le
    rw [List.length_append, List.length_cons] at hlength
    omega
  fun_induction leave inside s with
  | case1 s => simpa [leave] using h
  | case2 w up =>
    have hlength := length_leave_lt (List.cons_ne_nil w up) h
    rw [List.length_append, List.nil_append] at hlength
    omega
  | case9 up c s hpair ih =>
    rw [List.cons_append, leave] at h
    · exact ih h
    · refine no_pair_cut hpair ?_
      rintro rfl rfl u rfl
      exact beyond rfl (by simpa [leave] using h)
  | case12 up c s hpair hc ih =>
    rw [List.cons_append, leave, if_neg hc] at h
    · exact ih h
    · refine no_pair_cut hpair ?_
      rintro rfl rfl u rfl
      exact beyond rfl (by simpa [leave] using h)
  | case15 g up c s hline hblock hq ih =>
    have hc : c ≠ '/' := by
      rintro rfl
      exact absurd hq (by decide)
    rw [List.cons_append, leave, if_pos hq] at h
    · exact ih h
    · exact fun _ heq => absurd heq hc
    · exact fun _ heq => absurd heq hc
  | case17 g up c s hline hblock hq htick inner ho ih =>
    have hc : c ≠ '/' := by
      rintro rfl
      simp [Bracket.opened?] at ho
    rw [List.cons_append, leave, if_neg hq, if_neg htick, ho] at h
    · exact ih h
    · exact fun _ heq => absurd heq hc
    · exact fun _ heq => absurd heq hc
  | case18 up c s hline hblock hq htick closed hcl ho ih =>
    have hc : c ≠ '/' := by
      rintro rfl
      simp [Bracket.closed?] at hcl
    rw [List.cons_append, leave, if_neg hq, if_neg htick, ho, hcl] at h
    · exact ih (by simpa using h)
    · exact fun _ heq => absurd heq hc
    · exact fun _ heq => absurd heq hc
  | case19 g up c s hline hblock hq htick closed hcl ho hne =>
    have hc : c ≠ '/' := by
      rintro rfl
      simp [Bracket.closed?] at hcl
    rw [List.cons_append, leave, if_neg hq, if_neg htick, ho, hcl] at h
    · simp [hne] at h
    · exact fun _ heq => absurd heq hc
    · exact fun _ heq => absurd heq hc
  | case20 g up c s hline hblock hq htick hcl ho ih =>
    rw [List.cons_append, leave, if_neg hq, if_neg htick, ho, hcl] at h
    · exact ih h
    · refine no_pair_cut hline ?_
      rintro rfl rfl u rfl
      exact beyond rfl (by simpa [leave] using h)
    · refine no_pair_cut hblock ?_
      rintro rfl rfl u rfl
      exact beyond rfl (by simpa [leave] using h)
  | _ => simp_all [leave]

/-- What is inside is left before what is around. -/
theorem exists_of_leave_append (h : leave (inside ++ up) s = some rest) :
    ∃ t, leave inside s = some t ∧ leave up t = some rest := by
  fun_induction leave inside s with
  | case1 s => exact ⟨s, rfl, h⟩
  | case7 w c s ih =>
    refine ih ?_
    rw [List.cons_append, leave] at h
    split <;> simp_all
  | case12 w c s hpair hc ih =>
    refine ih ?_
    rw [List.cons_append, leave, if_neg hc] at h
    · split <;> simp_all
    · exact hpair
  | _ => simp_all [leave]

theorem afterGroup?_cut (h : afterGroup? (s ++ b) = some (t ++ b)) (hne : s ≠ []) :
    afterGroup? s = some t := by
  cases s with
  | nil => exact absurd rfl hne
  | cons c s =>
    obtain ⟨g, hg, hleave⟩ := Option.bind_eq_some_iff.mp h
    exact Option.bind_eq_some_iff.mpr ⟨g, hg, leave_cut hleave⟩

/-- **A literal or comment that ends inside of a text ends there without the text behind.** -/
theorem afterLiteral?_cut (h : (afterLiteral? (c :: (s ++ b))).getD (s ++ b) = t ++ b) :
    (afterLiteral? (c :: s)).getD s = t := by
  have beyond : ∀ {e : Char} {u v : Text}, b = e :: u → v <:+ u → v = t ++ b → False := by
    rintro e u v rfl hv rfl
    have hlength := hv.length_le
    rw [List.length_append, List.length_cons] at hlength
    omega
  by_cases hline : ∃ u, c = '/' ∧ s ++ b = '/' :: u
  · obtain ⟨u, rfl, hu⟩ := hline
    cases s with
    | nil =>
      rw [hu] at h
      exact (beyond hu (List.dropWhile_suffix _) h).elim
    | cons d s =>
      obtain ⟨rfl, -⟩ := List.cons.inj hu
      exact Text.dropWhile_cut h
  by_cases hblock : ∃ u, c = '/' ∧ s ++ b = '*' :: u
  · obtain ⟨u, rfl, hu⟩ := hblock
    cases s with
    | nil =>
      rw [hu] at h
      exact (beyond hu (suffix_blockRest u) h).elim
    | cons d s =>
      obtain ⟨rfl, -⟩ := List.cons.inj hu
      exact blockRest_cut h
  have hline' : ∀ u, c = '/' → s ++ b = '/' :: u → False := fun u hc hu => hline ⟨u, hc, hu⟩
  have hblock' : ∀ u, c = '/' → s ++ b = '*' :: u → False := fun u hc hu => hblock ⟨u, hc, hu⟩
  have hfront : ∀ {e : Char}, (∀ u, c = '/' → s ++ b = e :: u → False) →
      ∀ u, c = '/' → s = e :: u → False := fun hno u hc hu => hno (u ++ b) hc (by rw [hu]; rfl)
  rw [afterLiteral?] at h ⊢
  · split at h
    · rename_i hquote
      rw [if_pos hquote]
      exact stringRest_cut hquote h
    · rename_i hquote
      rw [if_neg hquote]
      split at h
      · rename_i htick
        rw [if_pos htick]
        cases hleave : leave [.template] (s ++ b) with
        | none =>
          rw [Option.getD_some, skipTemplate, hleave, Option.getD_none] at h
          obtain ⟨rfl, rfl⟩ := List.append_eq_nil_iff.mp h.symm
          rw [List.append_nil] at hleave
          rw [Option.getD_some, skipTemplate, hleave, Option.getD_none]
        | some rest =>
          rw [Option.getD_some, skipTemplate, hleave, Option.getD_some] at h
          rw [Option.getD_some, skipTemplate, leave_cut (h ▸ hleave)]
          rfl
      · rename_i htick
        rw [if_neg htick]
        exact List.append_cancel_right h
  · exact hfront hline'
  · exact hfront hblock'
  · exact hline'
  · exact hblock'

/-! ### Code inside of a group -/

/-- Inside of a group a string is left where it ends on its own. -/
theorem leave_quoted (hq : isQuote q = true) (s : Text) :
    leave (.quoted q :: .group g :: up) s = leave (.group g :: up) (stringRest q s) := by
  have hslash : q ≠ '\\' := by
    rintro rfl
    exact absurd hq (by decide)
  fun_induction stringRest q s with
  | case1 => rfl
  | case2 c s ih => rw [← ih, leave, if_pos rfl, leave]
  | case3 s => rfl
  | case4 s hescape hline => simp [leave, hslash]
  | case5 c s hescape hline hc ih =>
    by_cases hpair : c = '\\'
    · cases s with
      | nil =>
        rw [hpair]
        rfl
      | cons d s => exact absurd rfl (hescape d s hpair)
    · rw [leave, if_neg hpair, if_neg (by simpa using ⟨hline, hc⟩), ih]

theorem leave_template (s : Text) : leave (.template :: .group g :: up) s
    = leave (.group g :: up) ((leave [.template] s).getD []) := by
  cases hleave : leave [.template] s with
  | some rest => exact leave_around (.group g :: up) hleave
  | none =>
    refine Option.eq_none_iff_forall_not_mem.mpr fun rest hrest => ?_
    have hwhole : leave ([.template] ++ .group g :: up) s = some rest := hrest
    obtain ⟨t, ht, -⟩ := exists_of_leave_append hwhole
    rw [hleave] at ht
    cases ht

/-- A block comment inside of something is left where it ends on its own. -/
theorem leave_blockComment (w : Within) (up : List Within) (s : Text) :
    leave (.blockComment :: w :: up) s = leave (w :: up) (blockRest s) := by
  fun_induction blockRest s with
  | case1 => rfl
  | case2 s => rfl
  | case3 c s hend ih =>
    rw [leave, ih]
    exact hend

/-- Inside of a group a line comment is left where it ends on its own. -/
theorem leave_skipLine (s : Text) : leave (.lineComment :: .group g :: up) s
    = leave (.group g :: up) (Text.skipLine s) := by
  induction s with
  | nil => rfl
  | cons c s ih =>
    by_cases hc : c = '\n'
    · rw [hc]
      rfl
    · have hskip : Text.skipLine (c :: s) = Text.skipLine s :=
        List.dropWhile_cons_of_pos (by simpa using hc)
      rw [leave, if_neg hc, ih, hskip]

/-- **Inside of a group, literals and comments are passed over as they are on their own.** -/
theorem leave_afterLiteral (hopen : Bracket.opened? c = none) (hclose : Bracket.closed? c = none)
    (s : Text) : leave (.group g :: up) (c :: s)
      = leave (.group g :: up) ((afterLiteral? (c :: s)).getD s) := by
  by_cases hline : ∃ u, c = '/' ∧ s = '/' :: u
  · obtain ⟨u, rfl, rfl⟩ := hline
    exact leave_skipLine u
  by_cases hblock : ∃ u, c = '/' ∧ s = '*' :: u
  · obtain ⟨u, rfl, rfl⟩ := hblock
    exact leave_blockComment (.group g) up u
  have hline' : ∀ u, c = '/' → s = '/' :: u → False := fun u hc hu => hline ⟨u, hc, hu⟩
  have hblock' : ∀ u, c = '/' → s = '*' :: u → False := fun u hc hu => hblock ⟨u, hc, hu⟩
  rw [afterLiteral?, leave]
  · split
    · rename_i hquote
      exact leave_quoted hquote s
    · split
      · exact leave_template s
      · rw [hopen, hclose]
        rfl
  · exact hline'
  · exact hblock'
  · exact hline'
  · exact hblock'

end Script

end LivePreview
