/-
Code as it is written into a script element.

Two things must not stand in a script element: what ends it, in letters of any case, and what opens
a comment.  Both start with a `<` and have no other one in them.  So a backslash behind that `<`
breaks the one that starts there, and it neither makes a new one nor hides one that starts
elsewhere: whether one starts at a `<` is settled by what stands in front of the next `<`, and no
backslash is put in there.  All that is said of the writer rests on this: that its one pass does
what two replacements do, that a second pass finds nothing, and that taking the backslashes out
again gives the code back.
-/
import LivePreview.Proofs.Page.Closings
import LivePreview.Proofs.Text.Reading

namespace LivePreview.Page

variable {c : Char} {s t u w : Text}

/-! ### Hazards -/

/-- What must not stand in a script element: its end, and the start of a comment. -/
inductive Hazard : Text → Prop
  | scriptEnd {letters : Text}
      (h : List.Forall₂ (fun l c => isLetter l c = true) "script".toList letters) :
      Hazard ('<' :: '/' :: letters)
  | comment : Hazard "<!--".toList

/-- True if a hazard starts here. -/
def startsHazard : Text → Bool
  | '<' :: s => isHazard s
  | _ => false

theorem startsWithLetters_iff : startsWithLetters w s = true ↔
    ∃ letters, List.Forall₂ (fun l c => isLetter l c = true) w letters ∧ letters <+: s := by
  induction w generalizing s with
  | nil =>
    constructor
    · intro _
      exact ⟨[], .nil, List.nil_prefix⟩
    · intro _
      cases s <;> rfl
  | cons l w ih =>
    cases s with
    | nil =>
      constructor
      · intro h
        cases h
      · rintro ⟨letters, hletters, hfront⟩
        cases hletters
        exact absurd (List.prefix_nil.mp hfront) (List.cons_ne_nil _ _)
    | cons c s =>
      rw [startsWithLetters, Bool.and_eq_true, ih]
      constructor
      · rintro ⟨hc, letters, hletters, hfront⟩
        exact ⟨c :: letters, .cons hc hletters, List.cons_prefix_cons.mpr ⟨rfl, hfront⟩⟩
      · rintro ⟨letters, hletters, hfront⟩
        cases hletters with
        | cons hd hletters =>
          obtain ⟨rfl, hlater⟩ := List.cons_prefix_cons.mp hfront
          exact ⟨hd, _, hletters, hlater⟩

/-- **The writer of code looks for the hazards.** -/
theorem startsHazard_iff : startsHazard s = true ↔ ∃ w, Hazard w ∧ w <+: s := by
  constructor
  · intro h
    unfold startsHazard at h
    split at h
    · unfold isHazard at h
      split at h
      · obtain ⟨letters, hletters, hfront⟩ := startsWithLetters_iff.mp h
        refine ⟨_, .scriptEnd hletters, ?_⟩
        simpa using hfront
      · exact ⟨_, .comment, by simp⟩
      · cases h
    · cases h
  · rintro ⟨w, hw, rest, rfl⟩
    cases hw with
    | scriptEnd hletters => exact startsWithLetters_iff.mpr ⟨_, hletters, List.prefix_append _ _⟩
    | comment => rfl

/-- The end of a script element in capitals, or in letters of both cases, is a hazard. -/
theorem hazard_of_toLower (h : w.map Char.toLower = "</script".toList) : Hazard w := by
  obtain ⟨a, rest, rfl, ha, hrest⟩ := List.map_eq_cons_iff.mp h
  obtain ⟨b, letters, rfl, hb, hletters⟩ := List.map_eq_cons_iff.mp hrest
  rw [eq_of_toLower (by decide) ha, eq_of_toLower (by decide) hb]
  have hlower : List.Forall₂ (fun l c => isLetter l c = true) (letters.map Char.toLower) letters := by
    rw [List.forall₂_map_left_iff, List.forall₂_same]
    intro d _
    rw [isLetter, beq_self_eq_true, Bool.true_or]
  rw [hletters] at hlower
  exact .scriptEnd hlower

/-! ### Backslashes behind some of the `<` -/

/-- The text with a backslash behind each `<` for which the test holds of what stands behind it. -/
def guardBy (test : Text → Bool) : Text → Text
  | [] => []
  | c :: s => if c = '<' && test s then '<' :: '\\' :: guardBy test s else c :: guardBy test s

theorem escapeCode_eq_guardBy (s : Text) : escapeCode s = guardBy isHazard s := by
  induction s with
  | nil => rfl
  | cons c s ih => rw [escapeCode, guardBy, ih]

/-- The test looks no further than the next `<`. -/
def Nearsighted (test : Text → Bool) : Prop :=
  ∀ s, test s = test (s.takeWhile (· != '<'))

section Guard

variable {test other : Text → Bool}

theorem guardBy_lt (h : test s = true) : guardBy test ('<' :: s) = '<' :: '\\' :: guardBy test s := by
  rw [guardBy, h]
  rfl

theorem guardBy_cons (h : c ≠ '<' ∨ test s = false) : guardBy test (c :: s) = c :: guardBy test s := by
  rw [guardBy, if_neg]
  rw [Bool.and_eq_true, decide_eq_true_eq]
  rintro ⟨hc, hs⟩
  rcases h with hne | hfalse
  · exact hne hc
  · rw [hfalse] at hs
    cases hs

theorem guardBy_append (h : '<' ∉ u) (s : Text) : guardBy test (u ++ s) = u ++ guardBy test s := by
  induction u with
  | nil => rfl
  | cons c u ih =>
    rw [List.mem_cons, not_or] at h
    rw [List.cons_append, guardBy_cons (Or.inl (Ne.symm h.1)), ih h.2]
    rfl

theorem takeWhile_guardBy (test : Text → Bool) (s : Text) :
    (guardBy test s).takeWhile (· != '<') = s.takeWhile (· != '<') := by
  induction s with
  | nil => rfl
  | cons c s ih =>
    by_cases hc : c = '<'
    · subst hc
      by_cases hs : test s = true
      · rw [guardBy_lt hs]
        rfl
      · rw [guardBy_cons (Or.inr (by simpa using hs))]
        rfl
    · rw [guardBy_cons (Or.inl hc), List.takeWhile_cons, List.takeWhile_cons, ih]

/-- What a test finds does not change by backslashes behind later `<`. -/
theorem Nearsighted.guardBy (h : Nearsighted test) (other : Text → Bool) (s : Text) :
    test (guardBy other s) = test s := by
  rw [h, takeWhile_guardBy, ← h]

/-- Two tests in one. -/
def either (test other : Text → Bool) (s : Text) : Bool := test s || other s

theorem Nearsighted.either (h : Nearsighted test) (hother : Nearsighted other) :
    Nearsighted (either test other) := by
  intro s
  unfold Page.either
  rw [← h, ← hother]

/-- **Two passes put in what one pass does that looks for both.** -/
theorem guardBy_guardBy (hnear : Nearsighted other) (hback : ∀ s, other ('\\' :: s) = false)
    (s : Text) : guardBy other (guardBy test s) = guardBy (either test other) s := by
  induction s with
  | nil => rfl
  | cons c s ih =>
    by_cases hc : c = '<'
    · subst hc
      have hsame := hnear.guardBy test s
      by_cases htest : test s = true
      · have hboth : either test other s = true := by rw [either, htest, Bool.true_or]
        have hslash : '\\' ≠ '<' := by decide
        rw [guardBy_lt htest, guardBy_lt hboth, guardBy_cons (Or.inr (hback _)),
          guardBy_cons (Or.inl hslash), ih]
      rw [Bool.not_eq_true] at htest
      rw [guardBy_cons (Or.inr htest)]
      by_cases hother : other s = true
      · have hboth : either test other s = true := by rw [either, hother, Bool.or_true]
        rw [guardBy_lt (hsame.trans hother), guardBy_lt hboth, ih]
      · rw [Bool.not_eq_true] at hother
        have hboth : either test other s = false := by rw [either, htest, hother, Bool.or_false]
        rw [guardBy_cons (Or.inr (hsame.trans hother)), guardBy_cons (Or.inr hboth), ih]
    · rw [guardBy_cons (Or.inl hc), guardBy_cons (Or.inl hc), guardBy_cons (Or.inl hc), ih]

end Guard

/-! ### One pass -/

/-- True if a script element ends here, behind a `<`. -/
def endsScript (s : Text) : Bool := startsWithLetters ('/' :: "script".toList) s

/-- True if a comment is opened here, behind a `<`. -/
def opensComment (s : Text) : Bool := startsWithLetters ['!', '-', '-'] s

theorem exists_of_startsWithLetters {l : Char} (hl : l.toNat < 65)
    (h : startsWithLetters (l :: w) s = true) : ∃ t, s = l :: t ∧ startsWithLetters w t = true := by
  cases s with
  | nil => cases h
  | cons c s =>
    rw [startsWithLetters, Bool.and_eq_true, isLetter, Bool.or_eq_true, Bool.and_eq_true, beq_iff_eq,
      beq_iff_eq] at h
    obtain ⟨hlower | ⟨rfl, -⟩, hlater⟩ := h
    · rw [eq_of_toLower hl hlower]
      exact ⟨s, rfl, hlater⟩
    · exact absurd hl (by decide)

theorem isHazard_eq_either : isHazard = either endsScript opensComment := by
  funext s
  unfold isHazard either endsScript opensComment
  split
  · exact (Bool.or_false _).symm
  · simp [startsWithLetters, isLetter]
  · rename_i hend hcomment
    symm
    rw [Bool.or_eq_false_iff, Bool.eq_false_iff, Bool.eq_false_iff]
    constructor
    · intro h
      obtain ⟨t, rfl, -⟩ := exists_of_startsWithLetters (by decide) h
      exact hend t rfl
    · intro h
      obtain ⟨t, rfl, ht⟩ := exists_of_startsWithLetters (by decide) h
      obtain ⟨u, rfl, hu⟩ := exists_of_startsWithLetters (by decide) ht
      obtain ⟨v, rfl, -⟩ := exists_of_startsWithLetters (by decide) hu
      exact hcomment v rfl

theorem nearsighted_startsWithLetters (h : ∀ l ∈ w, isLetter l '<' = false) :
    Nearsighted (startsWithLetters w) := by
  intro s
  induction w generalizing s with
  | nil => cases s <;> simp [startsWithLetters]
  | cons l w ih =>
    rw [List.forall_mem_cons] at h
    cases s with
    | nil => rfl
    | cons c s =>
      by_cases hc : c = '<'
      · subst hc
        rw [startsWithLetters, h.1, Bool.false_and]
        rfl
      · rw [List.takeWhile_cons_of_pos (by simpa using hc), startsWithLetters, startsWithLetters,
          ih h.2]

theorem nearsighted_endsScript : Nearsighted endsScript :=
  nearsighted_startsWithLetters (by simp [isLetter])

theorem nearsighted_opensComment : Nearsighted opensComment :=
  nearsighted_startsWithLetters (by simp [isLetter])

theorem nearsighted_isHazard : Nearsighted isHazard := by
  rw [isHazard_eq_either]
  exact nearsighted_endsScript.either nearsighted_opensComment

theorem eq_lt_of_startsHazard (h : startsHazard (c :: s) = true) : c = '<' ∧ isHazard s = true := by
  unfold startsHazard at h
  split at h
  · rename_i heq
    obtain ⟨rfl, rfl⟩ := List.cons.inj heq
    exact ⟨rfl, h⟩
  · cases h

theorem escapeCode_lt (h : isHazard s = true) : escapeCode ('<' :: s) = '<' :: '\\' :: escapeCode s := by
  rw [escapeCode_eq_guardBy, escapeCode_eq_guardBy, guardBy_lt h]

theorem escapeCode_cons (h : startsHazard (c :: s) = false) :
    escapeCode (c :: s) = c :: escapeCode s := by
  rw [escapeCode_eq_guardBy, escapeCode_eq_guardBy]
  refine guardBy_cons ?_
  by_cases hc : c = '<'
  · subst hc
    exact Or.inr h
  · exact Or.inl hc

/-- **A second pass puts nothing in.** -/
theorem escapeCode_escapeCode (s : Text) : escapeCode (escapeCode s) = escapeCode s := by
  have htwice : either isHazard isHazard = isHazard := funext fun s => Bool.or_self _
  simp only [escapeCode_eq_guardBy]
  rw [guardBy_guardBy nearsighted_isHazard (fun _ => rfl), htwice]

/-! ### Two replacements -/

/-- The text with what `find` finds replaced, from the front on.  A finding is what is written and
what remains; the first argument is the number of characters that the last one still covers. -/
def replaceFrom (find : Text → Option (Text × Text)) : Nat → Text → Text
  | _, [] => []
  | covered + 1, _ :: s => replaceFrom find covered s
  | 0, c :: s =>
    match find (c :: s) with
    | some (written, rest) => written ++ replaceFrom find (s.length - rest.length) s
    | none => c :: replaceFrom find 0 s

/-- The text with all that `find` finds replaced. -/
def replaceAll (find : Text → Option (Text × Text)) (s : Text) : Text := replaceFrom find 0 s

/-- The end of a script element, with a backslash behind its `<`. -/
def scriptEnd? : Text → Option (Text × Text)
  | '<' :: s => if endsScript s then some ("<\\".toList ++ s.take 7, s.drop 7) else none
  | _ => none

/-- The start of a comment, with a backslash behind its `<`. -/
def commentStart? (s : Text) : Option (Text × Text) :=
  (Text.after? "<!--".toList s).map fun rest => ("<\\!--".toList, rest)

theorem replaceFrom_append (find : Text → Option (Text × Text)) (u s : Text) :
    replaceFrom find u.length (u ++ s) = replaceAll find s := by
  induction u with
  | nil => rfl
  | cons c u ih => exact ih

/-- A reader that finds a `<` with what is behind it, without a further `<`, and writes a backslash
in between. -/
structure Guards (find : Text → Option (Text × Text)) (test : Text → Bool) : Prop where
  none_of_ne : ∀ {c s}, c ≠ '<' → find (c :: s) = none
  none_of_false : ∀ {s}, test s = false → find ('<' :: s) = none
  some_of_true : ∀ {s}, test s = true → ∃ u rest, s = u ++ rest ∧ '<' ∉ u ∧
    find ('<' :: s) = some ('<' :: '\\' :: u, rest)

theorem Guards.replaceAll_eq {find : Text → Option (Text × Text)} {test : Text → Bool}
    (h : Guards find test) (s : Text) : replaceAll find s = guardBy test s := by
  -- on the length, since a finding covers characters of the rest
  induction hn : s.length using Nat.strong_induction_on generalizing s with
  | _ n ih =>
    cases s with
    | nil => rfl
    | cons c s =>
      have hlater : replaceAll find s = guardBy test s :=
        ih s.length (by rw [← hn]; exact Nat.lt_succ_self _) s rfl
      have hpass (hnone : find (c :: s) = none) :
          replaceAll find (c :: s) = c :: replaceAll find s := by
        rw [replaceAll, replaceFrom, hnone]
        rfl
      by_cases hc : c = '<'
      · subst hc
        by_cases htest : test s = true
        · obtain ⟨u, rest, rfl, hu, hfind⟩ := h.some_of_true htest
          have hrest : replaceAll find rest = guardBy test rest := by
            refine ih rest.length ?_ rest rfl
            rw [← hn, List.length_cons, List.length_append]
            omega
          have hcovered : (u ++ rest).length - rest.length = u.length := by
            rw [List.length_append, Nat.add_sub_cancel]
          rw [guardBy_lt htest, guardBy_append hu, ← hrest, replaceAll, replaceFrom, hfind]
          dsimp only
          rw [hcovered, replaceFrom_append]
          rfl
        · rw [Bool.not_eq_true] at htest
          rw [hpass (h.none_of_false htest), guardBy_cons (Or.inr htest), hlater]
      · rw [hpass (h.none_of_ne hc), guardBy_cons (Or.inl hc), hlater]

theorem exists_letters (h : startsWithLetters w s = true) (hw : ∀ l ∈ w, isLetter l '<' = false) :
    ∃ u rest, s = u ++ rest ∧ u.length = w.length ∧ '<' ∉ u := by
  obtain ⟨u, hletters, rest, rfl⟩ := startsWithLetters_iff.mp h
  refine ⟨u, rest, rfl, hletters.length_eq.symm, ?_⟩
  clear h
  induction hletters with
  | nil => exact List.not_mem_nil
  | cons hc _ ih =>
    rw [List.forall_mem_cons] at hw
    rw [List.mem_cons, not_or]
    refine ⟨?_, ih hw.2⟩
    rintro rfl
    rw [hw.1] at hc
    cases hc

theorem guards_scriptEnd : Guards scriptEnd? endsScript where
  none_of_ne hc := by
    unfold scriptEnd?
    split
    · rename_i heq
      exact absurd (List.cons.inj heq).1 hc
    · rfl
  none_of_false h := by
    rw [scriptEnd?, h]
    rfl
  some_of_true h := by
    obtain ⟨u, rest, rfl, hlength, hu⟩ := exists_letters h (by simp [isLetter])
    refine ⟨u, rest, rfl, hu, ?_⟩
    have htake : (u ++ rest).take 7 = u := List.take_left' hlength
    have hdrop : (u ++ rest).drop 7 = rest := List.drop_left' hlength
    rw [scriptEnd?, h, htake, hdrop]
    rfl

theorem guards_commentStart : Guards commentStart? opensComment where
  none_of_ne hc := by
    rw [commentStart?, Option.map_eq_none_iff]
    exact if_neg (Ne.symm hc)
  none_of_false {s} h := by
    rw [commentStart?, Option.map_eq_none_iff, Option.eq_none_iff_forall_ne_some]
    intro rest hrest
    have hrest : Text.after? "!--".toList s = some rest := hrest
    rw [Text.eq_append_of_after? hrest] at h
    simp [opensComment, startsWithLetters, isLetter] at h
  some_of_true h := by
    obtain ⟨t, rfl, ht⟩ := exists_of_startsWithLetters (by decide) h
    obtain ⟨u, rfl, hu⟩ := exists_of_startsWithLetters (by decide) ht
    obtain ⟨rest, rfl, -⟩ := exists_of_startsWithLetters (by decide) hu
    exact ⟨['!', '-', '-'], rest, rfl, by decide, rfl⟩

/-- **One pass over code does what two replacements do**, of the ends of script elements and of the
starts of comments. -/
theorem replaceAll_replaceAll (s : Text) :
    replaceAll commentStart? (replaceAll scriptEnd? s) = escapeCode s := by
  rw [guards_commentStart.replaceAll_eq, guards_scriptEnd.replaceAll_eq,
    guardBy_guardBy nearsighted_opensComment (fun _ => rfl), escapeCode_eq_guardBy,
    isHazard_eq_either]

/-! ### What is put in -/

/-- The offsets at which a hazard starts. -/
def hazardsAt (s : Text) : List Nat := (List.range s.length).filter fun i => startsHazard (s.drop i)

/-- The offsets of the backslashes that are put in, each in the text as it is written: behind its
`<` and behind the backslashes that were put in before. -/
def insertedAt (s : Text) : List Nat := (hazardsAt s).mapIdx fun before i => i + 1 + before

/-- The text without the characters at some offsets. -/
def withoutAt (offsets : List Nat) (s : Text) : Text :=
  (s.zipIdx.filter fun p => !offsets.contains p.2).map Prod.fst

theorem hazardsAt_cons (c : Char) (s : Text) : hazardsAt (c :: s) =
    (if startsHazard (c :: s) then [0] else []) ++ (hazardsAt s).map (· + 1) := by
  rw [hazardsAt, List.length_cons, List.range_succ_eq_map, List.filter_cons, List.filter_map,
    List.drop_zero]
  by_cases h : startsHazard (c :: s) = true
  · rw [if_pos h, if_pos h]
    rfl
  · rw [if_neg h, if_neg h]
    rfl

theorem insertedAt_cons_of_hazard (h : startsHazard (c :: s) = true) :
    insertedAt (c :: s) = 1 :: (insertedAt s).map (· + 2) := by
  rw [insertedAt, hazardsAt_cons, if_pos h, List.singleton_append, List.mapIdx_cons, insertedAt]
  refine congrArg (1 :: ·) (List.ext_getElem? fun k => ?_)
  simp only [List.getElem?_mapIdx, List.getElem?_map, Option.map_map]
  congr 1
  funext i
  simp only [Function.comp_apply]
  omega

theorem insertedAt_cons (h : startsHazard (c :: s) = false) :
    insertedAt (c :: s) = (insertedAt s).map (· + 1) := by
  rw [insertedAt, hazardsAt_cons, h, insertedAt]
  refine List.ext_getElem? fun k => ?_
  simp only [Bool.false_eq_true, if_false, List.nil_append, List.getElem?_mapIdx, List.getElem?_map,
    Option.map_map]
  congr 1
  funext i
  simp only [Function.comp_apply]
  omega

theorem map_filter_zipIdx_one (p : Nat → Bool) (s : Text) :
    ((s.zipIdx 1).filter fun x => p x.2).map Prod.fst
      = ((s.zipIdx.filter fun x => p (x.2 + 1))).map Prod.fst := by
  rw [List.zipIdx_succ, List.filter_map, List.map_map]
  rfl

theorem contains_map_succ (offsets : List Nat) (i : Nat) :
    (offsets.map (· + 1)).contains (i + 1) = offsets.contains i := by
  rw [Bool.eq_iff_iff, List.contains_iff_mem, List.contains_iff_mem, List.mem_map]
  constructor
  · rintro ⟨j, hj, heq⟩
    rwa [← Nat.add_right_cancel heq]
  · intro hi
    exact ⟨i, hi, rfl⟩

theorem withoutAt_shift (offsets : List Nat) (c : Char) (s : Text) :
    withoutAt (offsets.map (· + 1)) (c :: s) = c :: withoutAt offsets s := by
  have hzero : (!(offsets.map (· + 1)).contains 0) = true := by
    simp
  rw [withoutAt, List.zipIdx_cons, List.filter_cons, if_pos hzero, List.map_cons,
    map_filter_zipIdx_one fun i => !(offsets.map (· + 1)).contains i]
  simp only [contains_map_succ]
  rfl

theorem withoutAt_zero (offsets : List Nat) (c : Char) (s : Text) :
    withoutAt (0 :: offsets.map (· + 1)) (c :: s) = withoutAt offsets s := by
  have hzero : ¬(!(0 :: offsets.map (· + 1)).contains 0) = true := by
    simp
  have hlater : ∀ i, (0 :: offsets.map (· + 1)).contains (i + 1) = offsets.contains i := by
    intro i
    rw [List.contains_cons, contains_map_succ]
    rfl
  rw [withoutAt, List.zipIdx_cons, List.filter_cons, if_neg hzero,
    map_filter_zipIdx_one fun i => !(0 :: offsets.map (· + 1)).contains i]
  simp only [hlater]
  rfl

/-- Without the backslashes that were put in, the code is the same as before. -/
theorem withoutAt_insertedAt (s : Text) : withoutAt (insertedAt s) (escapeCode s) = s := by
  induction s with
  | nil => rfl
  | cons c s ih =>
    by_cases h : startsHazard (c :: s) = true
    · obtain ⟨rfl, hs⟩ := eq_lt_of_startsHazard h
      have hoffsets : 1 :: (insertedAt s).map (· + 2)
          = (0 :: (insertedAt s).map (· + 1)).map (· + 1) := by
        rw [List.map_cons, List.map_map]
        rfl
      rw [insertedAt_cons_of_hazard h, hoffsets, escapeCode_lt hs, withoutAt_shift, withoutAt_zero, ih]
    · rw [Bool.not_eq_true] at h
      rw [insertedAt_cons h, escapeCode_cons h, withoutAt_shift, ih]

/-- Each character that was put in is a backslash. -/
theorem getElem?_escapeCode : ∀ i ∈ insertedAt s, (escapeCode s)[i]? = some '\\' := by
  induction s with
  | nil => exact List.forall_mem_nil _
  | cons c s ih =>
    by_cases h : startsHazard (c :: s) = true
    · obtain ⟨rfl, hs⟩ := eq_lt_of_startsHazard h
      rw [insertedAt_cons_of_hazard h, escapeCode_lt hs, List.forall_mem_cons, List.forall_mem_map]
      exact ⟨rfl, ih⟩
    · rw [Bool.not_eq_true] at h
      rw [insertedAt_cons h, escapeCode_cons h, List.forall_mem_map]
      exact ih

theorem mem_hazardsAt {i : Nat} : i ∈ hazardsAt s ↔ ∃ w, Hazard w ∧ w <+: s.drop i := by
  rw [hazardsAt, List.mem_filter, List.mem_range, startsHazard_iff]
  refine ⟨And.right, fun h => ⟨?_, h⟩⟩
  by_contra hend
  obtain ⟨w, hw, hfront⟩ := h
  rw [List.drop_eq_nil_of_le (Nat.le_of_not_lt hend), List.prefix_nil] at hfront
  subst hfront
  cases hw

theorem length_escapeCode (s : Text) : (escapeCode s).length = s.length + (hazardsAt s).length := by
  induction s with
  | nil => rfl
  | cons c s ih =>
    rw [hazardsAt_cons, List.length_append, List.length_map, List.length_cons]
    by_cases h : startsHazard (c :: s) = true
    · obtain ⟨rfl, hs⟩ := eq_lt_of_startsHazard h
      rw [escapeCode_lt hs, if_pos h, List.length_cons, List.length_cons, List.length_singleton, ih]
      omega
    · rw [if_neg h, escapeCode_cons (by simpa using h), List.length_cons, ih, List.length_nil]
      omega

/-- What stands in a text starts at some offset. -/
theorem infix_iff_exists_drop : w <:+: s ↔ ∃ i, w <+: s.drop i := by
  constructor
  · rintro ⟨front, behind, rfl⟩
    refine ⟨front.length, ?_⟩
    rw [List.append_assoc, List.drop_left]
    exact List.prefix_append w behind
  · rintro ⟨i, hfront⟩
    exact hfront.isInfix.trans (List.drop_suffix i s).isInfix

theorem hazardsAt_eq_nil_iff : hazardsAt s = [] ↔ ∀ w, Hazard w → ¬w <:+: s := by
  rw [List.eq_nil_iff_forall_not_mem]
  constructor
  · intro h w hw hinfix
    obtain ⟨i, hfront⟩ := infix_iff_exists_drop.mp hinfix
    exact h i (mem_hazardsAt.mpr ⟨w, hw, hfront⟩)
  · intro h i hi
    obtain ⟨w, hw, hfront⟩ := mem_hazardsAt.mp hi
    exact h w hw (infix_iff_exists_drop.mpr ⟨i, hfront⟩)

/-- Code stays as it is exactly if there is no hazard in it. -/
theorem escapeCode_eq_self_iff : escapeCode s = s ↔ ∀ w, Hazard w → ¬w <:+: s := by
  rw [← hazardsAt_eq_nil_iff]
  constructor
  · intro h
    have hlength := length_escapeCode s
    rw [h] at hlength
    exact List.length_eq_zero_iff.mp (by omega)
  · intro h
    have hkept := withoutAt_insertedAt s
    rw [insertedAt, h] at hkept
    simpa [withoutAt] using hkept

/-- **Code in a script element.**  It is written as two replacements would write it.  What is
written holds neither the end of a script element, in letters of any case, nor the start of a
comment, and is written the same again.  Only code that holds one of them is changed: for each there
is one backslash more, behind its `<`, and without these backslashes, and no others, the code is
what it was. -/
theorem escapeCode_hazards (s : Text) :
    escapeCode s = replaceAll commentStart? (replaceAll scriptEnd? s) ∧
    (∀ w, Hazard w → ¬w <:+: escapeCode s) ∧
    (∀ w : Text, w.map Char.toLower = "</script".toList → ¬w <:+: escapeCode s) ∧
    escapeCode (escapeCode s) = escapeCode s ∧
    (escapeCode s = s ↔ ∀ w, Hazard w → ¬w <:+: s) ∧
    (∀ i, i ∈ hazardsAt s ↔ ∃ w, Hazard w ∧ w <+: s.drop i) ∧
    (∀ i ∈ insertedAt s, (escapeCode s)[i]? = some '\\') ∧
    withoutAt (insertedAt s) (escapeCode s) = s ∧
    (escapeCode s).length = s.length + (hazardsAt s).length := by
  have hsafe : ∀ w, Hazard w → ¬w <:+: escapeCode s :=
    escapeCode_eq_self_iff.mp (escapeCode_escapeCode s)
  refine ⟨(replaceAll_replaceAll s).symm, hsafe, ?_, escapeCode_escapeCode s, escapeCode_eq_self_iff,
    fun i => mem_hazardsAt, getElem?_escapeCode, withoutAt_insertedAt s, length_escapeCode s⟩
  intro w hw
  exact hsafe w (hazard_of_toLower hw)

end LivePreview.Page
