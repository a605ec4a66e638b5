/-
Where a script element ends.

A script element ends at the first `</script` in its text, in letters of either case.  `closings`
counts these places in a text.  Such a place starts with a `<` and goes on with a slash and letters,
so what stands in front of a text without `<` adds none, and two texts that meet in another
character have as many as both together.  The three ways of writing text into a page differ in what
they do to these places: entities and the backslashes of code leave none, and a JSON string leaves
all.
-/
import LivePreview.Page.Escape
import LivePreview.Proofs.Platform
import Mathlib.Algebra.GroupWithZero.Nat
import Mathlib.Data.List.Flatten

namespace LivePreview.Page

/-- True if the text starts with the characters of `w`, in either case. -/
def startsInAnyCase : Text → Text → Bool
  | [], _ => true
  | _ :: _, [] => false
  | l :: w, c :: s => c.toLower == l && startsInAnyCase w s

/-- What ends a script element, behind the `<`. -/
def endName : Text := "/script".toList

/-- What ends a script element. -/
def scriptEnd : Text := '<' :: endName

/-- Number of places in a text at which a script element ends. -/
def closings : Text → Nat
  | [] => 0
  | c :: s => (if startsInAnyCase scriptEnd (c :: s) then 1 else 0) + closings s

variable {s t u w : Text} {c : Char}

/-! ### Texts that meet -/

/-- A character that cannot stand inside of an end, behind its first character. -/
def meets (c : Char) : Bool := !endName.contains c.toLower

theorem startsInAnyCase_scriptEnd (c : Char) (s : Text) :
    startsInAnyCase scriptEnd (c :: s) = (c.toLower == '<' && startsInAnyCase endName s) := rfl

/-- A sign that is no letter is the lower case of itself alone. -/
theorem eq_of_toLower {l : Char} (hl : l.toNat < 65) (h : c.toLower = l) : c = l := by
  unfold Char.toLower at h
  split at h
  · rename_i hcapital
    have hcode := congrArg (fun d : Char => d.val.toNat) h
    have hlow : 65 ≤ c.val.toNat := hcapital.1
    have hhigh : c.val.toNat ≤ 90 := hcapital.2
    have hshift : ('a'.val - 'A'.val).toNat = 32 := rfl
    have hsign : l.val.toNat < 65 := hl
    simp only [UInt32.toNat_add, hshift] at hcode
    omega
  · exact h

theorem startsInAnyCase_append (h : ∀ d ∈ t.head?, d.toLower ∉ w) :
    startsInAnyCase w (s ++ t) = startsInAnyCase w s := by
  induction w generalizing s with
  | nil => simp [startsInAnyCase]
  | cons l w ih =>
    cases s with
    | nil =>
      cases t with
      | nil => rfl
      | cons d t =>
        have hd : d.toLower ≠ l := fun hl => h d rfl (hl ▸ List.mem_cons_self)
        simp [startsInAnyCase, hd]
    | cons c s =>
      rw [List.cons_append, startsInAnyCase, startsInAnyCase, ih]
      intro d hd hmem
      exact h d hd (List.mem_cons_of_mem l hmem)

/-- An end starts with a `<`. -/
theorem closings_cons_of_ne (h : c ≠ '<') (s : Text) : closings (c :: s) = closings s := by
  have hne : (c.toLower == '<') = false := by
    rw [beq_eq_false_iff_ne]
    exact fun hlower => h (eq_of_toLower (by decide) hlower)
  rw [closings, startsInAnyCase_scriptEnd, hne, Bool.false_and]
  exact Nat.zero_add _

/-- **Texts that meet in a character that stands in no end have as many ends as both together.** -/
theorem closings_append (h : t.head?.all meets = true) :
    closings (s ++ t) = closings s + closings t := by
  induction s with
  | nil => simp [closings]
  | cons c s ih =>
    have htail : startsInAnyCase endName (s ++ t) = startsInAnyCase endName s := by
      refine startsInAnyCase_append ?_
      intro d hd hmem
      have hmeets := (Option.all_eq_true _ _).mp h d hd
      rw [meets, Bool.not_eq_true', List.contains_eq_mem, decide_eq_false_iff_not] at hmeets
      exact hmeets hmem
    rw [List.cons_append, closings, closings, startsInAnyCase_scriptEnd, startsInAnyCase_scriptEnd,
      htail, ih, Nat.add_assoc]

/-- What has no `<` adds no end. -/
theorem closings_append_right (h : '<' ∉ s) : closings (s ++ t) = closings t := by
  induction s with
  | nil => rfl
  | cons c s ih =>
    rw [List.mem_cons, not_or] at h
    rw [List.cons_append, closings_cons_of_ne (Ne.symm h.1), ih h.2]

theorem closings_of_notMem (h : '<' ∉ s) : closings s = 0 := by
  have happend := closings_append_right (t := []) h
  rwa [List.append_nil] at happend

/-- True of a text between two others with which no end begins, and in which none ends. -/
def isJoint (s : Text) : Bool := s.all (· != '<') && s.head?.any meets

theorem closings_joint (h : isJoint s = true) : closings (t ++ (s ++ u)) = closings t + closings u := by
  rw [isJoint, Bool.and_eq_true, List.all_eq_true] at h
  have hfree : '<' ∉ s := fun hmem => absurd (h.1 _ hmem) (by decide)
  have hmeets : (s ++ u).head?.all meets = true := by
    cases s with
    | nil => cases h.2
    | cons c s => exact h.2
  rw [closings_append hmeets, closings_append_right hfree]

/-- A text behind which nothing can end. -/
theorem closings_append_joint (h : isJoint s = true) : closings (t ++ s) = closings t := by
  have hjoint := closings_joint (t := t) (u := []) h
  rwa [List.append_nil] at hjoint

theorem closings_unlines (rows : List Text) :
    closings (Text.unlines rows) = (rows.map closings).sum := by
  induction rows with
  | nil => rfl
  | cons row rows ih =>
    have hnewline : closings (row ++ (['\n'] ++ Text.unlines rows))
        = closings row + closings (Text.unlines rows) := closings_joint (by decide)
    rw [Text.unlines, List.flatMap_cons, ← Text.unlines, List.append_assoc, hnewline, ih,
      List.map_cons, List.sum_cons]

/-- Rows without `<` end no element. -/
theorem sum_closings_eq_zero {rows : List Text} (h : ∀ row ∈ rows, '<' ∉ row) :
    (rows.map closings).sum = 0 := by
  refine List.sum_eq_zero_iff_forall_eq_nat.mpr ?_
  intro n hn
  obtain ⟨row, hrow, rfl⟩ := List.mem_map.mp hn
  exact closings_of_notMem (h row hrow)

theorem closings_join {sep : Text} (h : isJoint sep = true) (parts : List Text) :
    closings (Text.join sep parts) = (parts.map closings).sum := by
  induction parts with
  | nil => rfl
  | cons part parts ih =>
    cases parts with
    | nil =>
      rw [Text.join, List.intercalate_singleton, List.map_singleton, List.sum_singleton]
    | cons next later =>
      have hcons : Text.join sep (part :: next :: later)
          = part ++ (sep ++ Text.join sep (next :: later)) := by
        rw [Text.join, List.intercalate_cons_cons, List.append_assoc]
        rfl
      rw [hcons, closings_joint h, ih]
      simp only [List.map_cons, List.sum_cons]

/-- Pieces have the ends of the texts that they are made of, if each of them has. -/
theorem sum_closings_map {α : Type} {f : α → Text} {g : α → List Text}
    (h : ∀ a, closings (f a) = ((g a).map closings).sum) (as : List α) :
    ((as.map f).map closings).sum = ((as.flatMap g).map closings).sum := by
  induction as with
  | nil => rfl
  | cons a as ih =>
    rw [List.map_cons, List.map_cons, List.sum_cons, List.flatMap_cons, List.map_append,
      List.sum_append, h, ih]

/-! ### Entities -/

theorem lt_notMem_entity (c : Char) : '<' ∉ entity c := by
  unfold entity
  split
  · decide
  · decide
  · decide
  · decide
  · decide
  · rename_i hlt _ _ _
    rw [List.mem_singleton]
    exact fun h => hlt h.symm

/-- Text that is written with entities ends no element. -/
theorem lt_notMem_escapeText (s : Text) : '<' ∉ escapeText s := by
  intro hmem
  obtain ⟨c, -, hc⟩ := List.mem_flatMap.mp hmem
  exact lt_notMem_entity c hc

/-! ### JSON strings -/

/-- What is written for a character: itself, or for one that stands in no end, others that do not
either. -/
def Spares (c : Char) (v : Text) : Prop :=
  v = [c] ∨ (c ≠ '<' ∧ meets c = true) ∧ ∃ d u, v = d :: u ∧ (d ≠ '<' ∧ meets d = true) ∧ '<' ∉ u

theorem ne_of_meets {l : Char} (h : meets c = true) (hl : l ∈ endName) : (c.toLower == l) = false := by
  rw [beq_eq_false_iff_ne]
  rintro rfl
  rw [meets, List.contains_iff_mem.mpr hl] at h
  cases h

theorem startsInAnyCase_flatMap {q : Char → Text} (hq : ∀ c, Spares c (q c))
    (hw : ∀ l ∈ w, l ∈ endName) : startsInAnyCase w (s.flatMap q) = startsInAnyCase w s := by
  induction w generalizing s with
  | nil => simp [startsInAnyCase]
  | cons l w ih =>
    cases s with
    | nil => rfl
    | cons c s =>
      have hlater := ih (s := s) fun m hm => hw m (List.mem_cons_of_mem l hm)
      rw [List.flatMap_cons]
      obtain hself | ⟨⟨-, hc⟩, d, u, hother, ⟨-, hd⟩, -⟩ := hq c
      · rw [hself, List.singleton_append, startsInAnyCase, startsInAnyCase, hlater]
      · have hl := hw l List.mem_cons_self
        rw [hother, List.cons_append, startsInAnyCase, startsInAnyCase, ne_of_meets hc hl,
          ne_of_meets hd hl, Bool.false_and, Bool.false_and]

theorem closings_flatMap {q : Char → Text} (hq : ∀ c, Spares c (q c)) (s : Text) :
    closings (s.flatMap q) = closings s := by
  induction s with
  | nil => rfl
  | cons c s ih =>
    rw [List.flatMap_cons]
    obtain hself | ⟨⟨hc, -⟩, d, u, hother, ⟨hd, -⟩, hu⟩ := hq c
    · rw [hself, List.singleton_append, closings, closings, startsInAnyCase_scriptEnd,
        startsInAnyCase_scriptEnd, startsInAnyCase_flatMap hq (fun _ hl => hl), ih]
    · rw [hother, List.cons_append, closings_cons_of_ne hd, closings_append_right hu,
        closings_cons_of_ne hc, ih]

theorem ne_of_isHex {d : Char} {i : Nat} (h : Json.IsHex d i) : '<' ≠ d := by
  rintro rfl
  exact absurd (Json.isIdentChar_of_isHex h) (by decide)

theorem spares_of_needsEscape {u : Text} (h : Json.NeedsEscape c) (hu : '<' ∉ u) :
    Spares c ('\\' :: u) := by
  have hcontrol : ∀ n < 32, Char.ofNat n ≠ '<' ∧ meets (Char.ofNat n) = true := by decide
  have hc : c ≠ '<' ∧ meets c = true := by
    obtain h | rfl | rfl := h
    · have hc := hcontrol c.toNat h
      rwa [Char.ofNat_toNat] at hc
    · decide
    · decide
  exact Or.inr ⟨hc, '\\', u, rfl, by decide, hu⟩

theorem spares_of_writesChar {v : Text} (h : Json.WritesChar c v) : Spares c v := by
  cases h with
  | plain => exact Or.inl rfl
  | short hc he =>
    have hall : ∀ p ∈ Json.shortEscapes, p.1 ≠ '<' := by decide
    exact spares_of_needsEscape hc (by simpa using (hall _ he).symm)
  | code hc h₁ h₂ h₃ h₄ _ =>
    refine spares_of_needsEscape hc ?_
    simp [ne_of_isHex h₁, ne_of_isHex h₂, ne_of_isHex h₃, ne_of_isHex h₄]

/-- **A JSON string ends a script element wherever its text does.** -/
theorem closings_jsonString [Platform] [Platform.WritesStrings] (s : Text) :
    closings (Platform.jsonString s) = closings s := by
  obtain ⟨escape, hescape, hstring⟩ := Platform.WritesStrings.exists_escape
  have hbody := closings_flatMap (fun c => spares_of_writesChar (hescape c)) s
  have hquote : closings (s.flatMap escape ++ ['"']) = closings (s.flatMap escape) :=
    closings_append_joint (by decide)
  rw [hstring, closings_cons_of_ne (by decide), hquote, hbody]

/-! ### Code -/

theorem startsInAnyCase_escapeCode (hw : '<' ∉ w) (s : Text) :
    startsInAnyCase w (escapeCode s) = startsInAnyCase w s := by
  induction w generalizing s with
  | nil => simp [startsInAnyCase]
  | cons l w ih =>
    rw [List.mem_cons, not_or] at hw
    cases s with
    | nil => rfl
    | cons c s =>
      unfold escapeCode
      split
      · rename_i hhazard
        rw [Bool.and_eq_true, decide_eq_true_eq] at hhazard
        have hl : (Char.toLower '<' == l) = false := beq_eq_false_iff_ne.mpr hw.1
        rw [hhazard.1, startsInAnyCase, startsInAnyCase, hl, Bool.false_and, Bool.false_and]
      · rw [startsInAnyCase, startsInAnyCase, ih hw.2]

/-- Letters in any case are what the writer of code looks for. -/
theorem startsWithLetters_of_startsInAnyCase (h : startsInAnyCase w s = true) :
    startsWithLetters w s = true := by
  induction w generalizing s with
  | nil => cases s <;> rfl
  | cons l w ih =>
    cases s with
    | nil => cases h
    | cons c s =>
      rw [startsInAnyCase, Bool.and_eq_true] at h
      rw [startsWithLetters, isLetter, h.1, Bool.true_or, Bool.true_and]
      exact ih h.2

/-- **Code that is written into a script element does not end it.** -/
theorem closings_escapeCode (s : Text) : closings (escapeCode s) = 0 := by
  induction s with
  | nil => rfl
  | cons c s ih =>
    unfold escapeCode
    by_cases hhazard : (c = '<' && isHazard s) = true
    · have hkept : startsInAnyCase scriptEnd ('<' :: '\\' :: escapeCode s) = false := rfl
      rw [if_pos hhazard, closings, hkept, closings_cons_of_ne (by decide), ih]
      rfl
    rw [if_neg hhazard]
    by_cases hc : c = '<'
    · -- no end stands behind this character, since the writer looks for more than these
      have hnone : startsInAnyCase endName s = false := by
        rw [Bool.eq_false_iff]
        intro hstarts
        refine hhazard ?_
        rw [Bool.and_eq_true, decide_eq_true_eq]
        refine ⟨hc, ?_⟩
        cases s with
        | nil => cases hstarts
        | cons d s =>
          have hstarts : (d.toLower == '/' && startsInAnyCase "script".toList s) = true := hstarts
          rw [Bool.and_eq_true, beq_iff_eq] at hstarts
          rw [eq_of_toLower (by decide) hstarts.1]
          exact startsWithLetters_of_startsInAnyCase hstarts.2
      rw [closings, startsInAnyCase_scriptEnd, startsInAnyCase_escapeCode (by decide), hnone,
        Bool.and_false, ih]
      rfl
    · rw [closings_cons_of_ne hc, ih]

end LivePreview.Page
