/-
Lines, and the text that they make.

A text is taken apart into its lines and put together again by more than one pass.  Lines that stand
in a text come out as they went in, unless one of them ends in a carriage return, which a reader of
lines takes for a part of the line end.  Whatever the lines are, they have no character that the
text does not have, and putting them together adds newlines only.
-/
import LivePreview.Proofs.Text.Words

namespace LivePreview.Text

variable {s t : Text} {row : Text} {rows : List Text} {p : Char → Bool}

/-! ### Putting together -/

theorem unlines_cons (row : Text) (rows : List Text) :
    unlines (row :: rows) = row ++ '\n' :: unlines rows := by
  rw [unlines, List.flatMap_cons, List.append_assoc]
  rfl

theorem unlines_append (rows rows' : List Text) :
    unlines (rows ++ rows') = unlines rows ++ unlines rows' := List.flatMap_append

/-- Between neighbours there are newlines, and the last line is open. -/
theorem join_concat (rows : List Text) (last : Text) :
    join ['\n'] (rows ++ [last]) = unlines rows ++ last := by
  induction rows with
  | nil => exact List.intercalate_singleton
  | cons row rows ih =>
    have hne : rows ++ [last] ≠ [] := by simp
    rw [join] at ih
    rw [join, List.cons_append, List.intercalate_cons_of_ne_nil hne, ih, unlines_cons]
    simp

/-- A newline behind the last line ends it like the others. -/
theorem join_append_newline (hne : rows ≠ []) : join ['\n'] rows ++ ['\n'] = unlines rows := by
  obtain ⟨front, last, rfl⟩ := (List.eq_nil_or_concat' rows).resolve_left hne
  rw [join_concat, unlines_append, unlines_cons, List.append_assoc]
  rfl

/-! ### Taking apart -/

theorem fields_unlines_append (h : ∀ row ∈ rows, '\n' ∉ row) (s : Text) :
    fields '\n' (unlines rows ++ s) = rows ++ fields '\n' s := by
  induction rows with
  | nil => rfl
  | cons row rows ih =>
    obtain ⟨hrow, hrows⟩ := List.forall_mem_cons.mp h
    have hnone : ∀ c ∈ row, (c == '\n') = false := fun c hc =>
      beq_eq_false_iff_ne.mpr fun heq => hrow (heq ▸ hc)
    rw [unlines_cons, List.append_assoc, List.cons_append, fields,
      splitBy_append_cons hnone (beq_self_eq_true '\n')]
    exact congrArg (row :: ·) (ih hrows)

theorem fields_of_noNewline (h : '\n' ∉ s) : fields '\n' s = [s] :=
  splitBy_of_none fun _ hc => beq_eq_false_iff_ne.mpr fun heq => h (heq ▸ hc)

/-- Lines with newlines between neighbours are taken apart at the newlines. -/
theorem fields_join (hne : rows ≠ []) (h : ∀ row ∈ rows, '\n' ∉ row) :
    fields '\n' (join ['\n'] rows) = rows := by
  obtain ⟨front, last, rfl⟩ := (List.eq_nil_or_concat' rows).resolve_left hne
  rw [join_concat, fields_unlines_append fun row hrow => h row (List.mem_append_left _ hrow),
    fields_of_noNewline (h last (List.mem_append_right _ List.mem_cons_self))]

theorem chomp_eq (h : row.getLast? ≠ some '\r') : chomp row = row := if_neg h

theorem map_chomp_eq (h : ∀ row ∈ rows, row.getLast? ≠ some '\r') : rows.map chomp = rows := by
  rw [List.map_congr_left fun row hrow => chomp_eq (h row hrow), List.map_id']

/-- The lines of a text that ends in a newline. -/
theorem lines_unlines (h : ∀ row ∈ rows, '\n' ∉ row)
    (hreturn : ∀ row ∈ rows, row.getLast? ≠ some '\r') : lines (unlines rows) = rows := by
  have hfields : fields '\n' (unlines rows) = rows ++ [[]] := by
    rw [← List.append_nil (unlines rows), fields_unlines_append h]
    rfl
  simp only [lines, hfields, List.dropLast_concat, List.getLast?_concat, map_chomp_eq hreturn]

/-- The lines of a text in which the last one is open. -/
theorem lines_join (h : ∀ row ∈ rows, '\n' ∉ row)
    (hreturn : ∀ row ∈ rows, row.getLast? ≠ some '\r') (hlast : rows.getLast? ≠ some []) :
    lines (join ['\n'] rows) = rows := by
  rcases List.eq_nil_or_concat' rows with rfl | ⟨front, last, rfl⟩
  · rfl
  have hfields : fields '\n' (join ['\n'] (front ++ [last])) = front ++ [last] :=
    fields_join (by simp) h
  have hchomp := map_chomp_eq fun row hrow => hreturn row (List.mem_append_left [last] hrow)
  rw [List.getLast?_concat] at hlast
  cases last with
  | nil => exact absurd rfl hlast
  | cons c last =>
    simp only [lines, hfields, List.dropLast_concat, List.getLast?_concat, hchomp]

/-! ### The lines behind the first one -/

/-- The lines behind the first one. -/
def laterLines (s : Text) : List Text := (fields '\n' s).tail

theorem fields_eq (s : Text) : fields '\n' s = firstLine s :: laterLines s := by
  unfold laterLines
  induction s with
  | nil => rfl
  | cons c s ih =>
    by_cases hc : c = '\n'
    · rw [hc]
      rfl
    · have hsplit : fields '\n' (c :: s) = (c :: firstLine s) :: (fields '\n' s).tail := by
        rw [fields, splitBy, if_neg (by simpa using hc), ← fields, ih]
        rfl
      have hline : firstLine (c :: s) = c :: firstLine s :=
        List.takeWhile_cons_of_pos (by simpa using hc)
      rw [hsplit, hline]
      rfl

theorem laterLines_newline (s : Text) : laterLines ('\n' :: s) = firstLine s :: laterLines s :=
  fields_eq s

theorem laterLines_cons {c : Char} (hc : c ≠ '\n') (s : Text) :
    laterLines (c :: s) = laterLines s := by
  have hsplit : fields '\n' (c :: s) = (c :: firstLine s) :: laterLines s := by
    rw [fields, splitBy, if_neg (by simpa using hc), ← fields, fields_eq]
  rw [laterLines, hsplit, List.tail_cons]

theorem laterLines_append (h : '\n' ∉ s) (t : Text) : laterLines (s ++ t) = laterLines t := by
  induction s with
  | nil => rfl
  | cons c s ih =>
    obtain ⟨hc, hs⟩ := not_or.mp (mt List.mem_cons.mpr h)
    rw [List.cons_append, laterLines_cons (Ne.symm hc), ih hs]

/-- A newline parts the lines in front of it from those behind it. -/
theorem fields_append_newline (s t : Text) :
    fields '\n' (s ++ '\n' :: t) = fields '\n' s ++ fields '\n' t :=
  splitBy_append (p := (· == '\n')) rfl s t

/-- The fields are the lines of a text to which a newline is added. -/
theorem unlines_fields (s : Text) : unlines (fields '\n' s) = s ++ ['\n'] := by
  induction s with
  | nil => rfl
  | cons c s ih =>
    by_cases hc : c = '\n'
    · rw [hc]
      exact congrArg ('\n' :: ·) ih
    · have hsplit : fields '\n' (c :: s) = (c :: firstLine s) :: laterLines s := by
        rw [fields_eq, laterLines_cons hc]
        exact congrArg (· :: laterLines s) (List.takeWhile_cons_of_pos (by simpa using hc))
      rw [fields_eq, unlines_cons] at ih
      rw [hsplit, unlines_cons, List.cons_append, List.cons_append, ih]

/-- Texts of whole lines with an empty line between neighbours. -/
theorem join_unlines (blocks : List (List Text)) (block : List Text) :
    join ['\n'] ((block :: blocks).map unlines)
      = unlines (block ++ blocks.flatMap ([] :: ·)) := by
  induction blocks generalizing block with
  | nil => simp [join]
  | cons next blocks ih =>
    have hne : (next :: blocks).map unlines ≠ [] := by simp
    rw [List.map_cons, join, List.intercalate_cons_of_ne_nil hne, ← join, ih]
    simp only [List.flatMap_cons, unlines_append, unlines_cons, List.append_assoc, List.cons_append,
      List.nil_append]

/-! ### What lines have -/

theorem not_mem_of_mem_fields (h : row ∈ fields '\n' s) : '\n' ∉ row := by
  induction s generalizing row with
  | nil =>
    rw [List.mem_singleton.mp h]
    exact List.not_mem_nil
  | cons c s ih =>
    rw [fields, splitBy] at h
    split at h
    · obtain rfl | h := List.mem_cons.mp h
      · exact List.not_mem_nil
      · exact ih h
    · rename_i hc
      have hne : '\n' ≠ c := fun heq => hc (by rw [heq]; exact beq_self_eq_true c)
      split at h
      · rename_i field fields hsplit
        obtain rfl | h := List.mem_cons.mp h
        · have hfield : '\n' ∉ field := ih (by rw [Text.fields, hsplit]; exact List.mem_cons_self)
          exact List.not_mem_cons_of_ne_of_not_mem hne hfield
        · exact ih (by rw [Text.fields, hsplit]; exact List.mem_cons_of_mem _ h)
      · rw [List.mem_singleton.mp h]
        exact List.not_mem_cons_of_ne_of_not_mem hne List.not_mem_nil

theorem chomp_sublist (row : Text) : (chomp row).Sublist row := by
  unfold chomp
  split
  · exact List.dropLast_sublist row
  · exact List.Sublist.refl row

/-- The lines are the fields, some of them without a carriage return, and without an empty last
one. -/
theorem mem_lines (h : row ∈ lines s) : ∃ field ∈ fields '\n' s, row.Sublist field := by
  have hclosed : ∀ row ∈ (fields '\n' s).dropLast.map chomp,
      ∃ field ∈ fields '\n' s, row.Sublist field := by
    intro row hrow
    obtain ⟨field, hfield, rfl⟩ := List.mem_map.mp hrow
    exact ⟨field, List.dropLast_subset _ hfield, chomp_sublist field⟩
  unfold lines at h
  dsimp only at h
  split at h
  · rename_i c tail hlast
    obtain h | h := List.mem_append.mp h
    · exact hclosed row h
    · rw [List.mem_singleton.mp h]
      exact ⟨_, List.mem_of_getLast? hlast, List.Sublist.refl _⟩
  · exact hclosed row h

theorem not_mem_of_mem_lines (h : row ∈ lines s) : '\n' ∉ row := by
  obtain ⟨field, hfield, hsub⟩ := mem_lines h
  exact fun hmem => not_mem_of_mem_fields hfield (hsub.subset hmem)

theorem flatten_fields_sublist (s : Text) : (fields '\n' s).flatten.Sublist s := by
  induction s with
  | nil => exact List.Sublist.refl []
  | cons c s ih =>
    rw [fields] at ih
    rw [fields, splitBy]
    split
    · exact ih.cons c
    · split
      · rename_i hsplit
        rw [hsplit] at ih
        exact ih.cons_cons c
      · exact (List.nil_sublist s).cons_cons c

theorem flatten_map_chomp_sublist (rows : List Text) :
    (rows.map chomp).flatten.Sublist rows.flatten := by
  induction rows with
  | nil => exact List.Sublist.refl []
  | cons row rows ih => exact (chomp_sublist row).append ih

/-- Without carriage returns the lines are the fields, but for an empty last one. -/
theorem mem_fields_of_mem_lines (hreturn : '\r' ∉ s) (h : row ∈ lines s) : row ∈ fields '\n' s := by
  have hchomp : (fields '\n' s).dropLast.map chomp = (fields '\n' s).dropLast := by
    refine map_chomp_eq fun row hrow hlast => hreturn ?_
    exact (flatten_fields_sublist s).subset
      (List.mem_flatten.mpr ⟨row, List.dropLast_subset _ hrow, List.mem_of_getLast? hlast⟩)
  unfold lines at h
  dsimp only at h
  rw [hchomp] at h
  split at h
  · rename_i c tail hlast
    obtain h | h := List.mem_append.mp h
    · exact List.dropLast_subset _ h
    · rw [List.mem_singleton.mp h]
      exact List.mem_of_getLast? hlast
  · exact List.dropLast_subset _ h

/-- **The lines of a text have no character that the text does not have.** -/
theorem flatten_lines_sublist (s : Text) : (lines s).flatten.Sublist s := by
  refine List.Sublist.trans ?_ (flatten_fields_sublist s)
  have hclosed := flatten_map_chomp_sublist (fields '\n' s).dropLast
  unfold lines
  dsimp only
  split
  · rename_i c tail hlast
    obtain ⟨front, hfields⟩ := List.getLast?_eq_some_iff.mp hlast
    rw [hfields, List.dropLast_concat] at hclosed ⊢
    rw [List.flatten_append, List.flatten_append]
    exact hclosed.append_right _
  · exact hclosed.trans (List.dropLast_sublist _).flatten

/-- Putting lines together adds newlines only. -/
theorem countP_unlines (hp : p '\n' = false) (rows : List Text) :
    (unlines rows).countP p = rows.flatten.countP p := by
  induction rows with
  | nil => rfl
  | cons row rows ih =>
    rw [unlines_cons, List.flatten_cons, List.countP_append, List.countP_append,
      List.countP_cons_of_neg (by simp [hp]), ih]

theorem countP_join (hp : p '\n' = false) (rows : List Text) :
    (join ['\n'] rows).countP p = rows.flatten.countP p := by
  rcases List.eq_nil_or_concat' rows with rfl | ⟨front, last, rfl⟩
  · rfl
  · rw [join_concat, List.countP_append, countP_unlines hp, List.flatten_append,
      List.countP_append, List.flatten_singleton]

/-! ### Without newlines at the ends -/

theorem mem_fields_dropWhile (h : row ∈ fields '\n' (s.dropWhile (· == '\n'))) :
    row ∈ fields '\n' s := by
  induction s with
  | nil => exact h
  | cons c s ih =>
    by_cases hc : c = '\n'
    · rw [hc, List.dropWhile_cons_of_pos (by decide)] at h
      rw [hc]
      exact List.mem_cons_of_mem [] (ih h)
    · rwa [List.dropWhile_cons_of_neg (by simpa using hc)] at h

theorem mem_fields_trimEndBy (h : row ∈ fields '\n' (trimEndBy (· == '\n') s)) :
    row ∈ fields '\n' s := by
  have htext : trimEndBy (· == '\n') s ++ (s.reverse.takeWhile (· == '\n')).reverse = s := by
    rw [trimEndBy, ← List.reverse_append, List.takeWhile_append_dropWhile, List.reverse_reverse]
  cases htail : (s.reverse.takeWhile (· == '\n')).reverse with
  | nil =>
    rw [htail, List.append_nil] at htext
    rwa [htext] at h
  | cons c tail =>
    have hmem : c ∈ s.reverse.takeWhile (· == '\n') := by
      rw [← List.mem_reverse, htail]
      exact List.mem_cons_self
    obtain rfl : c = '\n' := beq_iff_eq.mp (List.mem_takeWhile_imp (p := (· == '\n')) hmem)
    rw [← htext, htail, fields_append_newline]
    exact List.mem_append_left _ h

/-- Without the newlines at its ends a text has no line that it did not have. -/
theorem mem_fields_trimBy (h : row ∈ fields '\n' (trimBy (· == '\n') s)) : row ∈ fields '\n' s :=
  mem_fields_dropWhile (mem_fields_trimEndBy h)

/-! ### Carriage returns -/

/-- Text that stays as it is has no pair of carriage return and newline. -/
theorem no_pair_of_unifyNewlines_eq (h : unifyNewlines s = s) : ¬['\r', '\n'] <:+: s := by
  induction s using unifyNewlines.induct with
  | case1 => simp
  | case2 s ih =>
    rw [unifyNewlines] at h
    exact absurd (List.cons.inj h).1 (by decide)
  | case3 c s hpair ih =>
    rw [unifyNewlines] at h
    · have htail := ih (List.cons.inj h).2
      intro hinfix
      obtain hprefix | hinfix := List.infix_cons_iff.mp hinfix
      · obtain ⟨rest, hrest⟩ := hprefix
        obtain ⟨rfl, rfl⟩ := List.cons.inj hrest
        exact hpair rest rfl rfl
      · exact htail hinfix
    · exact hpair

/-- Text that does not stay as it is has fewer carriage returns behind. -/
theorem count_unifyNewlines (s : Text) :
    unifyNewlines s = s ∨ (unifyNewlines s).count '\r' < s.count '\r' := by
  induction s using unifyNewlines.induct with
  | case1 => exact Or.inl rfl
  | case2 s ih =>
    right
    have hle : (unifyNewlines s).count '\r' ≤ s.count '\r' := by
      obtain heq | hlt := ih
      · rw [heq]
      · exact Nat.le_of_lt hlt
    rw [unifyNewlines, List.count_cons_self, List.count_cons_of_ne (by decide),
      List.count_cons_of_ne (by decide)]
    omega
  | case3 c s hpair ih =>
    rw [unifyNewlines]
    · obtain heq | hlt := ih
      · exact Or.inl (by rw [heq])
      · right
        rw [List.count_cons, List.count_cons]
        omega
    · exact hpair

theorem unifyNewlines_of_noReturn (h : '\r' ∉ s) : unifyNewlines s = s := by
  refine (count_unifyNewlines s).resolve_right fun hless => ?_
  rw [List.count_eq_zero.mpr h] at hless
  exact Nat.not_lt_zero _ hless

theorem countP_unifyNewlines (hp : p '\r' = false) (s : Text) :
    (unifyNewlines s).countP p = s.countP p := by
  induction s using unifyNewlines.induct with
  | case1 => rfl
  | case2 s ih =>
    simp only [unifyNewlines, List.countP_cons, ih, hp, Bool.false_eq_true, if_false, Nat.add_zero]
  | case3 c s hpair ih =>
    rw [unifyNewlines]
    · rw [List.countP_cons, List.countP_cons, ih]
    · exact hpair

/-- Where newlines stand alone, no line ends in a carriage return. -/
theorem getLast?_ne_of_unifyNewlines (h : unifyNewlines (unlines rows) = unlines rows)
    (hrow : row ∈ rows) : row.getLast? ≠ some '\r' := by
  intro hlast
  obtain ⟨front, rfl⟩ := List.getLast?_eq_some_iff.mp hlast
  obtain ⟨before, behind, rfl⟩ := List.append_of_mem hrow
  refine no_pair_of_unifyNewlines_eq h ⟨unlines before ++ front, unlines behind, ?_⟩
  rw [unlines_append, unlines_cons]
  simp

end LivePreview.Text
