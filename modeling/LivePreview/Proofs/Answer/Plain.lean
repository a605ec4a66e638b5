/-
Plain text in, plain text out.

What is taken from an answer is a text without blank lines at its ends.  Read as an answer once
more, such a text is taken whole if no line of it reads as a fence or as a marker, and if it does
not hold carriage returns in front of newlines: `IsPlain`.  Otherwise some of it is lost.  A fence
and a marker can be seen, so the text that is left has less to see than the text that was read, as
long as no file name is written into it.
-/
import LivePreview.Answer.Normalize
import LivePreview.Proofs.Text.Lines
import LivePreview.Proofs.Text.Visible

namespace LivePreview.Answer

open Text (isBlankText lines unlines join unifyNewlines visible)

variable {s raw text code line : Text} {rows : List Text} {p : Char → Bool}

/-! ### Blank lines at the ends -/

/-- Lines between two that are not blank. -/
structure Trimmed (rows : List Text) : Prop where
  oneLine : ∀ row ∈ rows, '\n' ∉ row
  first : ∀ row ∈ rows.head?, isBlankText row = false
  last : ∀ row ∈ rows.getLast?, isBlankText row = false

/-- The lines without the blank ones at both ends. -/
def trimRows (rows : List Text) : List Text :=
  ((rows.dropWhile isBlankText).reverse.dropWhile isBlankText).reverse

theorem trimBlankLines_eq (s : Text) : trimBlankLines s = unlines (trimRows (lines s)) := by
  have hjoin : ∀ rows : List Text,
      (if rows.isEmpty then [] else join ['\n'] rows.reverse ++ ['\n']) = unlines rows.reverse := by
    intro rows
    cases rows with
    | nil => rfl
    | cons row rows =>
      have hne : (row :: rows).reverse ≠ [] := by simp
      exact Text.join_append_newline hne
  exact hjoin _

theorem trimRows_sublist (rows : List Text) : (trimRows rows).Sublist rows := by
  have hback := (List.dropWhile_sublist isBlankText (l := (rows.dropWhile isBlankText).reverse)).reverse
  rw [List.reverse_reverse] at hback
  exact hback.trans (List.dropWhile_sublist isBlankText)

/-- Behind the blank lines comes one that is not blank. -/
theorem isBlankText_head?_dropWhile (rows : List Text) :
    ∀ row ∈ (rows.dropWhile isBlankText).head?, isBlankText row = false := by
  intro row hrow
  have hnot := List.head?_dropWhile_not isBlankText rows
  rw [Option.mem_def] at hrow
  rw [hrow] at hnot
  exact hnot

theorem dropWhile_eq (h : ∀ row ∈ rows.head?, isBlankText row = false) :
    rows.dropWhile isBlankText = rows := by
  cases rows with
  | nil => rfl
  | cons row rows => exact List.dropWhile_cons_of_neg (by rw [h row rfl]; exact Bool.false_ne_true)

theorem trimmed_trimRows (h : ∀ row ∈ rows, '\n' ∉ row) : Trimmed (trimRows rows) := by
  refine ⟨fun row hrow => h row ((trimRows_sublist rows).subset hrow), fun row hrow => ?_,
    fun row hrow => ?_⟩
  · have hprefix : trimRows rows <+: rows.dropWhile isBlankText := by
      rw [trimRows, ← List.reverse_suffix, List.reverse_reverse]
      exact List.dropWhile_suffix isBlankText
    obtain ⟨behind, hbehind⟩ := hprefix
    have hhead : (rows.dropWhile isBlankText).head? = some row := by
      rw [← hbehind, List.head?_append, Option.mem_def.mp hrow, Option.some_or]
    exact isBlankText_head?_dropWhile rows row hhead
  · rw [trimRows, List.getLast?_reverse] at hrow
    exact isBlankText_head?_dropWhile _ row hrow

theorem Trimmed.trimRows_eq (h : Trimmed rows) : trimRows rows = rows := by
  have hback : ∀ row ∈ rows.reverse.head?, isBlankText row = false := by
    rw [List.head?_reverse]
    exact h.last
  rw [trimRows, dropWhile_eq h.first, dropWhile_eq hback, List.reverse_reverse]

/-- What is left of a text are lines between two that are not blank. -/
theorem exists_trimmed (s : Text) : ∃ rows, Trimmed rows ∧ trimBlankLines s = unlines rows :=
  ⟨_, trimmed_trimRows fun _ => Text.not_mem_of_mem_lines, trimBlankLines_eq s⟩

theorem countP_trimBlankLines_le (hp : p '\n' = false) (s : Text) :
    (trimBlankLines s).countP p ≤ s.countP p := by
  rw [trimBlankLines_eq, Text.countP_unlines hp]
  exact ((trimRows_sublist (lines s)).flatten.trans (Text.flatten_lines_sublist s)).countP_le

/-! ### Blocks -/

theorem visible_pos_of_fence {f : Fence} (h : fence? line = some f) : 0 < visible line := by
  unfold fence? at h
  split at h
  · cases h
  · rename_i c rest hrest
    dsimp only at h
    split at h
    · rename_i hc
      simp only [Bool.and_eq_true, Bool.or_eq_true, beq_iff_eq] at hc
      have hspace : isSpace c = false := by
        obtain rfl | rfl := hc.1.1 <;> rfl
      have hpos : 0 < visible (Text.skipInline line) := by
        rw [hrest]
        exact Text.visible_pos List.mem_cons_self hspace
      exact hpos.trans_le (Text.visible_le_of_suffix (Text.suffix_skipInline line))
    · cases h

namespace Reading

variable {r r' : Reading}

/-- What can be seen of the blocks that were read, and one more if there was a fence. -/
def weight (r : Reading) : Nat :=
  (r.blocks.map fun b => visible b.body.flatten).sum +
    (r.inside.elim 0 fun inside => visible inside.2.flatten) +
    (if r.hasContent || r.inside.isSome then 1 else 0)

theorem weight_close (r : Reading) : r.close.weight ≤ r.weight := by
  unfold close
  split
  · exact Nat.le_refl _
  · rename_i f rows hinside
    have hbody : visible rows.reverse.flatten = visible rows.flatten :=
      (List.reverse_perm rows).flatten.countP_eq _
    have hflag : ∀ b : Bool, (if b then 1 else 0) ≤ 1 := by decide
    dsimp only
    split <;>
      simp only [weight, hinside, Option.elim_some, Option.elim_none, List.map_cons, List.sum_cons,
        Option.isSome_some, Bool.or_true, if_true, hbody] <;>
      have hone := hflag (r.hasContent || rows.reverse.any fun line => !isBlankText line) <;>
      simp only [Option.isSome_none, Bool.or_false] <;> omega

/-- A line adds to a reading no more than can be seen of it. -/
theorem weight_readLine (h : r.readLine line = some r') : r'.weight ≤ r.weight + visible line := by
  unfold readLine at h
  split at h
  · rename_i f rows hinside
    split at h
    · cases h
      exact (weight_close r).trans (Nat.le_add_right _ _)
    · cases h
      simp only [weight, hinside, Option.elim_some, List.flatten_cons, Text.visible_append,
        Option.isSome_some, Bool.or_true, if_true]
      omega
  · rename_i hinside
    split at h
    · rename_i f hfence
      cases h
      have hpos := visible_pos_of_fence hfence
      simp only [weight, hinside, Option.elim_some, Option.elim_none, List.flatten_nil,
        Text.visible_nil, Option.isSome_some, Bool.or_true, if_true]
      omega
    · split at h
      · cases h
      · cases h
        exact Nat.le_add_right _ _

theorem weight_foldlM (h : rows.foldlM readLine r = some r') :
    r'.weight ≤ r.weight + visible rows.flatten := by
  induction rows generalizing r with
  | nil =>
    cases h
    exact Nat.le_add_right _ _
  | cons row rows ih =>
    rw [List.foldlM_cons] at h
    obtain ⟨r₁, hrow, hrows⟩ := Option.bind_eq_some_iff.mp h
    have hfirst := weight_readLine hrow
    have hlater := ih hrows
    rw [List.flatten_cons, Text.visible_append]
    omega

end Reading

/-- There is less to see in the blocks than in the answer, which has a fence. -/
theorem visible_blocks {blocks : List Block} (h : blocks? text = some blocks) :
    (blocks.map fun b => visible b.body.flatten).sum < visible text := by
  obtain ⟨r, hread, hkept⟩ := Option.bind_eq_some_iff.mp h
  dsimp only at hkept
  split at hkept
  · rename_i hcontent
    cases hkept
    have hfold := Reading.weight_foldlM hread
    have hclose := Reading.weight_close r
    have hfields := Text.visible_le_of_sublist (Text.flatten_fields_sublist text)
    have hstart : Reading.weight {} = 0 := rfl
    have hblocks : (r.close.blocks.map fun b => visible b.body.flatten).sum < r.close.weight := by
      simp only [Reading.weight, hcontent, Bool.true_or, if_true]
      omega
    rw [List.map_reverse, List.sum_reverse]
    omega
  · cases hkept

/-! ### Fences and markers -/

theorem visible_pos_of_marker {path : Text} (h : markerPath? line = some path) :
    0 < visible line := by
  have hslash : ∃ rest, Text.skipInline line = '/' :: rest := by
    unfold markerPath? at h
    split at h
    · exact ⟨_, ‹_›⟩
    · exact ⟨_, ‹_›⟩
    · cases h
  obtain ⟨rest, hrest⟩ := hslash
  have hpos : 0 < visible (Text.skipInline line) := by
    rw [hrest]
    exact Text.visible_pos List.mem_cons_self rfl
  exact hpos.trans_le (Text.visible_le_of_suffix (Text.suffix_skipInline line))

/-- The lines without the markers among them. -/
theorem filterMap_plainLine (rows : List Text) :
    rows.filterMap (plainLine? false) = rows.filter fun row => (markerPath? row).isNone := by
  induction rows with
  | nil => rfl
  | cons row rows ih =>
    cases hmarker : markerPath? row with
    | none =>
      rw [List.filterMap_cons_some (by rw [plainLine?, hmarker]),
        List.filter_cons_of_pos (by simp [hmarker]),
        ih]
    | some path =>
      have hplain : plainLine? false row = none := by
        rw [plainLine?, hmarker]
        rfl
      rw [List.filterMap_cons_none hplain, List.filter_cons_of_neg (by simp [hmarker]), ih]

theorem visible_flatten_filter_le (keep : Text → Bool) (rows : List Text) :
    visible (rows.filter keep).flatten ≤ visible rows.flatten :=
  Text.visible_le_of_sublist List.filter_sublist.flatten

/-- A marker that is left out can be seen. -/
theorem unmarked_of_visible
    (h : visible rows.flatten ≤ visible (rows.filterMap (plainLine? false)).flatten) :
    ∀ row ∈ rows, markerPath? row = none := by
  rw [filterMap_plainLine] at h
  intro row hrow
  by_contra hmarker
  obtain ⟨path, hpath⟩ := Option.ne_none_iff_exists'.mp hmarker
  obtain ⟨front, behind, rfl⟩ := List.append_of_mem hrow
  have hfront := visible_flatten_filter_le (fun row => (markerPath? row).isNone) front
  have hbehind := visible_flatten_filter_le (fun row => (markerPath? row).isNone) behind
  have hpos := visible_pos_of_marker hpath
  rw [List.filter_append, List.filter_cons_of_neg (by simp [hpath]), List.flatten_append,
    List.flatten_append, List.flatten_cons, Text.visible_append, Text.visible_append,
    Text.visible_append] at h
  omega

/-! ### Fences at the ends -/

/-- Lines of which the first is left out if it is a fence. -/
def dropFence (rows : List Text) : List Text :=
  if (rows.head?.bind fence?).isSome then rows.tail else rows

/-- Lines of which the last is left out if it is a fence. -/
def dropLastFence (rows : List Text) : List Text :=
  if (rows.getLast?.bind fence?).isSome then rows.dropLast else rows

theorem trimFences_eq (text : Text) :
    trimFences text = join ['\n'] (dropLastFence (dropFence (lines (trimBlankLines text)))) := rfl

theorem dropFence_eq (h : ∀ row ∈ rows.head?, fence? row = none) : dropFence rows = rows := by
  have hnone : rows.head?.bind fence? = none := Option.bind_eq_none_iff.mpr h
  rw [dropFence, hnone]
  rfl

theorem dropLastFence_eq (h : ∀ row ∈ rows.getLast?, fence? row = none) :
    dropLastFence rows = rows := by
  have hnone : rows.getLast?.bind fence? = none := Option.bind_eq_none_iff.mpr h
  rw [dropLastFence, hnone]
  rfl

/-- A fence that is left out can be seen. -/
theorem dropFence_cases (rows : List Text) :
    (∀ row ∈ rows.head?, fence? row = none) ∧ dropFence rows = rows ∨
      visible (dropFence rows).flatten < visible rows.flatten := by
  by_cases hnone : ∀ row ∈ rows.head?, fence? row = none
  · exact Or.inl ⟨hnone, dropFence_eq hnone⟩
  · right
    cases rows with
    | nil => exact absurd nofun hnone
    | cons row rows =>
      cases hfence : fence? row with
      | none =>
        exact absurd (fun r hr => by rw [← Option.some.inj hr, hfence]) hnone
      | some f =>
        have htail : dropFence (row :: rows) = rows := by
          rw [dropFence, List.head?_cons, Option.bind_some, hfence]
          rfl
        have hpos := visible_pos_of_fence hfence
        rw [htail, List.flatten_cons, Text.visible_append]
        omega

theorem dropLastFence_cases (rows : List Text) :
    (∀ row ∈ rows.getLast?, fence? row = none) ∧ dropLastFence rows = rows ∨
      visible (dropLastFence rows).flatten < visible rows.flatten := by
  by_cases hnone : ∀ row ∈ rows.getLast?, fence? row = none
  · exact Or.inl ⟨hnone, dropLastFence_eq hnone⟩
  · right
    rcases List.eq_nil_or_concat' rows with rfl | ⟨front, row, rfl⟩
    · exact absurd nofun hnone
    rw [List.getLast?_concat] at hnone
    cases hfence : fence? row with
    | none => exact absurd (fun r hr => by rw [← Option.some.inj hr, hfence]) hnone
    | some f =>
      have hinit : dropLastFence (front ++ [row]) = front := by
        rw [dropLastFence, List.getLast?_concat, Option.bind_some, hfence, List.dropLast_concat]
        rfl
      have hpos := visible_pos_of_fence hfence
      rw [hinit, List.flatten_append, Text.visible_append, List.flatten_singleton]
      omega

/-! ### Answers that are plain -/

/-- The text that an answer comes to before its markers are looked at. -/
def unfenced (text : Text) : Text :=
  match blocks? text with
  | some blocks => unlines (blocks.flatMap Block.lines)
  | none => trimFences text

theorem normalize_code (raw : Text) : (normalize raw).code = trimBlankLines (join ['\n']
    ((lines (unfenced (unifyNewlines raw))).filterMap (plainLine? (normalize raw).isMultiFile))) := by
  unfold normalize unfenced
  dsimp only
  cases blocks? (unifyNewlines raw) <;> rfl

theorem normalize_isMultiFile (raw : Text) : (normalize raw).isMultiFile
    = namesTwoFiles (markersFrom 1 (lines (unfenced (unifyNewlines raw)))) := by
  unfold normalize unfenced
  dsimp only
  cases blocks? (unifyNewlines raw) <;> rfl

/-- Code that is read as one file without fences and markers. -/
structure IsPlain (code : Text) : Prop where
  newlines : unifyNewlines code = code
  unfenced : blocks? code = none
  first : ∀ row ∈ (lines code).head?, fence? row = none
  last : ∀ row ∈ (lines code).getLast?, fence? row = none
  unmarked : ∀ row ∈ lines code, markerPath? row = none

theorem markersFrom_eq_nil {n : Nat} (h : ∀ row ∈ rows, markerPath? row = none) :
    markersFrom n rows = [] := by
  induction rows generalizing n with
  | nil => rfl
  | cons row rows ih =>
    obtain ⟨hrow, hrows⟩ := List.forall_mem_cons.mp h
    rw [markersFrom, hrow]
    exact ih hrows

/-- Lines that hold no carriage return at their ends are the lines of what they make. -/
theorem Trimmed.lines_join (h : Trimmed rows)
    (hreturn : ∀ row ∈ rows, row.getLast? ≠ some '\r') : lines (join ['\n'] rows) = rows :=
  Text.lines_join h.oneLine hreturn fun hlast => by simpa [isBlankText] using h.last [] hlast

/-- The lines of trimmed text in which newlines stand alone. -/
theorem exists_lines (h : unifyNewlines (trimBlankLines s) = trimBlankLines s) :
    ∃ rows, Trimmed rows ∧ trimBlankLines s = unlines rows ∧ lines (unlines rows) = rows ∧
      lines (join ['\n'] rows) = rows := by
  obtain ⟨rows, htrimmed, hcode⟩ := exists_trimmed s
  rw [hcode] at h
  have hreturn : ∀ row ∈ rows, row.getLast? ≠ some '\r' := fun row =>
    Text.getLast?_ne_of_unifyNewlines h
  exact ⟨rows, htrimmed, hcode, Text.lines_unlines htrimmed.oneLine hreturn,
    htrimmed.lines_join hreturn⟩

/-- Trimmed text is not trimmed any more. -/
theorem trimBlankLines_idem (h : unifyNewlines (trimBlankLines s) = trimBlankLines s) :
    trimBlankLines (trimBlankLines s) = trimBlankLines s := by
  obtain ⟨rows, htrimmed, hcode, hlines, -⟩ := exists_lines h
  rw [hcode, trimBlankLines_eq, hlines, htrimmed.trimRows_eq]

/-- **Plain text in, plain text out.** -/
theorem normalize_of_isPlain (h : IsPlain (trimBlankLines s)) :
    (normalize (trimBlankLines s)).code = trimBlankLines s ∧
      (normalize (trimBlankLines s)).isMultiFile = false := by
  have htrim := trimBlankLines_idem h.newlines
  obtain ⟨rows, htrimmed, hcode, hlines, hjoin⟩ := exists_lines h.newlines
  rw [hcode] at h htrim ⊢
  obtain ⟨hnewlines, hblocks, hfirst, hlast, hmarkers⟩ := h
  rw [hlines] at hfirst hlast hmarkers
  have hunfenced : unfenced (unlines rows) = join ['\n'] rows := by
    rw [unfenced, hblocks]
    dsimp only
    rw [trimFences_eq, htrim, hlines, dropFence_eq hfirst, dropLastFence_eq hlast]
  have hmulti : (normalize (unlines rows)).isMultiFile = false := by
    rw [normalize_isMultiFile, hnewlines, hunfenced, hjoin, markersFrom_eq_nil hmarkers]
    rfl
  have hkept : rows.filterMap (plainLine? false) = rows := by
    rw [filterMap_plainLine, List.filter_eq_self]
    intro row hrow
    rw [hmarkers row hrow]
    rfl
  refine ⟨?_, hmulti⟩
  rw [normalize_code, hnewlines, hunfenced, hjoin, hmulti, hkept, trimBlankLines_eq, hjoin,
    htrimmed.trimRows_eq]

/-! ### Answers that are not less behind -/

/-- No path is written into the text: no block that is kept has one, and the markers name one
file. -/
structure NamesNoFile (raw : Text) : Prop where
  blocks : ∀ kept, blocks? (unifyNewlines raw) = some kept → ∀ b ∈ kept, b.path = none
  single : (normalize raw).isMultiFile = false

theorem visible_unlines_blocks {blocks : List Block} (h : ∀ b ∈ blocks, b.path = none) :
    visible (unlines (blocks.flatMap Block.lines))
      = (blocks.map fun b => visible b.body.flatten).sum := by
  induction blocks with
  | nil => rfl
  | cons b blocks ih =>
    obtain ⟨hb, hblocks⟩ := List.forall_mem_cons.mp h
    have hlines : b.lines = b.body := by rw [Block.lines, hb]
    have hbody : visible (unlines b.body) = visible b.body.flatten := Text.countP_unlines rfl b.body
    rw [List.flatMap_cons, Text.unlines_append, Text.visible_append, ih hblocks, hlines, hbody]
    rfl

/-- Of an answer that is not fenced there is no less to see only if no end of it is a fence. -/
theorem unfenced_cases (h : ∀ kept, blocks? text = some kept → ∀ b ∈ kept, b.path = none) :
    (blocks? text = none ∧ (∀ row ∈ (lines (trimBlankLines text)).head?, fence? row = none) ∧
      (∀ row ∈ (lines (trimBlankLines text)).getLast?, fence? row = none) ∧
      unfenced text = join ['\n'] (lines (trimBlankLines text))) ∨
    visible (unfenced text) < visible text := by
  cases hblocks : blocks? text with
  | some kept =>
    right
    have hkept := visible_unlines_blocks (h kept hblocks)
    rw [unfenced, hblocks]
    dsimp only
    rw [hkept]
    exact visible_blocks hblocks
  | none =>
    have hunfenced : unfenced text = trimFences text := by rw [unfenced, hblocks]
    have hjoin : ∀ rows : List Text, visible (join ['\n'] rows) = visible rows.flatten :=
      Text.countP_join rfl
    have hlines : visible (lines (trimBlankLines text)).flatten ≤ visible text :=
      (Text.visible_le_of_sublist (Text.flatten_lines_sublist _)).trans
        (countP_trimBlankLines_le rfl text)
    rw [hunfenced, trimFences_eq]
    obtain ⟨hfirst, hdrop⟩ | hless := dropFence_cases (lines (trimBlankLines text))
    · rw [hdrop]
      obtain ⟨hlast, hdrop⟩ | hless := dropLastFence_cases (lines (trimBlankLines text))
      · exact Or.inl ⟨rfl, hfirst, hlast, by rw [hdrop]⟩
      · right
        rw [hjoin]
        omega
    · right
      have hlater : visible (dropLastFence (dropFence (lines (trimBlankLines text)))).flatten
          ≤ visible (dropFence (lines (trimBlankLines text))).flatten := by
        obtain ⟨-, hdrop⟩ | hless := dropLastFence_cases (dropFence (lines (trimBlankLines text)))
        · rw [hdrop]
        · exact Nat.le_of_lt hless
      rw [hjoin]
      omega

theorem visible_unifyNewlines (s : Text) : visible (unifyNewlines s) = visible s :=
  Text.countP_unifyNewlines rfl s

theorem countP_join_lines_le (hp : p '\n' = false) (s : Text) :
    (join ['\n'] (lines (trimBlankLines s))).countP p ≤ s.countP p := by
  rw [Text.countP_join hp]
  exact (Text.flatten_lines_sublist _).countP_le.trans (countP_trimBlankLines_le hp s)

/-- The lines of an answer that are no fences and no markers. -/
def plainRows (raw : Text) : List Text :=
  (lines (unfenced (unifyNewlines raw))).filterMap (plainLine? false)

theorem flatten_plainRows_sublist (raw : Text) :
    (plainRows raw).flatten.Sublist (unfenced (unifyNewlines raw)) := by
  rw [plainRows, filterMap_plainLine]
  exact List.filter_sublist.flatten.trans (Text.flatten_lines_sublist _)

theorem countP_normalize_le (hp : p '\n' = false) (h : (normalize raw).isMultiFile = false) :
    (normalize raw).code.countP p ≤ (plainRows raw).flatten.countP p := by
  rw [normalize_code, h, ← Text.countP_join hp]
  exact countP_trimBlankLines_le hp _

theorem visible_unfenced_le (h : NamesNoFile raw) :
    visible (unfenced (unifyNewlines raw)) ≤ visible raw := by
  rw [← visible_unifyNewlines raw]
  obtain ⟨-, -, -, hjoin⟩ | hless := unfenced_cases h.blocks
  · rw [hjoin]
    exact countP_join_lines_le rfl _
  · exact Nat.le_of_lt hless

/-- No more can be seen of the code than of an answer that names no file. -/
theorem visible_normalize_le (h : NamesNoFile raw) :
    visible (normalize raw).code ≤ visible raw :=
  (countP_normalize_le rfl h.single).trans
    ((flatten_plainRows_sublist raw).countP_le.trans (visible_unfenced_le h))

/-- Where none of an answer is lost that can be seen, it has no fences and no markers. -/
theorem unmarked_of_normalize (h : NamesNoFile raw)
    (hvisible : visible raw ≤ visible (normalize raw).code) :
    ∀ row ∈ lines (unfenced (unifyNewlines raw)), markerPath? row = none := by
  refine unmarked_of_visible ?_
  calc visible (lines (unfenced (unifyNewlines raw))).flatten
      ≤ visible (unfenced (unifyNewlines raw)) :=
        Text.visible_le_of_sublist (Text.flatten_lines_sublist _)
    _ ≤ visible raw := visible_unfenced_le h
    _ ≤ visible (normalize raw).code := hvisible
    _ ≤ visible (plainRows raw).flatten := countP_normalize_le rfl h.single

/-- **Trimmed text of which nothing is lost is plain.** -/
theorem isPlain_of_visible (hraw : raw = trimBlankLines s) (h : NamesNoFile raw)
    (hvisible : visible raw ≤ visible (normalize raw).code)
    (hreturns : raw.count '\r' ≤ (normalize raw).code.count '\r') : IsPlain raw := by
  have hmarkers := unmarked_of_normalize h hvisible
  have htext := visible_unifyNewlines raw
  have hcode : visible (normalize raw).code ≤ visible (unfenced (unifyNewlines raw)) :=
    (countP_normalize_le rfl h.single).trans (flatten_plainRows_sublist raw).countP_le
  obtain ⟨hblocks, hfirst, hlast, hjoin⟩ | hless := unfenced_cases h.blocks
  · -- a pair of carriage return and newline would have cost the carriage return
    have hnewlines : unifyNewlines raw = raw := by
      refine (Text.count_unifyNewlines raw).resolve_right fun hless => ?_
      have hcount : (normalize raw).code.count '\r' ≤ (unifyNewlines raw).count '\r' := by
        have hkeeps : ('\n' == '\r') = false := by decide
        have hrows : (normalize raw).code.count '\r' ≤ (unfenced (unifyNewlines raw)).count '\r' :=
          (countP_normalize_le hkeeps h.single).trans (flatten_plainRows_sublist raw).countP_le
        rw [hjoin] at hrows
        exact hrows.trans (countP_join_lines_le hkeeps _)
      omega
    rw [hjoin, hnewlines] at hmarkers
    rw [hnewlines] at hblocks hfirst hlast
    rw [hraw] at hnewlines
    have htrim := trimBlankLines_idem hnewlines
    obtain ⟨rows, -, hrows, hlines, hjoined⟩ := exists_lines hnewlines
    rw [← hraw] at hnewlines htrim hrows
    rw [htrim] at hfirst hlast hmarkers
    rw [hrows, hlines, hjoined, ← hlines, ← hrows] at hmarkers
    exact ⟨hnewlines, hblocks, hfirst, hlast, hmarkers⟩
  · omega

end LivePreview.Answer
