/-
Plain text with markers, read again.

The plain form of a marker is read as a marker with the same path, with one exception: two or more
hyphens in front of a path are taken for a rule that decorates it.  A path that opens so is named
with a label in front; its plain form has no label, and names another file.  So text without fences
comes out of a second reading as it came out of the first, unless some marker in it names such a
path.
-/
import LivePreview.Proofs.Answer.FencedAnswer
import LivePreview.Proofs.Text.LineStart

namespace LivePreview.Answer

open Text (asManyAs isBlankText join lines optionally unifyNewlines unlines)

variable {s t path line : Text} {rows : List Text} {n : Nat} {multi : Bool}

/-! ### The plain form of a marker -/

/-- The path that the plain form of a marker names. -/
def readBack (path : Text) : Text :=
  match path with
  | '-' :: '-' :: name =>
    let rest := name.dropWhile (· == '-')
    if extensions.contains rest then if name = rest then path else '-' :: rest else rest
  | _ => path

/-- What stands behind the rule of a marker: a path, with a label if it has one. -/
def labelled? : Text → Option Text :=
  optionally (readLabel markerLabels)
    (readPath fun path rest => if closesMarker rest then some path else none)

theorem markerBody?_eq (s : Text) : markerBody? s
    = optionally (fun follow => Text.atLeastTwo isRuleChar fun t => follow (Text.skipInline t))
        labelled? (Text.skipInline s) := rfl

theorem suffix_afterAnyCase? {w : Text} (h : afterAnyCase? w s = some t) : t <:+ s := by
  induction w generalizing s with
  | nil =>
    obtain rfl := Option.some.inj h
    exact List.suffix_refl s
  | cons c w ih =>
    cases s with
    | nil => cases h
    | cons d s =>
      rw [afterAnyCase?, Option.ite_none_right_eq_some] at h
      exact (ih h.2).trans (List.suffix_cons d s)

/-- A label has a colon. -/
theorem afterLabel?_eq_none {words : List Text} (h : ':' ∉ s) : afterLabel? words s = none := by
  refine List.findSome?_eq_none_iff.mpr fun w _ => ?_
  refine Option.bind_eq_none_iff.mpr fun u hu => Option.bind_eq_none_iff.mpr fun v hv => ?_
  have hcolon : ':' ∈ Text.skipInline u := by
    rw [Text.eq_append_of_after? hv]
    exact List.mem_cons_self
  exact absurd ((suffix_afterAnyCase? hu).subset ((Text.suffix_skipInline u).subset hcolon)) h

theorem dot_of_isPathExtension {extension : Text} (h : extension ∈ extensions) :
    ∃ letters, extension = '.' :: letters ∧ '.' ∉ letters := by
  obtain ⟨hhead, htail, -⟩ := dot_of_extension extension h
  cases extension with
  | nil => cases hhead
  | cons c letters =>
    obtain rfl := Option.some.inj hhead
    exact ⟨letters, rfl, htail⟩

/-- Of two extensions in one place the longer one is the extension of a marker. -/
theorem closesMarker_extension : ∀ extension ∈ extensions, ∀ e ∈ extensions,
    ∀ rest ∈ Text.after? e extension, closesMarker rest = true → rest = [] := by
  decide +kernel

theorem labelled?_extension : ∀ extension ∈ extensions, labelled? extension = none := by
  decide +kernel

namespace IsPath

theorem not_mem_colon (h : IsPath path) : ':' ∉ path := fun hmem =>
  absurd (h.chars ':' hmem) (by decide)

/-- **A path that nothing follows is read as a whole.** -/
theorem readPath_eq (h : IsPath path) :
    readPath (fun path rest => if closesMarker rest then some path else none) path = some path := by
  obtain ⟨hchars, stem, extension, hne, hmem, rfl⟩ := h
  obtain ⟨letters, hletters, hdot⟩ := dot_of_isPathExtension hmem
  cases stem with
  | nil => exact absurd rfl hne
  | cons c stem =>
    obtain ⟨hc, hstem⟩ := List.forall_mem_cons.mp hchars
    rw [readPath, List.cons_append, Text.atLeastOne, if_pos hc]
    refine Text.asManyAs_append (fun d hd => hstem d (List.mem_append_left _ hd)) ?_
    generalize hfollow : (fun t => extensions.findSome? fun e => (Text.after? e t).bind fun rest =>
      if closesMarker rest then some (Text.consumed (c :: (stem ++ extension)) rest) else none) = follow
    -- behind the dot of the extension there is no other extension
    have hlater : asManyAs isPathChar follow letters = none := by
      refine Text.asManyAs_eq_none fun u hu => ?_
      rw [← hfollow]
      refine List.findSome?_eq_none_iff.mpr fun e he => ?_
      obtain ⟨more, rfl, -⟩ := dot_of_isPathExtension he
      refine Option.bind_eq_none_iff.mpr fun rest hrest => ?_
      have hmem : '.' ∈ u := by
        rw [Text.eq_append_of_after? hrest]
        exact List.mem_cons_self
      exact absurd (hu.subset hmem) hdot
    have hhere : follow extension = some (c :: (stem ++ extension)) := by
      have hsome : (follow extension).isSome = true := by
        rw [← hfollow]
        refine List.findSome?_isSome_iff.mpr ⟨extension, hmem, ?_⟩
        have hself : Text.after? extension extension = some [] := by
          simpa using Text.after?_append_self extension []
        rw [hself]
        rfl
      obtain ⟨read, hread⟩ := Option.isSome_iff_exists.mp hsome
      rw [← hfollow] at hread ⊢
      obtain ⟨e, he, hfound⟩ := List.exists_of_findSome?_eq_some hread
      obtain ⟨rest, hrest, hclosed⟩ := Option.bind_eq_some_iff.mp hfound
      obtain ⟨hcloses, hconsumed⟩ := Option.ite_none_right_eq_some.mp hclosed
      obtain rfl := closesMarker_extension extension hmem e he rest hrest hcloses
      rw [hread, ← hconsumed, ← List.append_nil (c :: (stem ++ extension)), Text.consumed_append,
        List.append_nil]
    have hpathChar : isPathChar '.' = true := by decide
    rw [hletters] at hhere ⊢
    rw [asManyAs, if_pos hpathChar, hlater, Option.none_or, hhere]

theorem labelled?_eq (h : IsPath path) : labelled? path = some path := by
  have hlabel : afterLabel? markerLabels path = none := afterLabel?_eq_none h.not_mem_colon
  rw [labelled?, optionally, readLabel, hlabel, Option.bind_none, Option.none_or, h.readPath_eq]

theorem stops_isInline (h : IsPath path) : Text.Stops isInline path := by
  intro c hc
  have hchar := h.chars c (List.mem_of_mem_head? hc)
  by_contra hinline
  simp only [Bool.not_eq_false, isInline, Bool.or_eq_true, beq_iff_eq] at hinline
  obtain rfl | rfl := hinline <;> exact absurd hchar (by decide)

/-- A path that hyphens open goes on behind them, unless only its extension does. -/
theorem of_hyphens {hyphens rest : Text} (h : IsPath (hyphens ++ rest))
    (hhyphens : ∀ c ∈ hyphens, (c == '-') = true) (hrest : rest ∉ extensions) : IsPath rest := by
  obtain ⟨hchars, stem, extension, hne, hmem, heq⟩ := h
  refine ⟨fun c hc => hchars c (List.mem_append_right hyphens hc), ?_⟩
  obtain ⟨letters, hletters, -⟩ := dot_of_isPathExtension hmem
  obtain ⟨more, hstem, hmore⟩ | ⟨more, hhead, hextension⟩ := List.append_eq_append_iff.mp heq
  · cases more with
    | nil =>
      rw [List.nil_append] at hmore
      exact absurd (hmore ▸ hmem) hrest
    | cons c more => exact ⟨c :: more, extension, List.cons_ne_nil c more, hmem, hmore⟩
  · cases more with
    | nil =>
      rw [List.nil_append] at hextension
      exact absurd (hextension ▸ hmem) hrest
    | cons c more =>
      rw [hletters] at hextension
      obtain ⟨rfl, -⟩ := List.cons.inj hextension
      have hdot := hhyphens '.' (by rw [hhead]; exact List.mem_append_right stem List.mem_cons_self)
      exact absurd hdot (by decide)

/-- Of a rule only the hyphens can be part of a path. -/
theorem isRuleChar_eq (h : IsPath path) {c : Char} (hc : c ∈ path) : isRuleChar c = (c == '-') := by
  have hchar := h.chars c hc
  have hequals : (c == '=') = false := beq_eq_false_iff_ne.mpr fun heq => by
    rw [heq] at hchar
    exact absurd hchar (by decide)
  have hstar : (c == '*') = false := beq_eq_false_iff_ne.mpr fun heq => by
    rw [heq] at hchar
    exact absurd hchar (by decide)
  rw [isRuleChar, hequals, hstar, Bool.or_false, Bool.or_false]

theorem labelled?_skipInline (h : IsPath path) : labelled? (Text.skipInline path) = some path := by
  rw [Text.skipInline_of_stops h.stops_isInline, h.labelled?_eq]

/-- A path that no two hyphens open has no rule in front. -/
theorem atLeastTwo_eq_none {follow : Text → Option Text} (h : IsPath path)
    (hopens : ∀ name, path ≠ '-' :: '-' :: name) : Text.atLeastTwo isRuleChar follow path = none := by
  rcases path with _ | ⟨c, _ | ⟨d, name⟩⟩
  · rfl
  · rw [Text.atLeastTwo, Text.atLeastOne, ite_self]
  · have hc := h.isRuleChar_eq (c := c) List.mem_cons_self
    have hd := h.isRuleChar_eq (c := d) (List.mem_cons_of_mem c List.mem_cons_self)
    rw [Text.atLeastTwo, Text.atLeastOne, hc, hd]
    by_cases hfirst : c = '-'
    · have hsecond : (d == '-') = false := beq_eq_false_iff_ne.mpr fun heq =>
        hopens name (by rw [hfirst, heq])
      rw [hsecond, if_neg Bool.false_ne_true, ite_self]
    · rw [if_neg (by simpa using hfirst)]

/-- Two hyphens in front of a path are a rule, and so are all that follow, if a path is left. -/
theorem atLeastTwo_hyphens {name : Text} (h : IsPath ('-' :: '-' :: name)) :
    (Text.atLeastTwo isRuleChar (fun t => labelled? (Text.skipInline t)) ('-' :: '-' :: name)).or
      (some ('-' :: '-' :: name)) = some (readBack ('-' :: '-' :: name)) := by
  have hrule : isRuleChar '-' = true := rfl
  rw [Text.atLeastTwo, if_pos hrule, Text.atLeastOne, if_pos hrule, readBack]
  generalize hfollow : (fun t => labelled? (Text.skipInline t)) = follow
  have hname : name.takeWhile (· == '-') ++ name.dropWhile (· == '-') = name :=
    List.takeWhile_append_dropWhile
  have hhyphens : ∀ c ∈ name.takeWhile (· == '-'), (c == '-') = true := fun c hc =>
    List.mem_takeWhile_imp (p := (· == '-')) hc
  have hrules : ∀ c ∈ name.takeWhile (· == '-'), isRuleChar c = true := fun c hc => by
    rw [beq_iff_eq.mp (hhyphens c hc)]
    rfl
  have hstops : Text.Stops isRuleChar (name.dropWhile (· == '-')) := by
    intro c hc
    have hmem : c ∈ name := (List.dropWhile_sublist _).subset (List.mem_of_mem_head? hc)
    rw [h.isRuleChar_eq (List.mem_cons_of_mem _ (List.mem_cons_of_mem _ hmem))]
    exact Text.stops_dropWhile (· == '-') name c hc
  generalize hleft : name.dropWhile (· == '-') = rest at hname hstops ⊢
  generalize name.takeWhile (· == '-') = hyphens at hname hhyphens hrules
  have hrest : asManyAs isRuleChar follow rest = labelled? (Text.skipInline rest) := by
    rw [Text.asManyAs_of_stops hstops, ← hfollow]
  split
  · rename_i hextension
    have hmem : rest ∈ extensions := List.contains_iff_mem.mp hextension
    obtain ⟨letters, rfl, -⟩ := dot_of_isPathExtension hmem
    have hdot : isInline '.' = false := rfl
    rw [Text.skipInline_cons hdot, labelled?_extension _ hmem] at hrest
    split
    · rename_i hwhole
      rw [hwhole, hrest, Option.none_or]
    · -- one hyphen is left for the stem of the path
      rename_i hmore
      rcases List.eq_nil_or_concat' hyphens with rfl | ⟨front, last, rfl⟩
      · exact absurd hname.symm hmore
      · obtain rfl := beq_iff_eq.mp (hhyphens last (List.mem_append_right front List.mem_cons_self))
        have hpath : IsPath ('-' :: '.' :: letters) := by
          refine ⟨fun c hc => h.chars c ?_, ['-'], _, List.cons_ne_nil _ _, hmem, rfl⟩
          rw [← hname]
          simp only [List.mem_cons, List.mem_append] at hc ⊢
          tauto
        have hlast : asManyAs isRuleChar follow ('-' :: '.' :: letters)
            = some ('-' :: '.' :: letters) := by
          rw [asManyAs, if_pos hrule, hrest, Option.none_or, ← hfollow]
          exact hpath.labelled?_skipInline
        rw [List.append_assoc, List.singleton_append] at hname
        rw [← hname, Text.asManyAs_append (fun c hc => hrules c (List.mem_append_left _ hc)) hlast,
          Option.some_or]
  · rename_i hextension
    have hwhole : IsPath (('-' :: '-' :: hyphens) ++ rest) := by
      rw [List.cons_append, List.cons_append, hname]
      exact h
    have hall : ∀ c ∈ '-' :: '-' :: hyphens, (c == '-') = true :=
      List.forall_mem_cons.mpr ⟨rfl, List.forall_mem_cons.mpr ⟨rfl, hhyphens⟩⟩
    have hpath : IsPath rest := hwhole.of_hyphens hall fun hmem =>
      hextension (List.contains_iff_mem.mpr hmem)
    rw [hpath.labelled?_skipInline] at hrest
    rw [← hname, Text.asManyAs_append hrules hrest, Option.some_or]

end IsPath

/-- **What the plain form of a marker is read as.** -/
theorem markerPath?_markerLine (h : IsPath path) :
    markerPath? (markerLine path) = some (readBack path) := by
  have hbody : markerPath? (markerLine path) = markerBody? (' ' :: path) := rfl
  have hskip : Text.skipInline (' ' :: path) = path := Text.skipInline_of_stops h.stops_isInline
  rw [hbody, markerBody?_eq, hskip, optionally, h.labelled?_eq]
  by_cases hopens : ∃ name, path = '-' :: '-' :: name
  · obtain ⟨name, rfl⟩ := hopens
    exact h.atLeastTwo_hyphens
  · have hplain : ∀ name, path ≠ '-' :: '-' :: name := fun name heq => hopens ⟨name, heq⟩
    rw [h.atLeastTwo_eq_none hplain, Option.none_or, readBack]
    exact hplain

/-- A path is read back unless two hyphens open it and a path stands behind them. -/
theorem readBack_eq_self_iff :
    readBack path = path ↔ ∀ name, path = '-' :: '-' :: name → name ∈ extensions := by
  by_cases hopens : ∃ name, path = '-' :: '-' :: name
  · obtain ⟨name, rfl⟩ := hopens
    have hle : (name.dropWhile (· == '-')).length ≤ name.length := (List.dropWhile_sublist _).length_le
    simp only [List.cons.injEq, true_and, forall_eq', readBack]
    constructor
    · intro h
      split at h
      · split at h
        · rename_i hextension hwhole
          rw [hwhole]
          exact List.contains_iff_mem.mp hextension
        · have hlength := congrArg List.length h
          simp only [List.length_cons] at hlength
          omega
      · have hlength := congrArg List.length h
        simp only [List.length_cons] at hlength
        omega
    · intro hmem
      obtain ⟨letters, rfl, -⟩ := dot_of_isPathExtension hmem
      have hstops : ('.' :: letters).dropWhile (· == '-') = '.' :: letters := rfl
      rw [hstops, if_pos (List.contains_iff_mem.mpr hmem), if_pos rfl]
  · have hplain : ∀ name, path ≠ '-' :: '-' :: name := fun name heq => hopens ⟨name, heq⟩
    rw [readBack]
    · exact iff_of_true rfl fun name heq => absurd heq (hplain name)
    · exact hplain

/-! ### Lines with their markers in plain form -/

/-- A line with its marker in plain form. -/
def plainLine (line : Text) : Text := (markerPath? line).elim line markerLine

theorem filterMap_plainLine?_true (rows : List Text) :
    rows.filterMap (plainLine? true) = rows.map plainLine := by
  rw [← List.filterMap_eq_map]
  refine List.filterMap_congr fun line _ => ?_
  rw [plainLine?, Function.comp_apply, plainLine]
  cases markerPath? line <;> rfl

theorem markerPath?_plainLine (line : Text) :
    markerPath? (plainLine line) = (markerPath? line).map readBack := by
  rw [plainLine]
  cases hmarker : markerPath? line with
  | none => exact hmarker
  | some path => exact markerPath?_markerLine (IsPath.of_markerPath? hmarker)

/-- The markers are in the same lines. -/
theorem markersFrom_map_plainLine (n : Nat) (rows : List Text) :
    markersFrom n (rows.map plainLine)
      = (markersFrom n rows).map fun m => ⟨readBack m.path, m.line⟩ := by
  induction rows generalizing n with
  | nil => rfl
  | cons row rows ih =>
    rw [List.map_cons, markersFrom, markersFrom, markerPath?_plainLine, ih]
    cases markerPath? row <;> rfl

/-- The paths of the markers are the paths that lines name. -/
theorem exists_marker_iff : (∃ m ∈ markersFrom n rows, m.path = path) ↔
    ∃ row ∈ rows, markerPath? row = some path := by
  induction rows generalizing n with
  | nil => simp [markersFrom]
  | cons row rows ih =>
    rw [List.exists_mem_cons_iff, ← @ih (n + 1), markersFrom]
    cases markerPath? row with
    | none => simp
    | some named => simp

theorem isBlankText_markerLine (path : Text) : isBlankText (markerLine path) = false := rfl

theorem isBlankText_of_marker (h : markerPath? line = some path) : isBlankText line = false := by
  by_contra hblank
  have hpos := visible_pos_of_marker h
  have hnone := Text.visible_eq_zero_iff.mpr (Bool.eq_true_of_not_eq_false hblank)
  omega

theorem isBlankText_plainLine (line : Text) : isBlankText (plainLine line) = isBlankText line := by
  rw [plainLine]
  cases hmarker : markerPath? line with
  | none => rfl
  | some path =>
    rw [isBlankText_of_marker hmarker]
    exact isBlankText_markerLine path

/-- What a line comes to is the line itself or the plain form of a marker. -/
theorem plainLine?_cases (h : plainLine? multi line = some t) :
    t = line ∨ ∃ path, IsPath path ∧ t = markerLine path := by
  rw [plainLine?] at h
  cases hmarker : markerPath? line with
  | none =>
    rw [hmarker] at h
    exact Or.inl (Option.some.inj h).symm
  | some path =>
    rw [hmarker] at h
    obtain ⟨-, hline⟩ := Option.ite_none_right_eq_some.mp h
    exact Or.inr ⟨path, IsPath.of_markerPath? hmarker, (Option.some.inj hline).symm⟩

theorem not_mem_markerLine (h : IsPath path) {c : Char} (hc : isPathChar c = false)
    (hspace : c ≠ ' ') : c ∉ markerLine path := by
  intro hmem
  obtain hmem | hmem := List.mem_append.mp hmem
  · have hslash : c ≠ '/' := by
      rintro rfl
      exact absurd hc (by decide)
    exact absurd hmem (by simp [hslash, hspace])
  · rw [h.chars c hmem] at hc
    exact Bool.noConfusion hc

theorem fence?_markerLine (path : Text) : fence? (markerLine path) = none := rfl

theorem Trimmed.map_plainLine (h : Trimmed rows) : Trimmed (rows.map plainLine) := by
  refine ⟨fun row hrow => ?_, fun row hrow => ?_, fun row hrow => ?_⟩
  · obtain ⟨line, hline, rfl⟩ := List.mem_map.mp hrow
    rw [plainLine]
    cases hmarker : markerPath? line with
    | none => exact h.oneLine line hline
    | some path =>
      exact not_mem_markerLine (IsPath.of_markerPath? hmarker) (by decide) (by decide)
  · rw [List.head?_map] at hrow
    obtain ⟨line, hline, rfl⟩ := Option.map_eq_some_iff.mp hrow
    rw [isBlankText_plainLine, h.first line hline]
  · rw [List.getLast?_map] at hrow
    obtain ⟨line, hline, rfl⟩ := Option.map_eq_some_iff.mp hrow
    rw [isBlankText_plainLine, h.last line hline]

theorem eq_some_of_filterMap_eq_self {f : Text → Option Text} (h : rows.filterMap f = rows) :
    ∀ row ∈ rows, f row = some row := by
  induction rows with
  | nil => exact List.forall_mem_nil _
  | cons row rows ih =>
    cases hrow : f row with
    | none =>
      rw [List.filterMap_cons_none hrow] at h
      have hle := List.length_filterMap_le f rows
      rw [h, List.length_cons] at hle
      omega
    | some row' =>
      rw [List.filterMap_cons_some hrow] at h
      obtain ⟨rfl, hrows⟩ := List.cons.inj h
      exact List.forall_mem_cons.mpr ⟨hrow, ih hrows⟩

/-! ### Text without fences -/

/-- A text without carriage returns of which no line is a fence. -/
structure Unfenced (t : Text) : Prop where
  noReturn : '\r' ∉ t
  noFence : ∀ line ∈ Text.fields '\n' t, fence? line = none

/-- The lines of a text without the blank ones at both ends. -/
def codeRows (t : Text) : List Text := trimRows (lines t)

theorem trimmed_codeRows (t : Text) : Trimmed (codeRows t) :=
  trimmed_trimRows fun _ => Text.not_mem_of_mem_lines

/-- Without a fence no block is opened. -/
theorem Reading.foldlM_unfenced {r r' : Reading} (h : ∀ row ∈ rows, fence? row = none)
    (hinside : r.inside = none) (hread : rows.foldlM Reading.readLine r = some r') :
    r'.inside = none ∧ r'.hasContent = r.hasContent := by
  induction rows generalizing r with
  | nil =>
    obtain rfl := Option.some.inj hread
    exact ⟨hinside, rfl⟩
  | cons row rows ih =>
    obtain ⟨hrow, hrows⟩ := List.forall_mem_cons.mp h
    rw [List.foldlM_cons] at hread
    obtain ⟨r₁, hstep, hlater⟩ := Option.bind_eq_some_iff.mp hread
    rw [Reading.readLine, hinside] at hstep
    dsimp only at hstep
    rw [hrow] at hstep
    dsimp only at hstep
    obtain ⟨-, hr₁⟩ := Option.ite_none_left_eq_some.mp hstep
    obtain rfl := Option.some.inj hr₁
    have hlast := ih hrows rfl hlater
    exact hlast

theorem blocks?_eq_none (h : ∀ line ∈ Text.fields '\n' t, fence? line = none) :
    blocks? t = none := by
  refine Option.bind_eq_none_iff.mpr fun r hread => ?_
  obtain ⟨hinside, hcontent⟩ := Reading.foldlM_unfenced h rfl hread
  have hclose : r.close = r := by rw [Reading.close, hinside]
  dsimp only
  rw [hclose, hcontent]
  rfl

theorem normalize_markers (raw : Text) : (normalize raw).markers
    = markersFrom 1 (lines (unfenced (unifyNewlines raw))) := by
  unfold normalize unfenced
  dsimp only
  cases blocks? (unifyNewlines raw) <;> rfl

namespace Unfenced

variable {row : Text}

theorem mem_fields (h : Unfenced t) (hrow : row ∈ codeRows t) : row ∈ Text.fields '\n' t :=
  Text.mem_fields_of_mem_lines h.noReturn ((trimRows_sublist _).subset hrow)

theorem noReturn_row (h : Unfenced t) (hrow : row ∈ codeRows t) : '\r' ∉ row := fun hmem =>
  h.noReturn ((Text.flatten_fields_sublist t).subset
    (List.mem_flatten.mpr ⟨row, h.mem_fields hrow, hmem⟩))

theorem noFence_row (h : Unfenced t) (hrow : row ∈ codeRows t) : fence? row = none :=
  h.noFence row (h.mem_fields hrow)

/-- Nothing but blank lines is lost before the markers are looked at. -/
theorem lines_eq (h : Unfenced t) : lines (unfenced (unifyNewlines t)) = codeRows t := by
  have hreturn : ∀ row ∈ codeRows t, row.getLast? ≠ some '\r' := fun row hrow hlast =>
    h.noReturn_row hrow (List.mem_of_getLast? hlast)
  have hlines : lines (trimBlankLines t) = codeRows t := by
    rw [trimBlankLines_eq]
    exact Text.lines_unlines (trimmed_codeRows t).oneLine hreturn
  have hfirst : ∀ row ∈ (codeRows t).head?, fence? row = none := fun row hrow =>
    h.noFence_row (List.mem_of_mem_head? hrow)
  have hlast : ∀ row ∈ (codeRows t).getLast?, fence? row = none := fun row hrow =>
    h.noFence_row (List.mem_of_getLast? hrow)
  have hunfenced : unfenced t = join ['\n'] (codeRows t) := by
    rw [unfenced, blocks?_eq_none h.noFence]
    dsimp only
    rw [trimFences_eq, hlines, dropFence_eq hfirst, dropLastFence_eq hlast]
  rw [Text.unifyNewlines_of_noReturn h.noReturn, hunfenced]
  exact (trimmed_codeRows t).lines_join hreturn

theorem markers_eq (h : Unfenced t) : (normalize t).markers = markersFrom 1 (codeRows t) := by
  rw [normalize_markers, h.lines_eq]

theorem isMultiFile_eq (h : Unfenced t) :
    (normalize t).isMultiFile = namesTwoFiles (normalize t).markers := by
  rw [normalize_isMultiFile, h.lines_eq, h.markers_eq]

/-- What the lines come to are lines that hold no carriage return and are no fences. -/
theorem plain_row (h : Unfenced t) (hrow : row ∈ (codeRows t).filterMap (plainLine? multi)) :
    '\n' ∉ row ∧ '\r' ∉ row ∧ fence? row = none := by
  obtain ⟨line, hline, hplain⟩ := List.mem_filterMap.mp hrow
  obtain rfl | ⟨path, hpath, rfl⟩ := plainLine?_cases hplain
  · exact ⟨(trimmed_codeRows t).oneLine row hline, h.noReturn_row hline, h.noFence_row hline⟩
  · exact ⟨not_mem_markerLine hpath (by decide) (by decide),
      not_mem_markerLine hpath (by decide) (by decide), fence?_markerLine path⟩

theorem code_eq (h : Unfenced t) : (normalize t).code
    = unlines (trimRows ((codeRows t).filterMap (plainLine? (normalize t).isMultiFile))) := by
  have hline : ∀ row ∈ (codeRows t).filterMap (plainLine? (normalize t).isMultiFile), '\n' ∉ row :=
    fun row hrow => (h.plain_row hrow).1
  have hreturn : ∀ row ∈ (codeRows t).filterMap (plainLine? (normalize t).isMultiFile),
      row.getLast? ≠ some '\r' := fun row hrow hlast =>
    (h.plain_row hrow).2.1 (List.mem_of_getLast? hlast)
  rw [normalize_code, h.lines_eq, trimBlankLines_join hline hreturn, trimBlankLines_eq,
    Text.lines_unlines hline hreturn]

/-- What comes out has no fences either, and its lines are the ones that were put together. -/
theorem code (h : Unfenced t) : Unfenced (normalize t).code ∧ codeRows (normalize t).code
    = trimRows ((codeRows t).filterMap (plainLine? (normalize t).isMultiFile)) := by
  rw [h.code_eq]
  have hrow : ∀ row ∈ trimRows ((codeRows t).filterMap (plainLine? (normalize t).isMultiFile)),
      '\n' ∉ row ∧ '\r' ∉ row ∧ fence? row = none := fun row hrow =>
    h.plain_row ((trimRows_sublist _).subset hrow)
  have htrimmed : Trimmed (trimRows ((codeRows t).filterMap (plainLine? (normalize t).isMultiFile))) :=
    trimmed_trimRows fun row hmem => (h.plain_row hmem).1
  generalize trimRows ((codeRows t).filterMap (plainLine? (normalize t).isMultiFile)) = kept
    at hrow htrimmed
  have hfields : Text.fields '\n' (unlines kept) = kept ++ [[]] := by
    rw [← List.append_nil (unlines kept), Text.fields_unlines_append htrimmed.oneLine]
    rfl
  refine ⟨⟨fun hmem => ?_, fun line hline => ?_⟩, ?_⟩
  · obtain ⟨row, hmem', hreturn⟩ := List.mem_flatMap.mp hmem
    obtain hreturn | hreturn := List.mem_append.mp hreturn
    · exact (hrow row hmem').2.1 hreturn
    · exact absurd hreturn (by decide)
  · rw [hfields] at hline
    obtain hline | hline := List.mem_append.mp hline
    · exact (hrow line hline).2.2
    · rw [List.mem_singleton.mp hline]
      rfl
  · rw [codeRows, Text.lines_unlines htrimmed.oneLine fun row hmem hlast =>
      (hrow row hmem).2.1 (List.mem_of_getLast? hlast), htrimmed.trimRows_eq]

/-- What comes out is made of its lines. -/
theorem unlines_codeRows (h : Unfenced t) :
    unlines (codeRows (normalize t).code) = (normalize t).code := by
  rw [h.code.2]
  exact h.code_eq.symm

/-! ### The second reading -/

/-- Where the markers separate no files, the text that comes out has none. -/
theorem again_single (h : Unfenced t) (hmulti : (normalize t).isMultiFile = false) :
    (normalize (normalize t).code).markers = [] ∧
      (normalize (normalize t).code).code = (normalize t).code := by
  obtain ⟨hcode, hrows⟩ := h.code
  rw [hmulti, filterMap_plainLine] at hrows
  have hunmarked : ∀ row ∈ codeRows (normalize t).code, markerPath? row = none := by
    intro row hrow
    rw [hrows] at hrow
    exact Option.isNone_iff_eq_none.mp (List.mem_filter.mp ((trimRows_sublist _).subset hrow)).2
  have hmarkers : (normalize (normalize t).code).markers = [] := by
    rw [hcode.markers_eq, markersFrom_eq_nil hunmarked]
  have hsingle : (normalize (normalize t).code).isMultiFile = false := by
    rw [hcode.isMultiFile_eq, hmarkers]
    rfl
  have hkept : (codeRows (normalize t).code).filterMap (plainLine? false)
      = codeRows (normalize t).code := by
    rw [filterMap_plainLine, List.filter_eq_self]
    intro row hrow
    rw [hunmarked row hrow]
    rfl
  refine ⟨hmarkers, ?_⟩
  rw [hcode.code_eq, hsingle, hkept, (trimmed_codeRows _).trimRows_eq, h.unlines_codeRows]

theorem codeRows_multi (h : Unfenced t) (hmulti : (normalize t).isMultiFile = true) :
    codeRows (normalize t).code = (codeRows t).map plainLine := by
  rw [h.code.2, hmulti, filterMap_plainLine?_true, (trimmed_codeRows t).map_plainLine.trimRows_eq]

/-- The second reading finds every marker again, with the path that its plain form names. -/
theorem again_markers (h : Unfenced t) (hmulti : (normalize t).isMultiFile = true) :
    (normalize (normalize t).code).markers
      = (normalize t).markers.map fun m => ⟨readBack m.path, m.line⟩ := by
  rw [h.code.1.markers_eq, h.codeRows_multi hmulti, markersFrom_map_plainLine, h.markers_eq]

theorem exists_marker_iff (h : Unfenced t) : (∃ m ∈ (normalize t).markers, m.path = path) ↔
    ∃ row ∈ codeRows t, markerPath? row = some path := by
  rw [h.markers_eq, Answer.exists_marker_iff]

/-- Where every path is read back, so is the text. -/
theorem again_of_readBack (h : Unfenced t) (hmulti : (normalize t).isMultiFile = true)
    (hback : ∀ m ∈ (normalize t).markers, readBack m.path = m.path) :
    (normalize (normalize t).code).code = (normalize t).code := by
  have hmarkers : (normalize (normalize t).code).markers = (normalize t).markers := by
    rw [h.again_markers hmulti]
    refine (List.map_congr_left fun m hm => ?_).trans (List.map_id' _)
    rw [hback m hm]
  have hagain : (normalize (normalize t).code).isMultiFile = true := by
    rw [h.code.1.isMultiFile_eq, hmarkers, ← h.isMultiFile_eq, hmulti]
  have hkept : (codeRows (normalize t).code).map plainLine = codeRows (normalize t).code := by
    rw [h.codeRows_multi hmulti, List.map_map]
    refine List.map_congr_left fun line hline => ?_
    rw [Function.comp_apply, plainLine, markerPath?_plainLine]
    cases hmarker : markerPath? line with
    | none => rfl
    | some path =>
      obtain ⟨m, hm, rfl⟩ := h.exists_marker_iff.mpr ⟨line, hline, hmarker⟩
      rw [Option.map_some, hback m hm, plainLine, hmarker]
      rfl
  rw [h.code.1.code_eq, hagain, filterMap_plainLine?_true, hkept,
    (trimmed_codeRows _).trimRows_eq, h.unlines_codeRows]

/-- Where the text is read back, so is every path. -/
theorem readBack_of_again (h : Unfenced t) (hmulti : (normalize t).isMultiFile = true)
    (hagain : (normalize (normalize t).code).code = (normalize t).code) :
    ∀ m ∈ (normalize t).markers, readBack m.path = m.path := by
  intro m hm
  generalize hplain : plainLine? (normalize (normalize t).code).isMultiFile = plain
  have hrows := h.code.1.code.2
  rw [hagain, hplain] at hrows
  -- no line is lost, so every line of the text is the one that it comes to
  have hkept : (codeRows (normalize t).code).filterMap plain = codeRows (normalize t).code := by
    have hlength := List.length_filterMap_le plain (codeRows (normalize t).code)
    have hwhole : trimRows ((codeRows (normalize t).code).filterMap plain)
        = (codeRows (normalize t).code).filterMap plain := by
      refine (trimRows_sublist _).eq_of_length_le ?_
      rwa [← hrows]
    rw [← hwhole, ← hrows]
  obtain ⟨line, hline, hmarker⟩ := h.exists_marker_iff.mp ⟨m, hm, rfl⟩
  have hpath : markerPath? (markerLine m.path) = some (readBack m.path) :=
    markerPath?_markerLine (IsPath.of_markerPath? hmarker)
  have hmem : markerLine m.path ∈ codeRows (normalize t).code := by
    rw [h.codeRows_multi hmulti]
    refine List.mem_map.mpr ⟨line, hline, ?_⟩
    rw [plainLine, hmarker]
    rfl
  have hsame : plain (markerLine m.path) = some (markerLine m.path) :=
    eq_some_of_filterMap_eq_self hkept _ hmem
  rw [← hplain, plainLine?, hpath] at hsame
  obtain ⟨-, hline⟩ := Option.ite_none_right_eq_some.mp hsame
  exact List.append_cancel_left (Option.some.inj hline)

end Unfenced

/-- **What a second reading makes of text without fences.**  It finds the markers of the first one,
each with the path that its plain form names; and the text comes out as it was if and only if no
path is read otherwise.  That is the case for paths that two hyphens open, which are read without
them, and for no others. -/
theorem normalize_again (hreturn : '\r' ∉ t)
    (hfence : ∀ line ∈ Text.fields '\n' t, fence? line = none) :
    ((normalize (normalize t).code).markers
      = if (normalize t).isMultiFile then
          (normalize t).markers.map fun m => ⟨readBack m.path, m.line⟩
        else []) ∧
    ((normalize (normalize t).code).code = (normalize t).code ↔
      ((normalize t).isMultiFile = true →
        ∀ m ∈ (normalize t).markers, readBack m.path = m.path)) ∧
    (∀ line path, markerPath? line = some path →
      markerPath? (markerLine path) = some (readBack path)) ∧
    ∀ path, readBack path = path ↔ ∀ name, path = '-' :: '-' :: name → name ∈ extensions := by
  have h : Unfenced t := ⟨hreturn, hfence⟩
  refine ⟨?_, ?_, fun _ _ hmarker => markerPath?_markerLine (IsPath.of_markerPath? hmarker),
    fun _ => readBack_eq_self_iff⟩
  · cases hmulti : (normalize t).isMultiFile with
    | false => exact (h.again_single hmulti).1
    | true => exact h.again_markers hmulti
  · cases hmulti : (normalize t).isMultiFile with
    | false => exact iff_of_true (h.again_single hmulti).2 fun hfalse => Bool.noConfusion hfalse
    | true => exact ⟨fun hagain _ => h.readBack_of_again hmulti hagain,
        fun hback => h.again_of_readBack hmulti (hback rfl)⟩

/-- The first file is named by a path that two hyphens open. -/
theorem normalize_again_hyphens :
    let t := "// file: --a.ts\nlet a;\n// b.ts\nlet b;\n".toList
    (normalize t).code = "// --a.ts\nlet a;\n// b.ts\nlet b;\n".toList ∧
      (normalize (normalize t).code).code ≠ (normalize t).code ∧
      (normalize (normalize t).code).markers = [⟨"a.ts".toList, 1⟩, ⟨"b.ts".toList, 3⟩] := by
  intro t
  obtain ⟨hmarkers, hcode, -⟩ := normalize_again (t := t) (by decide +kernel) (by decide +kernel)
  have hnormalize : normalize t = ⟨"// --a.ts\nlet a;\n// b.ts\nlet b;\n".toList,
      [⟨"--a.ts".toList, 1⟩, ⟨"b.ts".toList, 3⟩], true, 0⟩ := by decide +kernel
  have hback : readBack "--a.ts".toList ≠ "--a.ts".toList := by decide +kernel
  rw [hnormalize] at hmarkers hcode ⊢
  refine ⟨rfl, fun hagain => hback (hcode.mp hagain rfl _ List.mem_cons_self), ?_⟩
  rw [hmarkers]
  decide +kernel

end LivePreview.Answer
