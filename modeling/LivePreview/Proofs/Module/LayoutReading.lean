/-
What the readers take of a statement in any layout.

A reader asks for blanks where the language asks for nothing.  Where there are none it finds
nothing, and where there is a comment it comes to a sign that it does not know in this place.  So
each reader takes the statements of its own form that are laid out as it expects, and no others.
-/
import LivePreview.Proofs.Module.ExportForms
import LivePreview.Proofs.Module.ImportForms
import LivePreview.Proofs.Module.Layout

namespace LivePreview

theorem inRanges_eq (ranges : Array (Nat × Nat)) (n : Nat) :
    inRanges ranges n = ranges.toList.any fun (first, last) => first ≤ n && n ≤ last :=
  Array.any_toList.symm

namespace Module

open Script
open Text (LineEnds linesAvoid Stops)

namespace Layout

variable {indent s t e u : Text} {c d : Char}

/-! ### Characters -/

/-- The code points of the blanks. -/
def spaceCodes : List Nat :=
  [9, 10, 11, 12, 13, 0x20, 0x85, 0xA0, 0x1680, 0x2000, 0x2001, 0x2002, 0x2003, 0x2004, 0x2005,
    0x2006, 0x2007, 0x2008, 0x2009, 0x200A, 0x2028, 0x2029, 0x202F, 0x205F, 0x3000]

theorem toNat_mem_spaceCodes (h : isSpace c = true) : c.toNat ∈ spaceCodes := by
  simp only [isSpace, Bool.or_eq_true, Bool.and_eq_true, decide_eq_true_eq, beq_iff_eq] at h
  simp only [spaceCodes, List.mem_cons, List.not_mem_nil, or_false]
  omega

/-- No name has a blank. -/
theorem isNameChar_of_isSpace (h : isSpace c = true) : isNameChar c = false := by
  have hall : ∀ n ∈ spaceCodes, isNameChar (Char.ofNat n) = false := by
    unfold isNameChar isWordChar
    simp only [inRanges_eq]
    decide +kernel
  have hc := hall c.toNat (toNat_mem_spaceCodes h)
  rwa [Char.ofNat_toNat] at hc

/-! ### Gaps -/

theorem isOdd_cases (h : isOdd d = true) : d = '/' ∨ d = '\uFEFF' := by
  simpa [isOdd] using h

theorem isSpace_of_isOdd (h : isOdd d = true) : isSpace d = false := by
  obtain rfl | rfl := isOdd_cases h <;> decide

/-- A text that a comment opens, or a blank that no reader takes for one. -/
def StartsOdd (s : Text) : Prop := ∃ d t, isOdd d = true ∧ s = d :: t

namespace Gap

variable (g : Gap)

/-- Behind the blanks of a gap there is what stands behind the gap, or a comment. -/
theorem skipSpaces_append (hc : isSpace c = false) :
    g.isBlank = true ∧ Text.skipSpaces (g.text ++ c :: s) = c :: s ∨
      g.isBlank = false ∧ StartsOdd (Text.skipSpaces (g.text ++ c :: s)) := by
  rw [skipSpaces_append_cons hc]
  cases hskip : Text.skipSpaces g.text with
  | nil =>
    left
    refine ⟨?_, rfl⟩
    rw [isBlank, Text.isBlankText, List.all_eq_true]
    exact List.dropWhile_eq_nil_iff.mp hskip
  | cons d t =>
    right
    have hodd : isOdd d = true := g.odd d (by rw [hskip]; rfl)
    refine ⟨?_, d, t ++ c :: s, hodd, rfl⟩
    by_contra hblank
    have hall : ∀ b ∈ g.text, isSpace b = true :=
      List.all_eq_true.mp (Bool.eq_true_of_not_eq_false hblank)
    have hnil : Text.skipSpaces g.text = [] := List.dropWhile_eq_nil_iff.mpr hall
    rw [hskip] at hnil
    cases hnil

/-- Where blanks are asked for, there are blanks only, or there is nothing to find. -/
theorem spaces?_append (hc : isSpace c = false) :
    g.isWide = true ∧ Text.spaces? (g.text ++ c :: s) = some (c :: s) ∨
      g.isWide = false ∧ ∀ r ∈ Text.spaces? (g.text ++ c :: s), StartsOdd r := by
  cases htext : g.text with
  | nil =>
    right
    refine ⟨by rw [isWide, htext]; rfl, fun r hr => ?_⟩
    rw [List.nil_append, Text.spaces?, if_neg (by rw [hc]; exact Bool.false_ne_true)] at hr
    cases hr
  | cons b t =>
    have hwide : g.isWide = g.isBlank := by
      rw [isWide, htext]
      rfl
    rw [hwide, List.cons_append, Text.spaces?]
    have hskip := g.skipSpaces_append (s := s) hc
    rw [htext, List.cons_append] at hskip
    by_cases hb : isSpace b = true
    · rw [if_pos hb]
      rw [Text.skipSpaces, List.dropWhile_cons_of_pos hb] at hskip
      refine hskip.imp (And.imp_right fun h => by rw [Text.skipSpaces, h]) (And.imp_right fun h => ?_)
      intro r hr
      rw [← Option.some.inj hr]
      exact h
    · right
      rw [if_neg hb]
      refine ⟨?_, fun _ hr => absurd hr (Option.not_mem_none _)⟩
      rw [isBlank, htext, Text.isBlankText, List.all_cons, Bool.eq_false_of_not_eq_true hb]
      rfl

end Gap

/-! ### Behind `import` and `export` -/

theorem skipInline_indent (h : indent.all isInline = true) (hc : isInline c = false) :
    Text.skipInline (indent ++ c :: s) = c :: s :=
  Text.dropWhile_append (List.all_eq_true.mp h) (Text.stops_cons.mpr hc)

section

variable (h : indent.all isInline = true)

include h

theorem afterImport?_append : afterImport? (indent ++ ("import".toList ++ s)) = some s := by
  have hskip : Text.skipInline (indent ++ ("import".toList ++ s)) = "import".toList ++ s :=
    skipInline_indent h (by decide)
  rw [afterImport?, hskip, Text.after?_append_self]

theorem afterExport?_append : afterExport? (indent ++ ("export".toList ++ s)) = some s := by
  have hskip : Text.skipInline (indent ++ ("export".toList ++ s)) = "export".toList ++ s :=
    skipInline_indent h (by decide)
  rw [afterExport?, hskip, Text.after?_append_self]

theorem afterImport?_export : afterImport? (indent ++ ("export".toList ++ s)) = none := by
  have hskip : Text.skipInline (indent ++ ("export".toList ++ s)) = "export".toList ++ s :=
    skipInline_indent h (by decide)
  rw [afterImport?, hskip]
  rfl

theorem afterExport?_import : afterExport? (indent ++ ("import".toList ++ s)) = none := by
  have hskip : Text.skipInline (indent ++ ("import".toList ++ s)) = "import".toList ++ s :=
    skipInline_indent h (by decide)
  rw [afterExport?, hskip]
  rfl

end

/-- Behind `export` and a gap there is what stands behind the gap, or no reader goes on. -/
theorem start_export (h : indent.all isInline = true) (g : Gap) (hc : isSpace c = false) :
    g.isWide = true ∧ (afterExport? (indent ++ ("export".toList ++ (g.text ++ c :: s)))).bind
        Text.spaces? = some (c :: s) ∨
      g.isWide = false ∧ ∀ r ∈ (afterExport? (indent ++ ("export".toList ++ (g.text ++ c :: s)))).bind
        Text.spaces?, StartsOdd r := by
  rw [afterExport?_append h, Option.bind_some]
  exact g.spaces?_append hc

/-! ### Where nothing is found -/

/-- What a reader comes to behind its first word, if it comes to anything, starts with `c` or
oddly. -/
def ComesTo (c : Char) (start : Option Text) : Prop :=
  ∀ r ∈ start, ∃ d t, (d = c ∨ isOdd d = true) ∧ r = d :: t

theorem comesTo_of_startsOdd {start : Option Text} (h : ∀ r ∈ start, StartsOdd r) :
    ComesTo c start := by
  intro r hr
  obtain ⟨d, t, hd, ht⟩ := h r hr
  exact ⟨d, t, Or.inr hd, ht⟩

theorem comesTo_export (h : indent.all isInline = true) (g : Gap) (hc : isSpace c = false) :
    ComesTo c ((afterExport? (indent ++ ("export".toList ++ (g.text ++ c :: s)))).bind
      Text.spaces?) := by
  obtain ⟨-, hstart⟩ | ⟨-, hodd⟩ := start_export (s := s) h g hc
  · rw [hstart]
    intro r hr
    exact ⟨c, s, Or.inl rfl, (Option.some.inj hr).symm⟩
  · intro r hr
    obtain ⟨d, t, hd, ht⟩ := hodd r hr
    exact ⟨d, t, Or.inr hd, ht⟩

section

variable (h : ComesTo c ((afterExport? s).bind Text.spaces?))

include h

theorem exportList?_of_comesTo (hbrace : c ≠ '{') (ht : c ≠ 't') : exportList? s = none := by
  rw [exportList?]
  cases hstart : (afterExport? s).bind Text.spaces? with
  | none => rfl
  | some r =>
    obtain ⟨d, t, hd, rfl⟩ := h r hstart
    have hne : d ≠ '{' ∧ d ≠ 't' := by
      obtain rfl | hd := hd
      · exact ⟨hbrace, ht⟩
      · obtain rfl | rfl := isOdd_cases hd <;> decide
    have htype : Text.after? "type".toList (d :: t) = none := if_neg hne.2.symm
    have hskip : skipWord "type".toList (d :: t) = d :: t := by rw [skipWord, htype]; rfl
    have hlist : Text.after? ['{'] (d :: t) = none := if_neg hne.1.symm
    simp only [Option.bind_eq_bind, Option.bind_some, hskip, hlist, Option.bind_none]

theorem exportStar?_of_comesTo (hstar : c ≠ '*') : exportStar? s = none := by
  rw [exportStar?]
  cases hstart : (afterExport? s).bind Text.spaces? with
  | none => rfl
  | some r =>
    obtain ⟨d, t, hd, rfl⟩ := h r hstart
    have hne : d ≠ '*' := by
      obtain rfl | hd := hd
      · exact hstar
      · obtain rfl | rfl := isOdd_cases hd <;> decide
    have hall : Text.after? ['*'] (d :: t) = none := if_neg hne.symm
    simp only [Option.bind_eq_bind, Option.bind_some, hall, Option.bind_none]

theorem afterExportDefault?_of_comesTo (hdefault : c ≠ 'd') : afterExportDefault? s = none := by
  rw [afterExportDefault?]
  cases hstart : (afterExport? s).bind Text.spaces? with
  | none => rfl
  | some r =>
    obtain ⟨d, t, hd, rfl⟩ := h r hstart
    have hne : d ≠ 'd' := by
      obtain rfl | hd := hd
      · exact hdefault
      · obtain rfl | rfl := isOdd_cases hd <;> decide
    have hword : Text.after? "default".toList (d :: t) = none := if_neg hne.symm
    simp only [Option.bind_eq_bind, Option.bind_some, hword, Option.bind_none]

theorem exportedDeclaration?_of_comesTo (hsign : c = '{' ∨ c = '*') :
    exportedDeclaration? s = none := by
  rw [exportedDeclaration?]
  cases hstart : (afterExport? s).bind Text.spaces? with
  | none => rfl
  | some r =>
    obtain ⟨d, t, hd, rfl⟩ := h r hstart
    have hwords : afterDeclarationWords? (skipWord "declare".toList (d :: t)) = none := by
      obtain rfl | hd := hd
      · obtain rfl | rfl := hsign <;> rfl
      · obtain rfl | rfl := isOdd_cases hd <;> rfl
    simp only [Option.bind_eq_bind, Option.bind_some, hwords, Option.bind_none]

end

theorem exportAssign?_export (h : indent.all isInline = true) (g : Gap) (hc : isSpace c = false)
    (hequals : c ≠ '=') :
    exportAssign? (indent ++ ("export".toList ++ (g.text ++ c :: s))) = none := by
  have hstart : ∃ d t, d ≠ '=' ∧ Text.skipSpaces (g.text ++ c :: s) = d :: t := by
    obtain ⟨-, hskip⟩ | ⟨-, d, t, hodd, hskip⟩ := g.skipSpaces_append (s := s) hc
    · exact ⟨c, s, hequals, hskip⟩
    · refine ⟨d, t, ?_, hskip⟩
      obtain rfl | rfl := isOdd_cases hodd <;> decide
  obtain ⟨d, t, hd, hskip⟩ := hstart
  have hnone : Text.after? ['='] (d :: t) = none := if_neg hd.symm
  simp only [exportAssign?, afterExport?_append h, Option.bind_eq_bind, Option.bind_some, hskip,
    hnone, Option.bind_none]

/-! ### Names of modules -/

namespace Source

variable (source : Source)

theorem text_append (s : Text) :
    source.text ++ s = source.quote :: (source.name ++ source.closing :: s) := by
  simp [text]

theorem isSpace_quote : isSpace source.quote = false := isSpace_eq_false_of_isQuote source.isQuote

theorem endsClause_quote : EndsClause source.quote := by
  have hquote := source.isQuote
  simp only [Script.isQuote, Bool.or_eq_true, beq_iff_eq] at hquote
  rcases hquote with h | h <;> rw [h] <;> rfl

/-- A name is read if there is one and if its line does not end inside of it. -/
theorem source?_append (s : Text) :
    source? (source.text ++ s) = if source.isRead then some (source.name, s) else none := by
  have hstop : Stops isSourceChar (source.closing :: s) := Text.stops_cons.mpr source.closes
  have hname : ∀ c ∈ source.name, isSourceChar c = true := List.all_eq_true.mp source.isSource
  rw [source.text_append, source?, Text.takeWhile_append hname hstop,
    Text.dropWhile_append hname hstop]
  simp only [source.isQuote, Bool.true_and, isRead, Bool.and_comm]
  rfl

end Source

theorem source?_of_startsOdd (h : StartsOdd s) : source? s = none := by
  obtain ⟨d, t, hodd, rfl⟩ := h
  refine source?_eq_none ?_
  obtain rfl | rfl := isOdd_cases hodd <;> decide

/-- A source behind a gap is read if there are blanks only in the gap. -/
theorem source?_gap (g : Gap) (source : Source) (s : Text) :
    source? (Text.skipSpaces (g.text ++ (source.text ++ s)))
      = if g.isBlank && source.isRead then some (source.name, s) else none := by
  rw [source.text_append]
  obtain ⟨hblank, hskip⟩ | ⟨hnot, hodd⟩ := g.skipSpaces_append source.isSpace_quote
  · rw [hskip, ← source.text_append, source.source?_append, hblank, Bool.true_and]
  · rw [source?_of_startsOdd hodd, hnot, Bool.false_and]
    rfl

theorem fromSource?_gap (g : Gap) (source : Source) (s : Text) :
    fromSource? ("from".toList ++ (g.text ++ (source.text ++ s)))
      = if g.isBlank && source.isRead then some (source.name, s) else none := source?_gap g source s

theorem isNameChar_of_isOdd (h : isOdd d = true) : isNameChar d = false := by
  obtain rfl | rfl := isOdd_cases h
  · decide
  · unfold isNameChar isWordChar
    rw [inRanges_eq, inRanges_eq, inRanges_eq]
    decide +kernel

theorem endsClause_of_isOdd (h : isOdd d = true) : EndsClause d := by
  show isClauseChar d = false
  rw [isClauseChar, isNameChar_of_isOdd h, isSpace_of_isOdd h]
  obtain rfl | rfl := isOdd_cases h <;> decide

theorem fromSource?_of_startsOdd (h : StartsOdd s) : fromSource? s = none := by
  obtain ⟨d, t, hodd, rfl⟩ := h
  rw [fromSource?, skipSpaces_cons (isSpace_of_isOdd hodd)]
  obtain rfl | rfl := isOdd_cases hodd <;> rfl

/-! ### Imports with a clause -/

/-- The text ends with the word `from` and blanks. -/
def EndsWithFrom (u : Text) : Prop :=
  ∃ front blanks, u = front ++ ("from".toList ++ blanks) ∧ ∀ c ∈ blanks, isSpace c = true

/-- Without a source where the clause ends, or without `from` in front of it, there is no clause. -/
theorem clause?_eq_none (hd : EndsClause d) (hu : ∀ c ∈ u, isClauseChar c = true)
    (h : source? (d :: t) = none ∨ ¬EndsWithFrom u) : clause? (u ++ d :: t) = none := by
  have hnone : ∀ v, (∀ c ∈ v, isClauseChar c = true) → (EndsWithFrom v → EndsWithFrom u) →
      fromSource? (v ++ d :: t) = none := by
    intro v hv hends
    rw [Option.eq_none_iff_forall_not_mem]
    intro r hr
    obtain ⟨hsource, hfrom⟩ := fromSource?_clause hd hv hr
    obtain hnone | hnot := h
    · rw [hnone] at hsource
      cases hsource
    · exact hnot (hends hfrom)
  have hd : isClauseChar d = false := hd
  -- the clause is empty, or one character longer than the one behind it
  suffices hall : ∀ v, (∀ c ∈ v, isClauseChar c = true) → (EndsWithFrom v → EndsWithFrom u) →
      clause? (v ++ d :: t) = none from hall u hu id
  intro v
  induction v with
  | nil =>
    intro hv hends
    have hfrom : fromSource? (d :: t) = none := hnone [] hv hends
    rw [List.nil_append, clause?_cons, hfrom]
    exact if_neg (by rw [hd]; exact Bool.false_ne_true)
  | cons c v ih =>
    intro hv hends
    have hfrom : fromSource? (c :: (v ++ d :: t)) = none := hnone (c :: v) hv hends
    have hlater : clause? (v ++ d :: t) = none := by
      refine ih (fun b hb => hv b (List.mem_cons_of_mem c hb)) fun ⟨front, blanks, hv, hblanks⟩ => ?_
      exact hends ⟨c :: front, blanks, by rw [hv, List.cons_append], hblanks⟩
    rw [List.cons_append, clause?_cons, hfrom, hlater]
    exact if_pos (hv c List.mem_cons_self)

section

variable (h : ∀ r ∈ (afterImport? s).bind Text.spaces?, ∃ d t, EndsClause d ∧ r = d :: t)

include h

/-- Where a clause ends at once, there is no import with a clause. -/
theorem importFrom?_of_endsClause : importFrom? s = none := by
  cases hs : (afterImport? s).bind Text.spaces? with
  | none =>
    rw [importFrom?, hs]
    rfl
  | some r =>
    obtain ⟨d, t, hd, rfl⟩ := h r hs
    have hword : d ∉ "type".toList := by
      intro hmem
      have hall : ∀ c ∈ "type".toList, isClauseChar c = true := List.all_eq_true.mp rfl
      exact Bool.noConfusion ((hall d hmem).symm.trans hd)
    obtain ⟨v, hv, htype⟩ := skipWord_type_append hword (isSpace_eq_false_of_endsClause hd) [] t
    rw [List.suffix_nil.mp hv] at htype
    have htype : skipWord "type".toList (d :: t) = d :: t := htype
    have hnone : clause? ([] ++ d :: t) = none := by
      refine clause?_eq_none hd (List.forall_mem_nil _) (Or.inr ?_)
      rintro ⟨front, blanks, hnil, -⟩
      simp at hnil
    have hnone : clause? (d :: t) = none := hnone
    simp only [importFrom?, hs, Option.bind_eq_bind, Option.bind_some, htype, hnone, Option.bind_none]

theorem importRequire?_of_endsClause : importRequire? s = none := by
  cases hs : (afterImport? s).bind Text.spaces? with
  | none =>
    rw [importRequire?, hs]
    rfl
  | some r =>
    obtain ⟨d, t, hd, rfl⟩ := h r hs
    have hname : isNameChar d = false := by
      have hd : isClauseChar d = false := hd
      simp only [isClauseChar, Bool.or_eq_false_iff] at hd
      exact hd.1.1.1.1.1
    have hnone : name? (d :: t) = none := by
      rw [name?, List.takeWhile_cons_of_neg (by rw [hname]; exact Bool.false_ne_true)]
      rfl
    simp only [importRequire?, hs, Option.bind_eq_bind, Option.bind_some, hnone, Option.bind_none]

end

theorem getLast?_trimEnd (hb : ∀ b ∈ u, isSpace b = true) (hc : isSpace c = false) (v : Text) :
    (Text.trimEnd (v ++ c :: u)).getLast? = some c := by
  have hreverse : (v ++ c :: u).reverse = u.reverse ++ c :: v.reverse := by simp
  have hdrop : (u.reverse ++ c :: v.reverse).dropWhile isSpace = c :: v.reverse :=
    Text.dropWhile_append (fun b hmem => hb b (List.mem_reverse.mp hmem)) (Text.stops_cons.mpr hc)
  rw [Text.trimEnd, Text.trimEndBy, hreverse, hdrop, List.getLast?_reverse, List.head?_cons]

theorem exists_cons_of_not_all {p : Char → Bool} (h : s.all p = false) :
    ∃ u d t, s = u ++ d :: t ∧ (∀ c ∈ u, p c = true) ∧ p d = false := by
  cases hdrop : s.dropWhile p with
  | nil =>
    rw [List.all_eq_true.mpr (List.dropWhile_eq_nil_iff.mp hdrop)] at h
    cases h
  | cons d t =>
    refine ⟨s.takeWhile p, d, t, ?_, fun c hc => List.mem_takeWhile_imp hc, ?_⟩
    · rw [← hdrop, List.takeWhile_append_dropWhile]
    · exact Text.stops_dropWhile p s d (by rw [hdrop]; rfl)

theorem isClauseChar_from : ∀ c ∈ "from".toList, isClauseChar c = true := List.all_eq_true.mp rfl

/-- Where the clause of an import ends: at a source behind `from`, or with no such source. -/
theorem Binding.exists_end (b : Binding) (g : Gap) (source : Source) (s : Text) :
    ∃ u d t, b.text ++ ("from".toList ++ (g.text ++ (source.text ++ s))) = u ++ d :: t ∧
      (∀ c ∈ u, isClauseChar c = true) ∧ EndsClause d ∧ d ≠ '=' ∧
      ((b.text.all isClauseChar && g.isBlank && source.isRead) = false →
        source? (d :: t) = none ∨ ¬EndsWithFrom u) := by
  by_cases hb : b.text.all isClauseChar = true
  · have hfrom : ∀ c ∈ b.text ++ "from".toList, isClauseChar c = true := by
      intro c hc
      obtain hc | hc := List.mem_append.mp hc
      · exact List.all_eq_true.mp hb c hc
      · exact isClauseChar_from c hc
    have hspaces : ∀ c ∈ b.text ++ "from".toList ++ g.text.takeWhile isSpace, isClauseChar c = true := by
      intro c hc
      obtain hc | hc := List.mem_append.mp hc
      · exact hfrom c hc
      · exact isClauseChar_of_isSpace (List.mem_takeWhile_imp hc)
    have hgap : g.text.takeWhile isSpace ++ Text.skipSpaces g.text = g.text :=
      List.takeWhile_append_dropWhile
    cases hskip : Text.skipSpaces g.text with
    | nil =>
      refine ⟨_, source.quote, source.name ++ source.closing :: s, ?_, hspaces,
        source.endsClause_quote, ?_, fun hread => Or.inl ?_⟩
      · rw [hskip, List.append_nil] at hgap
        rw [hgap, ← source.text_append]
        simp only [List.append_assoc]
      · have hquote := source.endsClause_quote
        have hisQuote := source.isQuote
        rintro heq
        rw [heq] at hisQuote
        cases hisQuote
      · have hblank : g.isBlank = true := List.all_eq_true.mpr (List.dropWhile_eq_nil_iff.mp hskip)
        rw [hb, hblank, Bool.true_and, Bool.true_and] at hread
        rw [← source.text_append, source.source?_append, hread]
        rfl
    | cons d t =>
      have hodd : isOdd d = true := g.odd d (by rw [hskip]; rfl)
      have htext : g.text ++ (source.text ++ s)
          = g.text.takeWhile isSpace ++ d :: (t ++ (source.text ++ s)) := by
        rw [← List.cons_append, ← hskip, ← List.append_assoc (g.text.takeWhile isSpace), hgap]
      refine ⟨_, d, t ++ (source.text ++ s), ?_, hspaces, endsClause_of_isOdd hodd, ?_,
        fun _ => Or.inl (source?_of_startsOdd ⟨d, _, hodd, rfl⟩)⟩
      · rw [htext]
        simp only [List.append_assoc]
      · obtain rfl | rfl := isOdd_cases hodd <;> decide
  · obtain ⟨u, d, t, htext, hu, hd⟩ := exists_cons_of_not_all (Bool.eq_false_of_not_eq_true hb)
    obtain ⟨hequals, hquote⟩ := b.odd u d t htext hu hd
    refine ⟨u, d, t ++ ("from".toList ++ (g.text ++ (source.text ++ s))), ?_, hu, hd, hequals,
      fun _ => ?_⟩
    · rw [htext, List.append_assoc, List.cons_append]
    · by_cases hisQuote : isQuote d = true
      · right
        rintro ⟨front, blanks, rfl, hblanks⟩
        have hlast : (Text.trimEnd (front ++ ("from".toList ++ blanks))).getLast? = some 'm' := by
          have hword : front ++ ("from".toList ++ blanks) = (front ++ "fro".toList) ++ 'm' :: blanks := by
            rw [List.append_assoc]
            rfl
          rw [hword, getLast?_trimEnd hblanks (by decide)]
        rw [hlast] at hquote
        obtain hbrace | hcomma := hquote hisQuote
        · cases hbrace
        · cases hcomma
      · exact Or.inl (source?_eq_none (Bool.eq_false_of_not_eq_true hisQuote))

theorem text_importFrom (b : Binding) (g : Gap) (source : Source) (s : Text) :
    indent ++ ((Whole.importFrom b g source).text ++ s) = indent ++ ("import".toList ++
      (b.text ++ ("from".toList ++ (g.text ++ (source.text ++ s))))) := by
  show indent ++ ("import".toList ++ (b.text ++ ("from".toList ++ (g.text ++ source.text))) ++ s) = _
  simp only [List.append_assoc]

/-- A text that starts with a blank, or no text behind `import` and blanks. -/
theorem spaces?_binding (b : Binding) (hd : isSpace d = false) {x : Text}
    (htext : b.text ++ ("from".toList ++ x) = u ++ d :: t) :
    Text.spaces? (u ++ d :: t)
      = if b.text.head?.any isSpace then some (Text.skipSpaces u ++ d :: t) else none := by
  have hhead : b.text.head?.any isSpace = (u ++ d :: t).head?.any isSpace := by
    rw [← htext]
    cases b.text <;> rfl
  rw [hhead]
  cases u with
  | nil =>
    rw [List.nil_append, Text.spaces?, List.head?_cons, Option.any_some, hd]
    rfl
  | cons c u =>
    rw [List.cons_append, Text.spaces?, List.head?_cons, Option.any_some]
    by_cases hc : isSpace c = true
    · rw [if_pos hc, if_pos hc, skipSpaces_append_cons hd, Text.skipSpaces, Text.skipSpaces,
        List.dropWhile_cons_of_pos hc]
    · rw [if_neg hc, if_neg hc]

/-- An import with a clause is read as one if there is a blank in front of the clause, and no
comment up to the source. -/
theorem importFrom?_importFrom (h : indent.all isInline = true) (b : Binding) (g : Gap)
    (source : Source) (s : Text) : ∃ found,
      importFrom? (indent ++ ((Whole.importFrom b g source).text ++ s))
        = if (Whole.importFrom b g source).isRead then some (found, skipEnd s) else none := by
  obtain ⟨u, d, t, htext, hu, hd, -, hend⟩ := b.exists_end g source s
  have hspace := isSpace_eq_false_of_endsClause hd
  have hstart : (afterImport? (indent ++ ((Whole.importFrom b g source).text ++ s))).bind Text.spaces?
      = if b.text.head?.any isSpace then some (Text.skipSpaces u ++ d :: t) else none := by
    rw [text_importFrom, afterImport?_append h, Option.bind_some, htext, spaces?_binding b hspace htext]
  rw [importFrom?, hstart, Whole.isRead, Binding.isRead]
  by_cases hblank : b.text.head?.any isSpace = true
  · rw [if_pos hblank, hblank, Bool.true_and]
    by_cases hread : (b.text.all isClauseChar && g.isBlank && source.isRead) = true
    · have hparts := hread
      rw [Bool.and_eq_true, Bool.and_eq_true] at hparts
      obtain ⟨⟨hclause, hgap⟩, hsource⟩ := hparts
      have hskip : Text.skipSpaces u ++ d :: t = Text.skipSpaces b.text ++
          'f' :: ("rom".toList ++ (g.text ++ (source.text ++ s))) := by
        rw [← skipSpaces_append_cons hspace, ← htext]
        exact skipSpaces_append_cons rfl
      have hword : 'f' ∉ "type".toList := by decide
      obtain ⟨v, hv, htype⟩ := skipWord_type_append hword rfl (Text.skipSpaces b.text)
        ("rom".toList ++ (g.text ++ (source.text ++ s)))
      have hchars : ∀ c ∈ v, isClauseChar c = true := fun c hc =>
        List.all_eq_true.mp hclause c (mem_of_mem_skipSpaces (hv.subset hc))
      have hfound : source? (source.quote :: (source.name ++ source.closing :: s))
          = some (source.name, s) := by
        rw [← source.text_append, source.source?_append, hsource]
        rfl
      obtain ⟨clause, hclause⟩ := clause?_of_source? source.endsClause_quote hchars
        (List.all_eq_true.mp hgap) hfound
      rw [← source.text_append] at hclause
      have hclause : clause? (v ++ 'f' :: ("rom".toList ++ (g.text ++ (source.text ++ s))))
          = some (clause, source.name, s) := hclause
      simp only [Option.bind_eq_bind, Option.bind_some, hskip, htype, hclause, hread, if_true]
      exact ⟨_, rfl⟩
    · have hd' : d ∉ "type".toList := by
        intro hmem
        have hall : ∀ c ∈ "type".toList, isClauseChar c = true := List.all_eq_true.mp rfl
        exact Bool.noConfusion ((hall d hmem).symm.trans hd)
      obtain ⟨v, hv, htype⟩ := skipWord_type_append hd' hspace (Text.skipSpaces u) t
      have hsuffix : v <:+ u := hv.trans (List.dropWhile_suffix isSpace)
      have hnone : clause? (v ++ d :: t) = none := by
        refine clause?_eq_none hd (fun c hc => hu c (hsuffix.subset hc)) ?_
        refine (hend (Bool.eq_false_of_not_eq_true hread)).imp_right fun hnot hends => hnot ?_
        obtain ⟨before, rfl⟩ := hsuffix
        obtain ⟨front, blanks, rfl, hblanks⟩ := hends
        exact ⟨before ++ front, blanks, (List.append_assoc _ _ _).symm, hblanks⟩
      simp only [Option.bind_eq_bind, Option.bind_some, htype, hnone, Option.bind_none, hread]
      exact ⟨{ source := [] }, rfl⟩
  · rw [if_neg hblank, Bool.eq_false_of_not_eq_true hblank]
    exact ⟨{ source := [] }, rfl⟩

/-- No other reader takes an import with a clause. -/
theorem importRequire?_importFrom (h : indent.all isInline = true) (b : Binding) (g : Gap)
    (source : Source) (s : Text) :
    importRequire? (indent ++ ((Whole.importFrom b g source).text ++ s)) = none := by
  obtain ⟨u, d, t, htext, hu, hd, hequals, -⟩ := b.exists_end g source s
  have hspace := isSpace_eq_false_of_endsClause hd
  have hstart : (afterImport? (indent ++ ((Whole.importFrom b g source).text ++ s))).bind Text.spaces?
      = if b.text.head?.any isSpace then some (Text.skipSpaces u ++ d :: t) else none := by
    rw [text_importFrom, afterImport?_append h, Option.bind_some, htext, spaces?_binding b hspace htext]
  by_cases hblank : b.text.head?.any isSpace = true
  · rw [if_pos hblank] at hstart
    exact importRequire?_of_clause hd hequals (fun c hc => hu c (mem_of_mem_skipSpaces hc)) hstart
  · rw [if_neg hblank] at hstart
    rw [importRequire?, hstart]
    rfl

theorem importSource?_importFrom (h : indent.all isInline = true) (b : Binding) (g : Gap)
    (source : Source) (s : Text) :
    importSource? (indent ++ ((Whole.importFrom b g source).text ++ s)) = none := by
  have hskip := skipSpaces_append_cons (u := b.text) (s := "rom".toList ++ (g.text ++ (source.text ++ s)))
    (by decide : isSpace 'f' = false)
  have hnone : source? (Text.skipSpaces (b.text ++ ("from".toList ++ (g.text ++ (source.text ++ s)))))
      = none := by
    refine (congrArg source? hskip).trans ?_
    cases hclause : Text.skipSpaces b.text with
    | nil => exact source?_eq_none rfl
    | cons d t =>
      refine source?_eq_none ?_
      by_contra hquote
      have hquote : isQuote d = true := Bool.eq_true_of_not_eq_false hquote
      have hd : isClauseChar d = false := by
        by_contra hd
        rw [isQuote_eq_false_of_isClauseChar (Bool.eq_true_of_not_eq_false hd)] at hquote
        cases hquote
      have htext : b.text = b.text.takeWhile isSpace ++ d :: t := by
        rw [← hclause]
        exact List.takeWhile_append_dropWhile.symm
      have hblanks : ∀ c ∈ b.text.takeWhile isSpace, isSpace c = true :=
        fun c hc => List.mem_takeWhile_imp hc
      have hlast : (Text.trimEnd (b.text.takeWhile isSpace)).getLast? = none := by
        have hdrop : (b.text.takeWhile isSpace).reverse.dropWhile isSpace = [] :=
          List.dropWhile_eq_nil_iff.mpr fun c hc => hblanks c (List.mem_reverse.mp hc)
        rw [Text.trimEnd, Text.trimEndBy, hdrop]
        rfl
      have hbehind := (b.odd _ d t htext (fun c hc => isClauseChar_of_isSpace (hblanks c hc)) hd).2 hquote
      rw [hlast] at hbehind
      obtain hbrace | hcomma := hbehind
      · cases hbrace
      · cases hcomma
  rw [importSource?, text_importFrom, afterImport?_append h, Option.bind_eq_bind, Option.bind_some,
    hnone]
  rfl

/-! ### Imports without a clause -/

theorem text_importSource (g : Gap) (source : Source) (s : Text) :
    indent ++ ((Whole.importSource g source).text ++ s)
      = indent ++ ("import".toList ++ (g.text ++ (source.text ++ s))) := by
  show indent ++ ("import".toList ++ (g.text ++ source.text) ++ s) = _
  simp only [List.append_assoc]

theorem importSource?_importSource (h : indent.all isInline = true) (g : Gap) (source : Source)
    (s : Text) : ∃ found, importSource? (indent ++ ((Whole.importSource g source).text ++ s))
      = if (Whole.importSource g source).isRead then some (found, skipEnd s) else none := by
  rw [importSource?, text_importSource, afterImport?_append h, Option.bind_eq_bind, Option.bind_some,
    source?_gap, Whole.isRead]
  refine ⟨{ source := source.name }, ?_⟩
  split <;> rfl

/-- In front of a source no reader sees a name or a clause. -/
theorem start_importSource (h : indent.all isInline = true) (g : Gap) (source : Source) (s : Text) :
    ∀ r ∈ (afterImport? (indent ++ ((Whole.importSource g source).text ++ s))).bind Text.spaces?,
      ∃ d t, EndsClause d ∧ r = d :: t := by
  intro r hr
  rw [text_importSource, afterImport?_append h, Option.bind_some, source.text_append] at hr
  obtain ⟨-, hspaces⟩ | ⟨-, hodd⟩ := g.spaces?_append (s := source.name ++ source.closing :: s)
    source.isSpace_quote
  · rw [hspaces] at hr
    exact ⟨source.quote, _, source.endsClause_quote, (Option.some.inj hr).symm⟩
  · obtain ⟨d, t, hd, rfl⟩ := hodd r hr
    exact ⟨d, t, endsClause_of_isOdd hd, rfl⟩

theorem importRequire?_importSource (h : indent.all isInline = true) (g : Gap) (source : Source)
    (s : Text) : importRequire? (indent ++ ((Whole.importSource g source).text ++ s)) = none :=
  importRequire?_of_endsClause (start_importSource h g source s)

theorem importFrom?_importSource (h : indent.all isInline = true) (g : Gap) (source : Source)
    (s : Text) : importFrom? (indent ++ ((Whole.importSource g source).text ++ s)) = none :=
  importFrom?_of_endsClause (start_importSource h g source s)

/-! ### Lists of exports -/

theorem text_exportList (g : Gap) (list : Text) (source : Option FromSource) (hlist : '}' ∉ list)
    (s : Text) : indent ++ ((Whole.exportList g list source hlist).text ++ s)
      = indent ++ ("export".toList ++ (g.text ++ '{' :: (list ++ '}' ::
        ((source.map FromSource.text).getD [] ++ s)))) := by
  show indent ++ ("export".toList ++ (g.text ++ '{' :: (list ++ '}' ::
    (source.map FromSource.text).getD [])) ++ s) = _
  simp only [List.append_assoc, List.cons_append]

theorem fromSource?_fromSource (f : FromSource) (s : Text) :
    fromSource? (f.text ++ s) = some (f.source.name, s) := by
  have hbehind : ∀ c ∈ f.behind, isSpace c = true := List.all_eq_true.mp f.blankBehind
  have hbefore : ∀ c ∈ f.before, isSpace c = true := List.all_eq_true.mp f.blankBefore
  have hfrom : Text.skipSpaces (f.text ++ s) = "from".toList ++ (f.behind ++ (f.source.text ++ s)) := by
    have htext : f.text ++ s = f.before ++ ("from".toList ++ (f.behind ++ (f.source.text ++ s))) := by
      simp only [FromSource.text, List.append_assoc]
    rw [htext]
    exact Text.dropWhile_append hbefore (Text.stops_cons.mpr rfl)
  have hsource : Text.skipSpaces (f.behind ++ (f.source.text ++ s)) = f.source.text ++ s := by
    rw [f.source.text_append]
    exact Text.dropWhile_append hbehind (Text.stops_cons.mpr f.source.isSpace_quote)
  rw [fromSource?, hfrom, Text.after?_append_self, Option.bind_eq_bind, Option.bind_some, hsource,
    f.source.source?_append, f.isRead]
  rfl

theorem exportList?_exportList (h : indent.all isInline = true) (g : Gap) (list : Text)
    (source : Option FromSource) (hlist : '}' ∉ list) (hs : source = none → fromSource? s = none) :
    ∃ found, exportList? (indent ++ ((Whole.exportList g list source hlist).text ++ s))
      = if (Whole.exportList g list source hlist).isRead then some (found, skipEnd s) else none := by
  rw [text_exportList, Whole.isRead]
  obtain ⟨hwide, hstart⟩ | ⟨hnot, hodd⟩ := start_export (s := list ++ '}' ::
    ((source.map FromSource.text).getD [] ++ s)) h g (by decide : isSpace '{' = false)
  · have htype : skipWord "type".toList ('{' :: (list ++ '}' ::
        ((source.map FromSource.text).getD [] ++ s))) = '{' :: (list ++ '}' ::
        ((source.map FromSource.text).getD [] ++ s)) := rfl
    have hbrace : Text.after? ['{'] ('{' :: (list ++ '}' ::
        ((source.map FromSource.text).getD [] ++ s))) = some (list ++ '}' ::
        ((source.map FromSource.text).getD [] ++ s)) := rfl
    simp only [exportList?, hstart, Option.bind_eq_bind, Option.bind_some, htype, hbrace,
      Text.cutFirst_append hlist, hwide, if_true]
    cases source with
    | none =>
      have hnone : fromSource? (((none : Option FromSource).map FromSource.text).getD [] ++ s) = none :=
        hs rfl
      rw [hnone]
      exact ⟨_, rfl⟩
    | some f =>
      have hfound : fromSource? (((some f).map FromSource.text).getD [] ++ s)
          = some (f.source.name, s) := fromSource?_fromSource f s
      rw [hfound]
      exact ⟨_, rfl⟩
  · refine ⟨[], ?_⟩
    rw [hnot]
    exact exportList?_of_comesTo (c := '/') (comesTo_of_startsOdd hodd) (by decide) (by decide)

/-- In front of a sign behind `export`, only the reader for lists or the one for stars goes on. -/
theorem comesTo_exportList (h : indent.all isInline = true) (g : Gap) (list : Text)
    (source : Option FromSource) (hlist : '}' ∉ list) (s : Text) :
    ComesTo '{' ((afterExport? (indent ++ ((Whole.exportList g list source hlist).text ++ s))).bind
      Text.spaces?) := by
  rw [text_exportList]
  exact comesTo_export h g (by decide)

theorem exportAssign?_exportList (h : indent.all isInline = true) (g : Gap) (list : Text)
    (source : Option FromSource) (hlist : '}' ∉ list) (s : Text) :
    exportAssign? (indent ++ ((Whole.exportList g list source hlist).text ++ s)) = none := by
  rw [text_exportList]
  exact exportAssign?_export h g (by decide) (by decide)

/-! ### Exports of all names -/

theorem text_exportAll (g : Gap) (renamed : Alias) (behind : Gap) (source : Source) (s : Text) :
    indent ++ ((Whole.exportAll g renamed behind source).text ++ s)
      = indent ++ ("export".toList ++ (g.text ++ '*' :: (renamed.text ++
        ("from".toList ++ (behind.text ++ (source.text ++ s)))))) := by
  show indent ++ ("export".toList ++ (g.text ++ '*' :: (renamed.text ++
    ("from".toList ++ (behind.text ++ source.text)))) ++ s) = _
  simp only [List.append_assoc, List.cons_append]

theorem comesTo_exportAll (h : indent.all isInline = true) (g : Gap) (renamed : Alias)
    (behind : Gap) (source : Source) (s : Text) :
    ComesTo '*' ((afterExport? (indent ++ ((Whole.exportAll g renamed behind source).text ++ s))).bind
      Text.spaces?) := by
  rw [text_exportAll]
  exact comesTo_export h g (by decide)

theorem exportAssign?_exportAll (h : indent.all isInline = true) (g : Gap) (renamed : Alias)
    (behind : Gap) (source : Source) (s : Text) :
    exportAssign? (indent ++ ((Whole.exportAll g renamed behind source).text ++ s)) = none := by
  rw [text_exportAll]
  exact exportAssign?_export h g (by decide) (by decide)

/-- Without a name behind `as`, the text in front of `from` is not passed over. -/
theorem skipAlias_of_none {x : Text}
    (h : ∀ r ∈ Text.spaces? x, ∀ y ∈ Text.after? "as".toList r, ∀ z ∈ Text.spaces? y, name? z = none) :
    skipAlias x = x := by
  rw [skipAlias]
  cases hx : Text.spaces? x with
  | none => rfl
  | some r =>
    cases hy : Text.after? "as".toList r with
    | none => simp only [Option.bind_eq_bind, Option.bind_some, hy, Option.bind_none]
    | some y =>
      cases hz : Text.spaces? y with
      | none => simp only [Option.bind_eq_bind, Option.bind_some, hy, hz, Option.bind_none]
      | some z =>
        have hnone := h r hx y hy z hz
        simp only [Option.bind_eq_bind, Option.bind_some, hy, hz, hnone]

theorem name?_of_startsOdd (h : StartsOdd s) : name? s = none := by
  obtain ⟨d, t, hodd, rfl⟩ := h
  have hname : ¬isNameChar d = true := by
    rw [isNameChar_of_isOdd hodd]
    exact Bool.false_ne_true
  rw [name?, List.takeWhile_cons_of_neg hname]
  rfl

/-- A gap that is not empty ends a name. -/
theorem Gap.stops_isNameChar (g : Gap) (hne : g.text ≠ []) (s : Text) :
    Stops isNameChar (g.text ++ s) := by
  cases htext : g.text with
  | nil => exact absurd htext hne
  | cons d t =>
    refine Text.stops_cons.mpr ?_
    by_cases hspace : isSpace d = true
    · exact isNameChar_of_isSpace hspace
    · have hskip : Text.skipSpaces g.text = d :: t := by
        rw [htext]
        exact skipSpaces_cons (Bool.eq_false_of_not_eq_true hspace)
      exact isNameChar_of_isOdd (g.odd d (by rw [hskip]; rfl))

/-- In front of a blank or of nothing a name is passed over whole. -/
theorem skipAlias_eq {x y z name rest : Text} (hx : Text.spaces? x = some ("as".toList ++ y))
    (hy : Text.spaces? y = some z) (hz : name? z = some (name, rest)) : skipAlias x = rest := by
  have has : Text.after? "as".toList ("as".toList ++ y) = some y := Text.after?_append_self _ y
  simp only [skipAlias, hx, Option.bind_eq_bind, Option.bind_some, has, hy, hz]

theorem name?_append (hne : u ≠ []) (hu : ∀ c ∈ u, isNameChar c = true) (s : Text) :
    ∃ name, name? (u ++ s) = some (name, s.dropWhile isNameChar) := by
  have htake : (u ++ s).takeWhile isNameChar = u ++ s.takeWhile isNameChar :=
    List.takeWhile_append_of_pos hu
  have hdrop : (u ++ s).dropWhile isNameChar = s.dropWhile isNameChar :=
    List.dropWhile_append_of_pos hu
  have hnonempty : (u ++ s.takeWhile isNameChar).isEmpty = false := by simp [hne]
  rw [name?, htake, hdrop, hnonempty]
  exact ⟨_, rfl⟩

/-- A name that is none to the reader is not read, or not up to its end. -/
theorem AliasName.name?_of_not_all (name : AliasName) (h : name.text.all isNameChar = false)
    (s : Text) : name? (name.text ++ s) = none ∨
      ∃ read rest, name? (name.text ++ s) = some (read, rest) ∧ Text.spaces? rest = none := by
  obtain ⟨u, d, t, htext, hu, hd⟩ := exists_cons_of_not_all h
  have hstop : Stops isNameChar (d :: (t ++ s)) := Text.stops_cons.mpr hd
  have hsplit : name.text ++ s = u ++ d :: (t ++ s) := by
    rw [htext, List.append_assoc, List.cons_append]
  rw [hsplit, name?, Text.takeWhile_append hu hstop, Text.dropWhile_append hu hstop]
  cases u with
  | nil => exact Or.inl rfl
  | cons c u =>
    right
    refine ⟨c :: u, d :: (t ++ s), rfl, ?_⟩
    have hspace : isSpace d = false := by
      obtain hnone | ⟨q, hq, hquote⟩ := name.starts
      · exact hnone d (by rw [htext]; exact List.mem_append_right _ List.mem_cons_self)
      · rw [htext] at hq
        have hc : c = q := Option.some.inj hq
        have hname : isNameChar c = true := hu c List.mem_cons_self
        rw [isQuote_eq_false_of_isClauseChar (c := q) (by simp [isClauseChar, ← hc, hname])] at hquote
        cases hquote
    rw [Text.spaces?, if_neg (by rw [hspace]; exact Bool.false_ne_true)]

/-- A comment in front of `as` is not passed over. -/
theorem skipAlias_of_startsOdd {x : Text} (h : ∀ r ∈ Text.spaces? x, StartsOdd r) :
    skipAlias x = x := by
  refine skipAlias_of_none fun r hr y hy => ?_
  obtain ⟨d, t, hd, rfl⟩ := h r hr
  have hnone : Text.after? "as".toList (d :: t) = none := by
    obtain rfl | rfl := isOdd_cases hd <;> rfl
  rw [hnone] at hy
  cases hy

/-- Behind a name that is read, a source is found behind blanks. -/
theorem spaces?_gap_from (gap : Gap) {x : Text}
    (hx : ∀ r ∈ Text.spaces? (x.dropWhile isNameChar), fromSource? r = none) :
    gap.isWide = true ∧ Text.spaces? ((gap.text ++ ("from".toList ++ x)).dropWhile isNameChar)
        = some ("from".toList ++ x) ∨
      gap.isWide = false ∧ ∀ r ∈ Text.spaces? ((gap.text ++ ("from".toList ++ x)).dropWhile isNameChar),
        fromSource? r = none := by
  by_cases hgap : gap.text = []
  · right
    have hdrop : ("from".toList ++ x).dropWhile isNameChar = x.dropWhile isNameChar :=
      List.dropWhile_append_of_pos (List.all_eq_true.mp (by decide))
    rw [Gap.isWide, hgap, List.nil_append, hdrop]
    exact ⟨rfl, hx⟩
  · rw [Text.dropWhile_of_stops (gap.stops_isNameChar hgap _)]
    exact (gap.spaces?_append (by decide : isSpace 'f' = false)).imp_right
      (And.imp_right fun h r hr => fromSource?_of_startsOdd (h r hr))

/-- Without a name behind it, `as` is not passed over, and no source stands there. -/
theorem fromSource?_of_unnamed {x y : Text} (hx : Text.spaces? x = some ("as".toList ++ y))
    (hname : ∀ z ∈ Text.spaces? y, name? z = none) :
    ∀ r ∈ Text.spaces? (skipAlias x), fromSource? r = none := by
  have hstays : skipAlias x = x := by
    refine skipAlias_of_none fun r hr z hz u hu => ?_
    rw [hx] at hr
    rw [← Option.some.inj hr, Text.after?_append_self] at hz
    rw [← Option.some.inj hz] at hu
    exact hname u hu
  intro r hr
  rw [hstays, hx] at hr
  rw [← Option.some.inj hr]
  rfl

theorem AliasName.exists_cons (name : AliasName) :
    ∃ c n, name.text = c :: n ∧ isSpace c = false := by
  obtain ⟨c, n, hname⟩ := List.exists_cons_of_ne_nil name.ne_nil
  refine ⟨c, n, hname, ?_⟩
  obtain hnone | ⟨q, hq, hquote⟩ := name.starts
  · exact hnone c (by rw [hname]; exact List.mem_cons_self)
  · rw [hname] at hq
    rw [Option.some.inj hq]
    exact isSpace_eq_false_of_isQuote hquote

/-- A name behind `as` and blanks leads to a source if it is one to the reader, with a blank behind
it. -/
theorem spaces?_skipAlias_name (name : AliasName) (gap : Gap) {x y z : Text}
    (hx : ∀ r ∈ Text.spaces? (x.dropWhile isNameChar), fromSource? r = none)
    (hy : Text.spaces? y = some ("as".toList ++ z))
    (hz : Text.spaces? z = some (name.text ++ (gap.text ++ ("from".toList ++ x)))) :
    (name.text.all isNameChar && gap.isWide) = true ∧
        Text.spaces? (skipAlias y) = some ("from".toList ++ x) ∨
      (name.text.all isNameChar && gap.isWide) = false ∧
        ∀ r ∈ Text.spaces? (skipAlias y), fromSource? r = none := by
  by_cases hall : name.text.all isNameChar = true
  · obtain ⟨read, hread⟩ := name?_append name.ne_nil (List.all_eq_true.mp hall)
      (gap.text ++ ("from".toList ++ x))
    rw [skipAlias_eq hy hz hread, hall]
    exact spaces?_gap_from gap hx
  · rw [Bool.eq_false_of_not_eq_true hall]
    refine Or.inr ⟨rfl, ?_⟩
    obtain hnone | ⟨read, rest, hread, hrest⟩ := name.name?_of_not_all
      (Bool.eq_false_of_not_eq_true hall) (gap.text ++ ("from".toList ++ x))
    · refine fromSource?_of_unnamed hy fun u hu => ?_
      rw [hz] at hu
      rw [← Option.some.inj hu]
      exact hnone
    · rw [skipAlias_eq hy hz hread, hrest]
      exact nofun

/-- Behind `as` and a name only a blank leads to a source. -/
theorem spaces?_skipAlias_given (before behind gap : Gap) (name : AliasName) {x : Text}
    (hx : ∀ r ∈ Text.spaces? (x.dropWhile isNameChar), fromSource? r = none) :
    (Alias.given before behind name gap).isRead = true ∧
        Text.spaces? (skipAlias ((Alias.given before behind name gap).text ++ ("from".toList ++ x)))
          = some ("from".toList ++ x) ∨
      (Alias.given before behind name gap).isRead = false ∧
        ∀ r ∈ Text.spaces? (skipAlias ((Alias.given before behind name gap).text ++
          ("from".toList ++ x))), fromSource? r = none := by
  have htext : (Alias.given before behind name gap).text ++ ("from".toList ++ x)
      = before.text ++ ("as".toList ++ (behind.text ++ (name.text ++ (gap.text ++
        ("from".toList ++ x))))) := by
    show before.text ++ ("as".toList ++ (behind.text ++ (name.text ++ gap.text))) ++ _ = _
    simp only [List.append_assoc]
  rw [htext, Alias.isRead]
  obtain ⟨hbefore, hstart⟩ | ⟨hbefore, hodd⟩ := before.spaces?_append (s := 's' ::
    (behind.text ++ (name.text ++ (gap.text ++ ("from".toList ++ x)))))
    (by decide : isSpace 'a' = false)
  case inr =>
    have hodd : ∀ r ∈ Text.spaces? (before.text ++ ("as".toList ++ (behind.text ++ (name.text ++
        (gap.text ++ ("from".toList ++ x)))))), StartsOdd r := hodd
    rw [hbefore, skipAlias_of_startsOdd hodd]
    exact Or.inr ⟨rfl, fun r hr => fromSource?_of_startsOdd (hodd r hr)⟩
  have hstart : Text.spaces? (before.text ++ ("as".toList ++ (behind.text ++ (name.text ++
      (gap.text ++ ("from".toList ++ x)))))) = some ("as".toList ++ (behind.text ++ (name.text ++
      (gap.text ++ ("from".toList ++ x))))) := hstart
  obtain ⟨c, n, hname, hc⟩ := name.exists_cons
  have hcons : name.text ++ (gap.text ++ ("from".toList ++ x))
      = c :: (n ++ (gap.text ++ ("from".toList ++ x))) := by
    rw [hname, List.cons_append]
  obtain ⟨hbehind, hspaces⟩ | ⟨hbehind, hodd⟩ := behind.spaces?_append (s := n ++ (gap.text ++
    ("from".toList ++ x))) hc
  · rw [← hcons] at hspaces
    rw [hbefore, hbehind]
    exact spaces?_skipAlias_name name gap hx hstart hspaces
  · rw [← hcons] at hodd
    rw [hbefore, hbehind]
    exact Or.inr ⟨rfl, fromSource?_of_unnamed hstart fun z hz => name?_of_startsOdd (hodd z hz)⟩

/-- What stands behind `*` up to a source is passed over if its parts are blanks and names. -/
theorem spaces?_skipAlias (renamed : Alias) {x : Text}
    (hx : ∀ r ∈ Text.spaces? (x.dropWhile isNameChar), fromSource? r = none) :
    renamed.isRead = true ∧ Text.spaces? (skipAlias (renamed.text ++ ("from".toList ++ x)))
        = some ("from".toList ++ x) ∨
      renamed.isRead = false ∧ ∀ r ∈ Text.spaces? (skipAlias (renamed.text ++ ("from".toList ++ x))),
        fromSource? r = none := by
  cases renamed with
  | given before behind name gap => exact spaces?_skipAlias_given before behind gap name hx
  | absent gap =>
    show gap.isWide = true ∧ Text.spaces? (skipAlias (gap.text ++ 'f' :: ("rom".toList ++ x))) = _ ∨
      gap.isWide = false ∧ ∀ r ∈ Text.spaces? (skipAlias (gap.text ++ 'f' :: ("rom".toList ++ x))),
        fromSource? r = none
    obtain ⟨hwide, hstart⟩ | ⟨hwide, hodd⟩ := gap.spaces?_append (s := "rom".toList ++ x)
      (by decide : isSpace 'f' = false)
    · have hskip : skipAlias (gap.text ++ 'f' :: ("rom".toList ++ x))
          = gap.text ++ 'f' :: ("rom".toList ++ x) := by
        refine skipAlias_of_none fun r hr y hy => ?_
        rw [hstart] at hr
        rw [← Option.some.inj hr] at hy
        cases hy
      rw [hskip]
      exact Or.inl ⟨hwide, hstart⟩
    · rw [skipAlias_of_startsOdd hodd]
      exact Or.inr ⟨hwide, fun r hr => fromSource?_of_startsOdd (hodd r hr)⟩

/-- Behind a gap there is a source and no `from`. -/
theorem spaces?_gap_source (g : Gap) (source : Source) (s : Text) :
    ∀ r ∈ Text.spaces? ((g.text ++ (source.text ++ s)).dropWhile isNameChar), fromSource? r = none := by
  have hquote : ∀ t, fromSource? (source.quote :: t) = none := by
    intro t
    have hisQuote := source.isQuote
    simp only [Script.isQuote, Bool.or_eq_true, beq_iff_eq] at hisQuote
    rw [fromSource?, skipSpaces_cons source.isSpace_quote]
    rcases hisQuote with h | h <;> rw [h] <;> rfl
  have hname : isNameChar source.quote = false := by
    by_contra hname
    have hclause : isClauseChar source.quote = true := by
      simp [isClauseChar, Bool.eq_true_of_not_eq_false hname]
    rw [source.endsClause_quote] at hclause
    cases hclause
  intro r hr
  rw [source.text_append] at hr
  have hdrop : (g.text ++ source.quote :: (source.name ++ source.closing :: s)).dropWhile isNameChar
      = g.text ++ source.quote :: (source.name ++ source.closing :: s) := by
    refine Text.dropWhile_of_stops ?_
    by_cases hgap : g.text = []
    · rw [hgap]
      exact Text.stops_cons.mpr hname
    · exact g.stops_isNameChar hgap _
  rw [hdrop] at hr
  obtain ⟨-, hspaces⟩ | ⟨-, hodd⟩ := g.spaces?_append (s := source.name ++ source.closing :: s)
    source.isSpace_quote
  · rw [hspaces] at hr
    rw [← Option.some.inj hr]
    exact hquote _
  · exact fromSource?_of_startsOdd (hodd r hr)

theorem exportStar?_exportAll (h : indent.all isInline = true) (g : Gap) (renamed : Alias)
    (behind : Gap) (source : Source) (s : Text) :
    exportStar? (indent ++ ((Whole.exportAll g renamed behind source).text ++ s))
      = if (Whole.exportAll g renamed behind source).isRead then some ((), skipEnd s) else none := by
  rw [text_exportAll, Whole.isRead]
  obtain ⟨hwide, hstart⟩ | ⟨hnot, hodd⟩ := start_export (s := renamed.text ++
    ("from".toList ++ (behind.text ++ (source.text ++ s)))) h g (by decide : isSpace '*' = false)
  · have hstar : Text.after? ['*'] ('*' :: (renamed.text ++
        ("from".toList ++ (behind.text ++ (source.text ++ s))))) = some (renamed.text ++
        ("from".toList ++ (behind.text ++ (source.text ++ s)))) := rfl
    simp only [exportStar?, hstart, Option.bind_eq_bind, Option.bind_some, hstar, hwide,
      Bool.true_and]
    obtain ⟨hread, hskip⟩ | ⟨hnot, hnone⟩ := spaces?_skipAlias renamed
      (spaces?_gap_source behind source s)
    · simp only [hskip, Option.bind_some, fromSource?_gap, hread, Bool.true_and]
      split <;> rfl
    · rw [hnot, Bool.false_and, Bool.false_and]
      cases hs : Text.spaces? (skipAlias (renamed.text ++
          ("from".toList ++ (behind.text ++ (source.text ++ s))))) with
      | none => rfl
      | some r => simp only [Option.bind_some, hnone r hs, Option.bind_none]; rfl
  · rw [hnot]
    exact exportStar?_of_comesTo (c := '/') (comesTo_of_startsOdd hodd) (by decide)

end Layout

end Module

end LivePreview
