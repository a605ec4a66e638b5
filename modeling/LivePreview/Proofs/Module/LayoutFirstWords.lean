/-
Passes for the first words of statements.

Behind the passes that take statements out, a line starts with a statement that no reader takes,
with one that loses its first words, or with none.  Three passes are for the first words: one for
functions and classes that are exported as the default, one for other default exports and one for
declarations.  What each of them writes keeps its line from looking like a module statement, so a
row that it has changed is one that no later pass changes.
-/
import LivePreview.Proofs.Module.LayoutPasses
import LivePreview.Proofs.Module.LayoutRows

namespace LivePreview.Module.Layout

open Script
open Text (LineEnds linesAvoid Heeds Piece pieces Stops)

variable {α : Type} {find : Text → Option (α × Text)} {write : α → Text → Prop}
  {P : Text → List Text → Prop} {shown : List Text} {indent front s t u v b e : Text} {a : α}

/-! ### Words that keep lines from counting -/

/-- In front of any text, the text starts no line that counts. -/
def Inert (u : Text) : Prop := ∀ t, counts (u ++ t) = false ∧ counting (u ++ t) = counting t

theorem inert_cons {c : Char} (hc : isInline c = false ∧ c ≠ 'i' ∧ c ≠ 'e') (hu : '\n' ∉ c :: u) :
    Inert (c :: u) := by
  intro t
  refine ⟨?_, counting_append hu t⟩
  have himport : Text.after? "import".toList (c :: (u ++ t)) = none := if_neg hc.2.1.symm
  have hexport : Text.after? "export".toList (c :: (u ++ t)) = none := if_neg hc.2.2.symm
  rw [List.cons_append, counts, afterImport?, afterExport?, Text.skipInline_cons hc.1, himport,
    hexport]
  rfl

namespace Inert

theorem append_blanks (hu : Inert u) (hb : ∀ c ∈ b, isSpace c = true) (hv : Inert v) :
    Inert (u ++ (b ++ v)) := by
  intro t
  have htext : u ++ (b ++ v) ++ t = u ++ (b ++ (v ++ t)) := by simp only [List.append_assoc]
  rw [htext]
  refine ⟨(hu _).1, ?_⟩
  rw [(hu _).2, counting_blanks hb (hv t).1, (hv t).2]

end Inert

theorem inert_function : Inert "function".toList := inert_cons (by decide) (by decide)

theorem inert_class : Inert "class".toList := inert_cons (by decide) (by decide)

/-- A row behind a pass for first words starts with words that keep it from counting. -/
theorem row_of_counting (hcounts : counts t = false) (hcounting : counting t = counting s)
    (havoids : linesAvoid opensModule false s = true) : Row P t (remainingLater s) := by
  have hlooks := remainingStatements_of_false (looksLikeStatement_of_counts hcounts)
  exact .settled (settled_of_opensModule (opensModule_of_counts hcounts)
    (linesAvoid_of_counting hcounting havoids)) (hlooks.trans (remainingLater_of_counting hcounting))

/-! ### Rows that are changed -/

/-- A finding that takes the front of a row, where what is written makes a row with the rest. -/
theorem becomes_of_front (hf : Heeds opensModule find) (he : LineEnds e) (hfront : front ≠ [])
    (hfound : find (front ++ (s ++ e)) = some (a, s ++ e))
    (havoids : linesAvoid opensModule false (front ++ s) = true)
    (hrow : ∀ w, write a w → Row P (w ++ s) shown)
    (h : Written write (pieces find (front ++ (s ++ e))) t) : Becomes find write P e t shown := by
  have havoids := Text.linesAvoid_behind havoids
  rw [Text.startsBehind_of_ne_nil hfront false true] at havoids
  rw [hf.pieces_of_front he hfront hfound havoids] at h
  obtain ⟨w, t', hw, rfl, hlater⟩ := h.exists_found
  refine Or.inl ⟨w ++ s, t', ?_, hlater, hrow w hw⟩
  simp only [List.append_assoc]

/-- A row that waits: first words that are seen, of statements that `p` holds for. -/
def Waits (p : Front → Prop) (row : Text) (shown : List Text) : Prop :=
  ∃ (indent : Text) (f : Front), indent.all isInline = true ∧ p f ∧ f.isRead = true ∧
    linesAvoid opensModule false row = true ∧ row = indent ++ f.text ∧ f.left = shown

/-- True of a declaration, and not of a default export. -/
def Front.isDeclaration : Front → Bool
  | default .. => false
  | declaration .. => true

/-! ### Default exports -/

section

variable {gap : Gap} {blanks : Text} {value : Value} {blank : Text.isBlankText blanks = true}

theorem Front.text_default (indent s : Text) :
    indent ++ ((Front.default gap blanks value blank).text ++ s)
      = indent ++ ("export".toList ++ (gap.text ++ ("default".toList ++ (blanks ++ (value.text ++ s))))) := by
  show indent ++ ("export".toList ++ (gap.text ++ ("default".toList ++ (blanks ++ value.text))) ++ s)
    = _
  simp only [List.append_assoc]

theorem Value.spaces?_text (value : Value) (s : Text) :
    Text.skipSpaces (value.text ++ s) = value.text ++ s ∧ Text.spaces? (value.text ++ s) = none := by
  have hstarts := value.starts
  cases hvalue : value.text with
  | nil =>
    rw [hvalue] at hstarts
    cases hstarts
  | cons c w =>
    rw [hvalue] at hstarts
    have hc : isSpace c = false := by simpa using hstarts
    exact ⟨skipSpaces_cons hc, if_neg (by rw [hc]; exact Bool.false_ne_true)⟩

theorem start_default (h : indent.all isInline = true)
    (hread : (Front.default gap blanks value blank).isRead = true) (s : Text) :
    afterExportDefault? (indent ++ ((Front.default gap blanks value blank).text ++ s))
      = some (value.text ++ s) := by
  rw [Front.isRead, Bool.and_eq_true] at hread
  obtain ⟨hwide, hblanks⟩ := hread
  obtain ⟨-, hstart⟩ | ⟨hnot, -⟩ := start_export (s := "efault".toList ++ (blanks ++ (value.text ++ s)))
    h gap (by decide : isSpace 'd' = false)
  case inr => rw [hwide] at hnot; cases hnot
  have hstart : (afterExport? (indent ++ ((Front.default gap blanks value blank).text ++ s))).bind
      Text.spaces? = some ("default".toList ++ (blanks ++ (value.text ++ s))) := by
    rw [Front.text_default]
    exact hstart
  have hspaces : Text.spaces? (blanks ++ (value.text ++ s)) = some (value.text ++ s) := by
    have hblank : ∀ c ∈ blanks, isSpace c = true := List.all_eq_true.mp blank
    cases hb : blanks with
    | nil =>
      rw [hb] at hblanks
      cases hblanks
    | cons c w =>
      rw [hb] at hblank
      have hskip : Text.skipSpaces (w ++ (value.text ++ s)) = Text.skipSpaces (value.text ++ s) :=
        List.dropWhile_append_of_pos fun d hd => hblank d (List.mem_cons_of_mem c hd)
      rw [List.cons_append, Text.spaces?, if_pos (hblank c List.mem_cons_self), hskip,
        (value.spaces?_text s).1]
  rw [afterExportDefault?, hstart, Option.bind_eq_bind, Option.bind_some, Text.after?_append_self,
    Option.bind_some, hspaces]

theorem indentOf_append (h : indent.all isInline = true) (f : Front) (s : Text) :
    indentOf (indent ++ (f.text ++ s)) = indent := by
  obtain ⟨t, htext⟩ := f.exists_cons s
  rw [htext]
  exact Text.takeWhile_append (List.all_eq_true.mp h) (Text.stops_cons.mpr (by decide))

end

/-! ### Heads of functions and classes -/

/-- Words that keep a line from counting, behind which blanks can be told from them. -/
structure HeadWords (u : Text) : Prop where
  inert : Inert u
  ends : ∃ c v, u.reverse = c :: v ∧ isSpace c = false

theorem HeadWords.trimEnd (hu : HeadWords u) (hb : ∀ c ∈ b, isSpace c = true) :
    Text.trimEnd (u ++ b) = u := by
  obtain ⟨c, v, hreverse, hc⟩ := hu.ends
  have hstop : Stops isSpace u.reverse := by
    rw [hreverse]
    exact Text.stops_cons.mpr hc
  have hblanks : ∀ c ∈ b.reverse, isSpace c = true := fun c hc => hb c (List.mem_reverse.mp hc)
  rw [Text.trimEnd, Text.trimEndBy, List.reverse_append, Text.dropWhile_append hblanks hstop,
    List.reverse_reverse]

theorem HeadWords.append (hu : Inert u) (hb : ∀ c ∈ b, isSpace c = true) (hv : HeadWords v) :
    HeadWords (u ++ (b ++ v)) := by
  obtain ⟨c, w, hreverse, hc⟩ := hv.ends
  refine ⟨hu.append_blanks hb hv.inert, c, w ++ (b.reverse ++ u.reverse), ?_, hc⟩
  simp [hreverse]

theorem inert_async : Inert "async".toList := inert_cons (by decide) (by decide)

theorem inert_abstract : Inert "abstract".toList := inert_cons (by decide) (by decide)

theorem headWords_function : HeadWords "function".toList :=
  ⟨inert_function, 'n', "oitcnuf".toList, rfl, by decide⟩

theorem headWords_star : HeadWords ['*'] :=
  ⟨inert_cons (by decide) (by decide), '*', [], rfl, by decide⟩

theorem headWords_class : HeadWords "class".toList :=
  ⟨inert_class, 's', "salc".toList, rfl, by decide⟩

/-- A word that is passed over stands in front, with blanks behind it. -/
theorem skipWord_cases (w s : Text) : skipWord w s = s ∨
    ∃ b, (∀ c ∈ b, isSpace c = true) ∧ s = w ++ (b ++ skipWord w s) := by
  unfold skipWord
  cases hword : Text.after? w s with
  | none => exact Or.inl rfl
  | some rest =>
    rw [Option.bind_some]
    cases rest with
    | nil => exact Or.inl rfl
    | cons c rest =>
      rw [Text.spaces?]
      by_cases hc : isSpace c = true
      · right
        refine ⟨c :: rest.takeWhile isSpace, ?_, ?_⟩
        · intro d hd
          rcases List.mem_cons.mp hd with rfl | hd
          · exact hc
          · exact List.mem_takeWhile_imp hd
        · have hrest : rest.takeWhile isSpace ++ Text.skipSpaces rest = rest :=
            List.takeWhile_append_dropWhile
          rw [if_pos hc, Option.getD_some, List.cons_append, hrest]
          exact Text.eq_append_of_after? hword
      · rw [if_neg hc]
        exact Or.inl rfl

/-- A head with one word more in front is a head. -/
theorem HeadWords.behind_skipWord {w rest : Text} (hw : Inert w) (hv : HeadWords v)
    (h : skipWord w s = v ++ rest) : ∃ u, HeadWords u ∧ s = u ++ rest := by
  obtain hskip | ⟨b, hb, hskip⟩ := skipWord_cases w s
  · exact ⟨v, hv, hskip.symm.trans h⟩
  · refine ⟨w ++ (b ++ v), HeadWords.append hw hb hv, ?_⟩
    rw [h] at hskip
    rw [hskip]
    simp only [List.append_assoc]

/-- What the reader takes for the head of a function or class.  Blanks are taken up only where
none are left behind them. -/
theorem exists_headWords {rest : Text} (h : afterDefaultHead? s = some rest) :
    ∃ u b, HeadWords u ∧ (∀ c ∈ b, isSpace c = true) ∧ s = u ++ (b ++ rest) ∧
      (b = [] ∨ Stops isSpace rest) := by
  unfold afterDefaultHead? at h
  cases hfunction : Text.afterWord? "function".toList (skipWord "async".toList s) with
  | none =>
    rw [hfunction] at h
    obtain ⟨u, hu, hs⟩ := headWords_class.behind_skipWord inert_abstract
      (Text.eq_append_of_afterWord? h)
    exact ⟨u, [], hu, List.forall_mem_nil _, hs, Or.inl rfl⟩
  | some behind =>
    rw [hfunction] at h
    have hword := Text.eq_append_of_afterWord? hfunction
    have hblank : ∀ c ∈ behind.takeWhile isSpace, isSpace c = true :=
      fun c hc => List.mem_takeWhile_imp hc
    have hbehind : behind.takeWhile isSpace ++ Text.skipSpaces behind = behind :=
      List.takeWhile_append_dropWhile
    dsimp only at h
    split at h
    · rename_i t hskip
      -- blanks in front of a star are part of the words
      cases h
      have hstar : skipWord "async".toList s
          = ("function".toList ++ (behind.takeWhile isSpace ++ ['*'])) ++ rest := by
        rw [hword]
        simp only [List.append_assoc, List.singleton_append]
        rw [← hskip, hbehind]
      obtain ⟨u, hu, hs⟩ := (HeadWords.append inert_function hblank headWords_star).behind_skipWord
        inert_async hstar
      exact ⟨u, [], hu, List.forall_mem_nil _, hs, Or.inl rfl⟩
    · have hrest := Option.some.inj h
      obtain ⟨u, hu, hs⟩ := headWords_function.behind_skipWord inert_async hword
      refine ⟨u, behind.takeWhile isSpace, hu, hblank, ?_, Or.inr ?_⟩
      · rw [hs, ← hrest, hbehind]
      · rw [← hrest]
        exact Text.stops_dropWhile isSpace behind

/-! ### Functions and classes -/

theorem nameAt_lineEnds (he : LineEnds e) (s : Text) : nameAt (s ++ e) = nameAt s := by
  by_cases hs : s = []
  · rw [hs]
    cases he <;> rfl
  · exact nameAt_append hs he

theorem nameAt_append_drop (s : Text) : nameAt s ++ s.drop (nameAt s).length = s := by
  have hprefix : nameAt s <+: s := by
    unfold nameAt
    split
    · exact List.takeWhile_prefix isNameChar
    · exact List.nil_prefix
  exact List.prefix_iff_eq_append.mp hprefix

theorem noNewline_nameAt (s : Text) : '\n' ∉ nameAt s := by
  intro h
  unfold nameAt at h
  split at h
  · have hname : isNameChar '\n' = true := List.mem_takeWhile_imp h
    exact absurd hname (by decide)
  · cases h

theorem noNewline_inline (h : b.all isInline = true) : '\n' ∉ b := by
  intro hmem
  have hinline := List.all_eq_true.mp h _ hmem
  exact absurd hinline (by decide)

theorem all_indentOf (s : Text) : (indentOf s).all isInline = true :=
  List.all_eq_true.mpr fun _ hc => List.mem_takeWhile_imp hc

theorem indentOf_append_skipInline (s : Text) : indentOf s ++ Text.skipInline s = s :=
  List.takeWhile_append_dropWhile

/-- What has no name at its front, or `extends` in place of it, does not count. -/
theorem counts_of_isMissing (hs : Stops isInline s) (h : isMissing (nameAt s) = true) :
    counts s = false := by
  have hskip : Text.skipInline s = s := Text.skipInline_of_stops hs
  rw [isMissing, Bool.or_eq_true, List.isEmpty_iff, beq_iff_eq] at h
  rw [counts, afterImport?, afterExport?, hskip]
  rcases h with hnil | hextends
  · cases s with
    | nil => rfl
    | cons c s =>
      have hstart : isIdentStart c = false := by
        by_contra hstart
        have hc : isIdentStart c = true := by simpa using hstart
        have hname : isNameChar c = true :=
          isNameChar_of_isIdentChar (isIdentChar_of_start hc)
        have hstarts : startsIdent (c :: s) = true := hc
        rw [nameAt, if_pos hstarts, List.takeWhile_cons_of_pos hname] at hnil
        cases hnil
      have hne : 'i' ≠ c ∧ 'e' ≠ c := by
        constructor <;> rintro rfl <;> exact absurd hstart (by decide)
      have himport : Text.after? "import".toList (c :: s) = none := if_neg hne.1
      have hexport : Text.after? "export".toList (c :: s) = none := if_neg hne.2
      rw [himport, hexport]
      rfl
  · rw [← nameAt_append_drop s, hextends]
    rfl

section

variable {gap : Gap} {blanks : Text} {value : Value} {blank : Text.isBlankText blanks = true}
  {behind : Text}

/-- The reader of functions and classes goes on behind the words in front. -/
theorem defaultDeclaration?_default (h : indent.all isInline = true)
    (hread : (Front.default gap blanks value blank).isRead = true) (he : LineEnds e) :
    defaultDeclaration? (indent ++ ((Front.default gap blanks value blank).text ++ e))
      = (afterDefaultHead? value.text).map fun behind =>
        (⟨indent, Text.consumed value.text behind, indentOf behind, nameAt (Text.skipInline behind)⟩,
          (Text.skipInline behind).drop (nameAt (Text.skipInline behind)).length ++ e) := by
  rw [defaultDeclaration?, start_default h hread, Option.bind_eq_bind, Option.bind_some,
    value.complete e he, indentOf_append h]
  cases hhead : afterDefaultHead? value.text with
  | none => rfl
  | some behind =>
    obtain ⟨u, b, -, -, hvalue, -⟩ := exists_headWords hhead
    have htext : value.text = (u ++ b) ++ behind := by rw [hvalue, List.append_assoc]
    have hconsumed : Text.consumed (value.text ++ e) (behind ++ e)
        = Text.consumed value.text behind := by
      rw [htext, List.append_assoc, Text.consumed_append, Text.consumed_append]
    have hgap : indentOf (behind ++ e) = indentOf behind :=
      Text.takeWhile_append_of_stops (he.stops (by decide))
    have hname := nameAt_lineEnds he (Text.skipInline behind)
    rw [nameAt, ← skipInline_append he] at hname
    have hdrop : (Text.skipInline (behind ++ e)).drop (nameAt (Text.skipInline behind)).length
        = (Text.skipInline behind).drop (nameAt (Text.skipInline behind)).length ++ e := by
      have hle : (nameAt (Text.skipInline behind)).length ≤ (Text.skipInline behind).length := by
        have hlength := congrArg List.length (nameAt_append_drop (Text.skipInline behind))
        rw [List.length_append] at hlength
        omega
      rw [skipInline_append he, List.drop_append_of_le_length hle]
    simp only [Option.map_some, Option.bind_some, hconsumed, hgap, hname, hdrop]
    rfl

/-- What is written for a function or class makes a row that no later pass changes. -/
theorem row_declaration (h : indent.all isInline = true)
    (hhead : afterDefaultHead? value.text = some behind)
    (havoids : linesAvoid opensModule false value.text = true) {w : Text}
    (hw : WrittenDeclaration ⟨indent, Text.consumed value.text behind, indentOf behind,
      nameAt (Text.skipInline behind)⟩ w) :
    Row P (w ++ (Text.skipInline behind).drop (nameAt (Text.skipInline behind)).length)
      (remainingLater value.text) := by
  obtain ⟨u, b, hu, hb, hvalue, hrest⟩ := exists_headWords hhead
  have hconsumed : Text.consumed value.text behind = u ++ b := by
    rw [hvalue, ← List.append_assoc, Text.consumed_append]
  have hname := nameAt_append_drop (Text.skipInline behind)
  have hbehind := indentOf_append_skipInline behind
  have hindent : ∀ s, counts (indent ++ (u ++ s)) = false ∧
      counting (indent ++ (u ++ s)) = counting s := by
    intro s
    rw [counts_inline h, counting_append (noNewline_inline h)]
    exact hu.inert s
  generalize hnamed : nameAt (Text.skipInline behind) = name at *
  generalize hlater : (Text.skipInline behind).drop name.length = rest at *
  rcases hw with ⟨-, rfl⟩ | ⟨hmissing, n, rfl⟩
  · -- the statement has lost the words in front, and nothing else
    have htext : indent ++ Text.consumed value.text behind ++ indentOf behind ++ name ++ rest
        = indent ++ (u ++ (b ++ behind)) := by
      rw [hconsumed]
      simp only [List.append_assoc]
      rw [hname, hbehind]
    dsimp only
    rw [htext]
    refine row_of_counting (hindent _).1 ?_ havoids
    rw [(hindent _).2, hvalue, (hu.inert _).2]
  · have htext : ∃ x, '\n' ∉ x ∧
        indent ++ Text.trimEnd (Text.consumed value.text behind) ++ ' ' :: anonymousName n ++
          (if name.isEmpty then [] else ' ' :: name) ++ rest = indent ++ (u ++ (x ++ rest)) := by
      refine ⟨' ' :: anonymousName n ++ (if name.isEmpty then [] else ' ' :: name), ?_, ?_⟩
      · have hnone := noNewline_nameAt (Text.skipInline behind)
        rw [hnamed] at hnone
        split <;> simp [noNewline_anonymousName n, hnone]
      · rw [hconsumed, hu.trimEnd hb]
        simp only [List.append_assoc]
    obtain ⟨x, hx, htext⟩ := htext
    have hcounting : counting (b ++ behind) = counting rest := by
      have hplain : counting behind = counting rest := by
        have hnone := noNewline_nameAt (Text.skipInline behind)
        rw [hnamed] at hnone
        rw [← hbehind, ← hname, counting_append (noNewline_inline (all_indentOf _)),
          counting_append hnone]
      rcases hrest with rfl | hstops
      · exact hplain
      · have hinline : Stops isInline behind := by
          refine Text.stops_mono (fun c hc => ?_) hstops
          simp only [isInline, Bool.or_eq_true, beq_iff_eq] at hc
          rcases hc with rfl | rfl <;> rfl
        rw [Text.skipInline_of_stops hinline] at hnamed
        rw [counting_blanks hb (counts_of_isMissing hinline (hnamed ▸ hmissing)), hplain]
    dsimp only
    rw [htext]
    refine row_of_counting (hindent _).1 ?_ havoids
    rw [(hindent _).2, hvalue, (hu.inert _).2, counting_append hx, hcounting]

/-- The reader of other default exports takes the line of a reference, and the words in front of
another value. -/
theorem exists_defaultExpression?_default (h : indent.all isInline = true)
    (hread : (Front.default gap blanks value blank).isRead = true) (he : LineEnds e) :
    ∃ reference, defaultExpression? (indent ++ ((Front.default gap blanks value blank).text ++ e))
      = some (⟨indent, reference⟩, if reference.isSome then (Text.skipLine value.text ++ e).drop 1
        else value.text ++ e) := by
  have hline : Text.firstLine (value.text ++ e) = Text.firstLine value.text :=
    Text.takeWhile_append_of_stops (he.stops (by decide))
  have hskip : Text.skipLine (value.text ++ e) = Text.skipLine value.text ++ e :=
    Text.dropWhile_append_of_stops (he.stops (by decide))
  refine ⟨reference? (Text.trimEnd (Text.trimEndBy (· == ';') (Text.trim
    (Text.firstLine value.text)))), ?_⟩
  rw [defaultExpression?, start_default h hread, indentOf_append h]
  simp only [Option.bind_eq_bind, Option.bind_some, hline, hskip]
  rfl

end

/-! ### The passes over rows -/

/-- A default export is its value with words in front. -/
theorem Front.exists_front_default (indent : Text) (gap : Gap) (blanks : Text) (value : Value)
    (blank : Text.isBlankText blanks = true) : ∃ front, front ≠ [] ∧
      indent ++ (Front.default gap blanks value blank).text = front ++ value.text := by
  refine ⟨indent ++ ("export".toList ++ (gap.text ++ ("default".toList ++ blanks))), by simp, ?_⟩
  have htext : indent ++ ((Front.default gap blanks value blank).text ++ []) = _ :=
    Front.text_default indent []
  rw [List.append_nil, List.append_nil] at htext
  rw [htext]
  simp only [List.append_assoc]

/-- True of what the pass for functions and classes does not find. -/
def Front.isPassed : Front → Bool
  | default _ _ value _ => (afterDefaultHead? value.text).isNone
  | declaration .. => true

/-- A row that waits for a pass and is not found by it waits for the next one. -/
theorem becomes_of_waits {p : Front → Prop} (hf : Heeds opensModule find) (he : LineEnds e)
    {row : Text} {f : Front} (hindent : indent.all isInline = true) (hp : p f)
    (hread : f.isRead = true) (havoids : linesAvoid opensModule false row = true)
    (hrow : row = indent ++ f.text) (hnone : find (row ++ e) = none)
    (h : Written write (pieces find (row ++ e)) t) :
    Becomes find write (Waits p) e t f.left :=
  becomes_of_none hf he hnone havoids (.waits ⟨indent, f, hindent, hp, hread, havoids, hrow, rfl⟩) h

theorem Front.text_declaration {gap : Gap} {opening : Opening} {tail : Text}
    {ends : Text.wordEnds tail = true} {c : Char} {w : Text} (hopening : opening.text = c :: w)
    (indent s : Text) : indent ++ ((Front.declaration gap opening tail ends).text ++ s)
      = indent ++ ("export".toList ++ (gap.text ++ c :: (w ++ (tail ++ s)))) := by
  show indent ++ ("export".toList ++ (gap.text ++ (opening.text ++ tail)) ++ s) = _
  rw [hopening]
  simp only [List.append_assoc, List.cons_append]

theorem afterExportDefault?_declaration (h : indent.all isInline = true) {gap : Gap}
    {opening : Opening} {tail : Text} {ends : Text.wordEnds tail = true} (s : Text) :
    afterExportDefault? (indent ++ ((Front.declaration gap opening tail ends).text ++ s)) = none := by
  have hletter : ∃ c w, opening.text = c :: w ∧ isSpace c = false ∧ c ≠ 'd' := by
    cases opening <;> exact ⟨_, _, rfl, by decide, by decide⟩
  obtain ⟨c, w, hopening, hc, hd⟩ := hletter
  rw [Front.text_declaration hopening]
  exact afterExportDefault?_of_comesTo (comesTo_export h gap hc) hd

/-- The pass for functions and classes. -/
theorem turns_defaultDeclaration : Turns defaultDeclaration? WrittenDeclaration
    (Waits fun _ => True) (Waits fun f => f.isPassed = true) where
  heeds := heeds_defaultDeclaration
  settled h he := h.declaration _ he
  waits {row e t shown} hwaits he h := by
    obtain ⟨indent, f, hindent, -, hread, havoids, hrow, rfl⟩ := hwaits
    cases f with
    | declaration gap opening tail ends =>
      refine becomes_of_waits heeds_defaultDeclaration he hindent rfl hread
        havoids hrow ?_ h
      rw [hrow, List.append_assoc, defaultDeclaration?, afterExportDefault?_declaration hindent]
      rfl
    | default gap blanks value blank =>
      have hfound := defaultDeclaration?_default hindent hread he
      rw [← List.append_assoc, ← hrow] at hfound
      cases hhead : afterDefaultHead? value.text with
      | none =>
        rw [hhead] at hfound
        refine becomes_of_waits heeds_defaultDeclaration he hindent ?_ hread
          havoids hrow hfound h
        show (afterDefaultHead? value.text).isNone = true
        rw [hhead]
        rfl
      | some behind =>
        rw [hhead, Option.map_some] at hfound
        obtain ⟨u, b, -, -, hvalue, -⟩ := exists_headWords hhead
        obtain ⟨front, hfront, hvalueFront⟩ := Front.exists_front_default indent gap blanks value blank
        rw [← hrow] at hvalueFront
        have hname := nameAt_append_drop (Text.skipInline behind)
        have hbehind := indentOf_append_skipInline behind
        have hrest : row = front ++ (u ++ (b ++ (indentOf behind ++ nameAt (Text.skipInline behind))))
            ++ (Text.skipInline behind).drop (nameAt (Text.skipInline behind)).length := by
          rw [hvalueFront, hvalue]
          simp only [List.append_assoc]
          rw [hname, hbehind]
        have hlater : linesAvoid opensModule false value.text = true := by
          rw [hvalueFront] at havoids
          exact Text.linesAvoid_false (Text.linesAvoid_behind havoids)
        rw [hrest, List.append_assoc] at hfound h
        rw [hrest] at havoids
        refine becomes_of_front heeds_defaultDeclaration he ?_ hfound havoids
          (fun w hw => row_declaration hindent hhead hlater hw) h
        exact List.append_ne_nil_of_left_ne_nil hfront _

/-- The first line of a text, and what is behind it. -/
theorem exists_laterLines (s : Text) : Text.skipLine s = [] ∨
    ∃ more, Text.skipLine s = '\n' :: more ∧ s = Text.firstLine s ++ ['\n'] ++ more := by
  have htext := Text.firstLine_append_skipLine s
  have hends := Text.lineEnds_skipLine s
  cases hskip : Text.skipLine s with
  | nil => exact Or.inl rfl
  | cons c more =>
    rw [hskip] at htext hends
    cases hends
    refine Or.inr ⟨more, rfl, ?_⟩
    simpa using htext.symm

/-- The line of a reference is gone, and what stands behind it has been looked for already. -/
theorem becomes_of_reference {reference : Option Text} (he : LineEnds e) (hfront : front ≠ [])
    (hreference : reference.isSome = true)
    (hfound : defaultExpression? (front ++ (s ++ e))
      = some (⟨indent, reference⟩, (Text.skipLine s ++ e).drop 1))
    (havoids : linesAvoid opensModule false (front ++ s) = true)
    (h : Written WrittenExpression (pieces defaultExpression? (front ++ (s ++ e))) t) :
    Becomes defaultExpression? WrittenExpression P e t (remainingLater s) := by
  have hnothing : ∀ {w}, WrittenExpression ⟨indent, reference⟩ w → w = [] := by
    rintro w (⟨-, rfl⟩ | ⟨hnone, -⟩)
    · rfl
    · rw [hreference] at hnone
      cases hnone
  obtain hnil | ⟨more, hmore, htext⟩ := exists_laterLines s
  · -- the statement is gone with the end of its line
    rw [hnil, List.nil_append, List.drop_one, ← List.append_assoc] at hfound
    rw [← List.append_assoc,
      Text.Heeds.pieces_of_all he (List.append_ne_nil_of_left_ne_nil hfront _) hfound] at h
    obtain ⟨w, t', hw, rfl, hwritten⟩ := h.exists_found (s := [])
    rw [hnothing hw]
    refine Or.inr ⟨hwritten, ?_⟩
    rw [remainingLater, hnil]
    rfl
  · have hrest : front ++ s = (front ++ (Text.firstLine s ++ ['\n'])) ++ more := by
      nth_rewrite 1 [htext]
      simp only [List.append_assoc]
    rw [hmore, List.cons_append, List.drop_one, List.tail_cons, ← List.append_assoc, hrest,
      List.append_assoc] at hfound
    rw [← List.append_assoc, hrest, List.append_assoc] at h
    rw [hrest] at havoids
    refine becomes_of_front heeds_defaultExpression he
      (List.append_ne_nil_of_left_ne_nil hfront _) hfound havoids (fun w hw => ?_) h
    have hmoreAvoids := Text.linesAvoid_behind havoids
    rw [← List.append_assoc, Text.startsBehind_newline] at hmoreAvoids
    rw [hnothing hw]
    refine .settled (settled_of_opensModule ?_ (Text.linesAvoid_false hmoreAvoids)) ?_
    · exact Text.test_of_linesAvoid rfl hmoreAvoids
    · rw [remainingLater, hmore]
      rfl

/-- A value behind the words that are written for it makes a row that no later pass changes. -/
theorem row_constant (h : indent.all isInline = true)
    (havoids : linesAvoid opensModule false s = true) (n : Nat) :
    Row P (indent ++ "const ".toList ++ anonymousName n ++ " = ".toList ++ s) (remainingLater s) := by
  have hwords : Inert ("const ".toList ++ (anonymousName n ++ " = ".toList)) := by
    have hnone : '\n' ∉ "const ".toList ++ (anonymousName n ++ " = ".toList) := by
      simp only [List.mem_append, not_or]
      exact ⟨by decide, noNewline_anonymousName n, by decide⟩
    exact inert_cons (by decide) hnone
  have htext : indent ++ "const ".toList ++ anonymousName n ++ " = ".toList ++ s
      = indent ++ (("const ".toList ++ (anonymousName n ++ " = ".toList)) ++ s) := by
    simp only [List.append_assoc]
  rw [htext]
  refine row_of_counting ?_ ?_ havoids
  · rw [counts_inline h]
    exact (hwords _).1
  · rw [counting_append (noNewline_inline h), (hwords _).2]

/-- The pass for other default exports. -/
theorem turns_defaultExpression : Turns defaultExpression? WrittenExpression
    (Waits fun f => f.isPassed = true) (Waits fun f => f.isDeclaration = true) where
  heeds := heeds_defaultExpression
  settled h he := h.expression _ he
  waits {row e t shown} hwaits he h := by
    obtain ⟨indent, f, hindent, -, hread, havoids, hrow, rfl⟩ := hwaits
    cases f with
    | declaration gap opening tail ends =>
      refine becomes_of_waits heeds_defaultExpression he hindent rfl hread havoids hrow ?_ h
      rw [hrow, List.append_assoc, defaultExpression?, afterExportDefault?_declaration hindent]
      rfl
    | default gap blanks value blank =>
      obtain ⟨reference, hfound⟩ := exists_defaultExpression?_default hindent hread he
      obtain ⟨front, hfront, hvalue⟩ := Front.exists_front_default indent gap blanks value blank
      rw [← List.append_assoc, hvalue, List.append_assoc] at hfound
      rw [hrow, hvalue, List.append_assoc] at h
      rw [hrow, hvalue] at havoids
      by_cases hreference : reference.isSome = true
      · rw [if_pos hreference] at hfound
        exact becomes_of_reference he hfront hreference hfound havoids h
      · rw [if_neg hreference] at hfound
        refine becomes_of_front heeds_defaultExpression he hfront hfound havoids ?_ h
        rintro w (⟨hyes, -⟩ | ⟨-, n, rfl⟩)
        · exact absurd hyes hreference
        · exact row_constant hindent (Text.linesAvoid_false (Text.linesAvoid_behind havoids)) n

/-! ### Declarations -/

theorem inert_opening {opening : Opening} (h : opening.isRead = true) : Inert opening.text := by
  cases opening with
  | function => exact inert_function
  | const => exact inert_cons (by decide) (by decide)
  | «let» => exact inert_cons (by decide) (by decide)
  | var => exact inert_cons (by decide) (by decide)
  | classDecl => exact inert_class
  | async gap =>
    rw [Opening.isRead, Gap.isWide, Bool.and_eq_true] at h
    exact inert_async.append_blanks (List.all_eq_true.mp h.2) inert_function

theorem wordEnds_lineEnds (he : LineEnds e) (hs : Text.wordEnds s = true) :
    Text.wordEnds (s ++ e) = true := by
  cases s with
  | cons c s => exact hs
  | nil =>
    cases he with
    | nil => exact hs
    | newline t => exact (by decide : Text.wordEnds ['\n'] = true)

theorem afterWord?_append (w : Text) (hs : Text.wordEnds s = true) :
    Text.afterWord? w (w ++ s) = some s := by
  rw [Text.afterWord?, Text.after?_append_self]
  exact if_pos hs

/-- A word that opens a declaration is read, if it is the first of them that stands there. -/
theorem findSome?_declarationWords (front : List Text) {later : List Text} {w : Text}
    (hwords : declarationWords = front ++ w :: later)
    (hfront : ∀ v ∈ front, Text.afterWord? v (w ++ s) = none) (hs : Text.wordEnds s = true) :
    (declarationWords.findSome? fun v => Text.afterWord? v (w ++ s)) = some s := by
  rw [hwords, List.findSome?_append, List.findSome?_eq_none_iff.mpr hfront, List.findSome?_cons,
    afterWord?_append w hs]
  rfl

/-- Where no word stands in front of it, the word that opens a declaration is looked for. -/
theorem afterDeclarationWords?_eq (hdeclare : Text.after? "declare".toList t = none)
    (hasync : Text.after? "async".toList t = none)
    (habstract : Text.after? "abstract".toList t = none) :
    afterDeclarationWords? (skipWord "declare".toList t)
      = declarationWords.findSome? fun v => Text.afterWord? v t := by
  have hskip : skipWord "declare".toList t = t := by
    rw [skipWord, hdeclare]
    rfl
  rw [hskip, afterDeclarationWords?]
  simp only [hasync, habstract, Option.bind_none, Option.bind_eq_bind, Option.none_or]

/-- The words that open a declaration are read, and nothing behind them. -/
theorem afterDeclarationWords?_opening {opening : Opening} (h : opening.isRead = true)
    (hs : Text.wordEnds s = true) :
    afterDeclarationWords? (skipWord "declare".toList (opening.text ++ s)) = some s := by
  cases opening with
  | function =>
    have heq := afterDeclarationWords?_eq (t := "function".toList ++ s) rfl rfl rfl
    exact heq.trans (findSome?_declarationWords [] rfl (List.forall_mem_nil _) hs)
  | const =>
    have heq := afterDeclarationWords?_eq (t := "const".toList ++ s) rfl rfl rfl
    refine heq.trans (findSome?_declarationWords ["function".toList] rfl ?_ hs)
    simp only [List.forall_mem_cons]
    exact ⟨rfl, nofun⟩
  | «let» =>
    have heq := afterDeclarationWords?_eq (t := "let".toList ++ s) rfl rfl rfl
    refine heq.trans (findSome?_declarationWords (["function", "const"].map String.toList)
      rfl ?_ hs)
    simp only [List.map_cons, List.forall_mem_cons]
    exact ⟨rfl, rfl, nofun⟩
  | var =>
    have heq := afterDeclarationWords?_eq (t := "var".toList ++ s) rfl rfl rfl
    refine heq.trans (findSome?_declarationWords
      (["function", "const", "let"].map String.toList) rfl ?_ hs)
    simp only [List.map_cons, List.forall_mem_cons]
    exact ⟨rfl, rfl, rfl, nofun⟩
  | classDecl =>
    have heq := afterDeclarationWords?_eq (t := "class".toList ++ s) rfl rfl rfl
    refine heq.trans (findSome?_declarationWords
      (["function", "const", "let", "var"].map String.toList) rfl ?_ hs)
    simp only [List.map_cons, List.forall_mem_cons]
    exact ⟨rfl, rfl, rfl, rfl, nofun⟩
  | async gap =>
    have hspaces : Text.spaces? (gap.text ++ ("function".toList ++ s))
        = some ("function".toList ++ s) := by
      obtain ⟨-, hspaces⟩ | ⟨hnot, -⟩ := gap.spaces?_append (s := "unction".toList ++ s)
        (by decide : isSpace 'f' = false)
      · exact hspaces
      · rw [Opening.isRead] at h
        rw [h] at hnot
        cases hnot
    have htext : (Opening.async gap).text ++ s
        = "async".toList ++ (gap.text ++ ("function".toList ++ s)) := by
      show "async".toList ++ (gap.text ++ "function".toList) ++ s = _
      rw [List.append_assoc, List.append_assoc]
    rw [htext]
    show Option.or ((Text.after? "async".toList ("async".toList ++
      (gap.text ++ ("function".toList ++ s)))).bind Text.spaces? >>= fun s =>
        Text.afterWord? "function".toList s) _ = some s
    rw [Text.after?_append_self, Option.bind_some, hspaces, Option.bind_eq_bind, Option.bind_some,
      afterWord?_append _ hs]
    rfl

/-- A declaration is found up to the words that open it. -/
theorem exportedDeclaration?_declaration (h : indent.all isInline = true) {gap : Gap}
    {opening : Opening} {tail : Text} {ends : Text.wordEnds tail = true}
    (hread : (Front.declaration gap opening tail ends).isRead = true) (he : LineEnds e) :
    exportedDeclaration? (indent ++ ((Front.declaration gap opening tail ends).text ++ e))
      = some (indent ++ opening.text, tail ++ e) := by
  rw [Front.isRead, Bool.and_eq_true] at hread
  have hletter : ∃ c w, opening.text = c :: w ∧ isSpace c = false := by
    cases opening <;> exact ⟨_, _, rfl, by decide⟩
  obtain ⟨c, w, hopening, hc⟩ := hletter
  have htext : indent ++ ((Front.declaration gap opening tail ends).text ++ e)
      = indent ++ ("export".toList ++ (gap.text ++ c :: (w ++ (tail ++ e)))) := by
    show indent ++ ("export".toList ++ (gap.text ++ (opening.text ++ tail)) ++ e) = _
    rw [hopening]
    simp only [List.append_assoc, List.cons_append]
  have hcons : c :: (w ++ (tail ++ e)) = opening.text ++ (tail ++ e) := by
    rw [hopening, List.cons_append]
  have hindent := indentOf_append h (.declaration gap opening tail ends) e
  have hwords := afterDeclarationWords?_opening hread.2 (wordEnds_lineEnds he ends)
  obtain ⟨-, hstart⟩ | ⟨hnot, -⟩ := start_export (s := w ++ (tail ++ e)) h gap hc
  · rw [htext] at hindent ⊢
    rw [hcons] at hindent hstart ⊢
    rw [exportedDeclaration?, hstart]
    simp only [Option.bind_eq_bind, Option.bind_some, hwords, hindent, Text.consumed_append]
    rfl
  · rw [hread.1] at hnot
    cases hnot

/-- The pass for declarations. -/
theorem turns_exportedDeclaration : Turns exportedDeclaration? (fun a w => w = a)
    (Waits fun f => f.isDeclaration = true) (fun _ _ => False) where
  heeds := heeds_exportedDeclaration
  settled h he := h.exported _ he
  waits {row e t shown} hwaits he h := by
    obtain ⟨indent, f, hindent, hp, hread, havoids, hrow, rfl⟩ := hwaits
    cases f with
    | default gap blanks value blank => cases hp
    | declaration gap opening tail ends =>
      have hfound := exportedDeclaration?_declaration hindent hread he
      have htext : row = (indent ++ ("export".toList ++ (gap.text ++ opening.text))) ++ tail := by
        rw [hrow]
        show indent ++ ("export".toList ++ (gap.text ++ (opening.text ++ tail))) = _
        simp only [List.append_assoc]
      have hlater : linesAvoid opensModule false (opening.text ++ tail) = true := by
        have hfront : row = (indent ++ ("export".toList ++ gap.text)) ++ (opening.text ++ tail) := by
          rw [htext]
          simp only [List.append_assoc]
        rw [hfront] at havoids
        exact Text.linesAvoid_false (Text.linesAvoid_behind havoids)
      have hinert : Inert opening.text := by
        rw [Front.isRead, Bool.and_eq_true] at hread
        exact inert_opening hread.2
      rw [← List.append_assoc, ← hrow, htext, List.append_assoc] at hfound
      rw [htext, List.append_assoc] at h
      rw [htext] at havoids
      refine becomes_of_front heeds_exportedDeclaration he (by simp) hfound havoids ?_ h
      rintro w rfl
      rw [List.append_assoc]
      refine row_of_counting ?_ ?_ hlater
      · rw [counts_inline hindent]
        exact (hinert _).1
      · exact counting_append (noNewline_inline hindent) _

end LivePreview.Module.Layout
