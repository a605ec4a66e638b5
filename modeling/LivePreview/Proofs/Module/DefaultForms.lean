/-
What the readers of default exports find.

A default export of a function or class is found up to its name, and the rest of it stays.  Of
any other default export the words in front stay behind or, if it only names a component, its
first line goes as a whole.
-/
import LivePreview.Proofs.Module.ExportForms

namespace LivePreview.Module

open Script
open Text (LineEnds linesAvoid Stops)

variable {s t e w : Text}

/-! ### Functions and classes -/

theorem defaultDeclaration_text (head : DeclarationHead) (tail : HeadTail) (e : Text) :
    (Statement.defaultDeclaration head tail).text ++ e
      = "export default ".toList ++ (head.text ++ (tail.text ++ e)) := by
  show "export default ".toList ++ head.text ++ tail.text ++ e = _
  simp only [List.append_assoc]

/-- The head of a function or class starts with a word. -/
theorem DeclarationHead.startsIdent (head : DeclarationHead) (s : Text) :
    startsIdent (head.text ++ s) = true := by
  cases head with
  | function isAsync isGenerator => cases isAsync <;> rfl
  | classDecl isAbstract => cases isAbstract <;> rfl

theorem DeclarationHead.noNewline (head : DeclarationHead) : '\n' ∉ head.text := by
  cases head with
  | function isAsync isGenerator => cases isAsync <;> cases isGenerator <;> decide
  | classDecl isAbstract => cases isAbstract <;> decide

namespace HeadTail

variable (tail : HeadTail)

/-- The inline blanks in front of the name. -/
def gap : Text := indentOf tail.text

/-- The name, empty if there is none. -/
def name : Text := nameAt (Text.skipInline tail.text)

/-- What stands behind the name. -/
def behind : Text := (Text.skipInline tail.text).drop tail.name.length

/-- Behind the blanks stands a character that is neither a blank nor a star. -/
theorem exists_cons :
    ∃ c s, Text.skipInline tail.text = c :: s ∧ isSpace c = false ∧ c ≠ '*' := by
  have hopens := tail.opens
  cases hskip : Text.skipInline tail.text with
  | nil =>
    rw [hskip] at hopens
    exact absurd hopens (by decide)
  | cons c s =>
    rw [hskip] at hopens
    simp only [List.head?_cons, Option.any_some, Bool.and_eq_true, Bool.not_eq_true',
      bne_iff_ne] at hopens
    exact ⟨c, s, rfl, hopens⟩

theorem gap_append_skipInline : tail.gap ++ Text.skipInline tail.text = tail.text :=
  List.takeWhile_append_dropWhile

theorem isSpace_of_mem_gap {c : Char} (h : c ∈ tail.gap) : isSpace c = true := by
  have hc : isInline c = true := List.mem_takeWhile_imp h
  simp only [isInline, Bool.or_eq_true, beq_iff_eq] at hc
  rcases hc with rfl | rfl <;> rfl

theorem wordEnds_append (e : Text) : Text.wordEnds (tail.text ++ e) = true := by
  have hwordEnds := tail.wordEnds
  obtain ⟨c, s, hskip, -⟩ := tail.exists_cons
  cases htail : tail.text with
  | nil =>
    rw [htail] at hskip
    cases hskip
  | cons c s =>
    rw [htail] at hwordEnds
    exact hwordEnds

/-- The first character behind the blanks ends blanks of both kinds. -/
theorem skipSpaces_append (e : Text) :
    Text.skipSpaces (tail.text ++ e) = Text.skipInline tail.text ++ e := by
  obtain ⟨c, s, hskip, hc, -⟩ := tail.exists_cons
  have hstop : Stops isSpace (Text.skipInline tail.text ++ e) := by
    rw [hskip]
    exact Text.stops_cons.mpr hc
  have htext : tail.text ++ e = tail.gap ++ (Text.skipInline tail.text ++ e) := by
    rw [← List.append_assoc, tail.gap_append_skipInline]
  rw [htext, Text.skipSpaces]
  exact Text.dropWhile_append (fun _ => tail.isSpace_of_mem_gap) hstop

theorem stops_isInline (e : Text) : Stops isInline (Text.skipInline tail.text ++ e) := by
  obtain ⟨c, s, hskip, hc, -⟩ := tail.exists_cons
  rw [hskip]
  refine Text.stops_cons.mpr ?_
  by_contra hinline
  have hmem : isInline c = true := by simpa using hinline
  simp only [isInline, Bool.or_eq_true, beq_iff_eq] at hmem
  rcases hmem with rfl | rfl <;> cases hc

theorem name_append_behind : tail.name ++ tail.behind = Text.skipInline tail.text := by
  have hprefix : tail.name <+: Text.skipInline tail.text := by
    unfold name nameAt
    split
    · exact List.takeWhile_prefix isNameChar
    · exact List.nil_prefix
  obtain ⟨t, ht⟩ := hprefix
  rw [behind, ← ht, List.drop_left]

theorem text_eq : tail.text = tail.gap ++ (tail.name ++ tail.behind) := by
  rw [tail.name_append_behind, tail.gap_append_skipInline]

theorem noNewline_gap : '\n' ∉ tail.gap := by
  intro h
  have hinline : isInline '\n' = true := List.mem_takeWhile_imp h
  exact absurd hinline (by decide)

theorem noNewline_name : '\n' ∉ tail.name := by
  intro h
  unfold name nameAt at h
  split at h
  · have hname : isNameChar '\n' = true := List.mem_takeWhile_imp h
    exact absurd hname (by decide)
  · cases h

theorem avoids_behind : linesAvoid opensStatement false tail.behind = true := by
  have havoids := tail.avoids
  rwa [tail.text_eq, Text.linesAvoid_append tail.noNewline_gap,
    Text.linesAvoid_append tail.noNewline_name] at havoids

end HeadTail

/-- A name is read in front of the end of a line as at the end of the text. -/
theorem nameAt_append (hs : s ≠ []) (he : LineEnds e) : nameAt (s ++ e) = nameAt s := by
  have hstarts : Script.startsIdent (s ++ e) = Script.startsIdent s := by
    cases s with
    | nil => exact absurd rfl hs
    | cons c s => rfl
  have hname : (s ++ e).takeWhile isNameChar = s.takeWhile isNameChar :=
    Text.takeWhile_append_of_stops (he.stops (by decide))
  rw [nameAt, nameAt, hstarts, hname]

/-- Only a function takes up the blanks behind its head. -/
theorem afterDefaultHead?_text (head : DeclarationHead) (tail : HeadTail) (e : Text) :
    ∃ blanks gap, blanks ++ gap = tail.gap ∧
      afterDefaultHead? (head.text ++ (tail.text ++ e))
        = some (gap ++ (Text.skipInline tail.text ++ e)) := by
  have htext : tail.gap ++ (Text.skipInline tail.text ++ e) = tail.text ++ e := by
    rw [← List.append_assoc, tail.gap_append_skipInline]
  cases head with
  | function isAsync isGenerator =>
    have hasync : skipWord "async".toList
        ((DeclarationHead.function isAsync isGenerator).text ++ (tail.text ++ e))
        = "function".toList ++ ((if isGenerator then ['*'] else []) ++ (tail.text ++ e)) := by
      cases isAsync <;> cases isGenerator <;> rfl
    cases isGenerator with
    | false =>
      -- the reader passes over blanks to look for a star, and does not go back
      obtain ⟨c, s, hskip, -, hstar⟩ := tail.exists_cons
      refine ⟨tail.gap, [], List.append_nil _, ?_⟩
      have hfunction : Text.afterWord? "function".toList ("function".toList ++ (tail.text ++ e))
          = some (tail.text ++ e) := by
        rw [Text.afterWord?, Text.after?_append_self]
        exact if_pos (tail.wordEnds_append e)
      rw [afterDefaultHead?, hasync]
      simp only [Bool.false_eq_true, if_false, List.nil_append, hfunction, tail.skipSpaces_append,
        hskip]
      split
      · rename_i h
        cases h
        exact absurd rfl hstar
      · rfl
    | true =>
      refine ⟨[], tail.gap, List.nil_append _, ?_⟩
      rw [afterDefaultHead?, hasync, htext]
      rfl
  | classDecl isAbstract =>
    refine ⟨[], tail.gap, List.nil_append _, ?_⟩
    have hclass : Text.afterWord? "class".toList ("class".toList ++ (tail.text ++ e))
        = some (tail.text ++ e) := by
      rw [Text.afterWord?, Text.after?_append_self]
      exact if_pos (tail.wordEnds_append e)
    rw [htext, ← hclass]
    cases isAbstract <;> rfl

/-- What the reader makes of a function or class: from the blanks behind it on, its head may
reach up to the name. -/
structure IsReadAs (head : DeclarationHead) (tail : HeadTail) (d : DefaultDeclaration) : Prop where
  indent : d.indent = []
  name : d.name = tail.name
  front : d.head ++ d.gap = head.text ++ tail.gap
  trimmed : Text.trimEnd d.head = head.text

theorem trimEnd_head (head : DeclarationHead) {blanks : Text} (h : ∀ c ∈ blanks, isSpace c = true) :
    Text.trimEnd (head.text ++ blanks) = head.text := by
  have hstop : Stops isSpace head.text.reverse := by
    cases head with
    | function isAsync isGenerator =>
      cases isAsync <;> cases isGenerator <;> exact Text.stops_cons.mpr rfl
    | classDecl isAbstract => cases isAbstract <;> exact Text.stops_cons.mpr rfl
  have hblanks : ∀ c ∈ blanks.reverse, isSpace c = true := fun c hc => h c (List.mem_reverse.mp hc)
  rw [Text.trimEnd, Text.trimEndBy, List.reverse_append, Text.dropWhile_append hblanks hstop,
    List.reverse_reverse]

/-- A function or class is found up to its name. -/
theorem defaultDeclaration?_text (head : DeclarationHead) (tail : HeadTail) (he : LineEnds e) :
    ∃ d, IsReadAs head tail d ∧
      defaultDeclaration? ((Statement.defaultDeclaration head tail).text ++ e)
        = some (d, tail.behind ++ e) := by
  obtain ⟨blanks, gap, hgap, hhead⟩ := afterDefaultHead?_text head tail e
  have hspaces : ∀ c ∈ blanks, isSpace c = true := by
    intro c hc
    refine tail.isSpace_of_mem_gap ?_
    rw [← hgap]
    exact List.mem_append_left gap hc
  have hinline : ∀ c ∈ gap, isInline c = true := by
    intro c hc
    have hmem : c ∈ tail.gap := by
      rw [← hgap]
      exact List.mem_append_right blanks hc
    exact List.mem_takeWhile_imp hmem
  have hstart : afterExportDefault? ((Statement.defaultDeclaration head tail).text ++ e)
      = some (head.text ++ (tail.text ++ e)) := by
    rw [defaultDeclaration_text, afterExportDefault?_default,
      skipSpaces_of_startsIdent (head.startsIdent _)]
  have htext : head.text ++ (tail.text ++ e)
      = (head.text ++ blanks) ++ (gap ++ (Text.skipInline tail.text ++ e)) := by
    have hgap_append : blanks ++ (gap ++ (Text.skipInline tail.text ++ e)) = tail.text ++ e := by
      rw [← List.append_assoc, hgap, ← List.append_assoc, tail.gap_append_skipInline]
    rw [List.append_assoc, hgap_append]
  have hnamed : Text.skipInline (gap ++ (Text.skipInline tail.text ++ e))
      = Text.skipInline tail.text ++ e := Text.dropWhile_append hinline (tail.stops_isInline e)
  have hindent : indentOf (gap ++ (Text.skipInline tail.text ++ e)) = gap :=
    Text.takeWhile_append hinline (tail.stops_isInline e)
  have hname : nameAt (Text.skipInline tail.text ++ e) = tail.name := by
    obtain ⟨c, s, hskip, -⟩ := tail.exists_cons
    exact nameAt_append (by rw [hskip]; exact List.cons_ne_nil c s) he
  have hrest : (Text.skipInline tail.text ++ e).drop tail.name.length = tail.behind ++ e := by
    rw [← tail.name_append_behind, List.append_assoc, List.drop_left]
  refine ⟨⟨[], head.text ++ blanks, gap, tail.name⟩, ⟨rfl, rfl, ?_, trimEnd_head head hspaces⟩, ?_⟩
  · show head.text ++ blanks ++ gap = head.text ++ tail.gap
    rw [List.append_assoc, hgap]
  · rw [defaultDeclaration?, hstart]
    simp only [Option.bind_eq_bind, Option.bind_some, hhead, hnamed, hindent]
    rw [htext, Text.consumed_append]
    show some (DefaultDeclaration.mk [] (head.text ++ blanks) gap
      (nameAt (Text.skipInline tail.text ++ e)), (Text.skipInline tail.text ++ e).drop
      (nameAt (Text.skipInline tail.text ++ e)).length) = _
    rw [hname, hrest]

/-! ### The lines that a function or class becomes -/

theorem opensStatement_head (head : DeclarationHead) (s : Text) :
    opensStatement (head.text ++ s) = false := by
  cases head with
  | function isAsync isGenerator => cases isAsync <;> rfl
  | classDecl isAbstract => cases isAbstract <;> rfl

theorem notFrom_head (head : DeclarationHead) (s : Text) :
    startsWord "from".toList (Text.skipSpaces (head.text ++ s)) = false := by
  cases head with
  | function isAsync isGenerator => cases isAsync <;> rfl
  | classDecl isAbstract => cases isAbstract <;> rfl

/-- A function or class that is not exported, with `w` between its head and what stands behind
its name. -/
def plainDeclaration (head : DeclarationHead) (w : Text) (hw : '\n' ∉ w) (tail : HeadTail) :
    PlainLines where
  text := head.text ++ (w ++ tail.behind)
  avoids := by
    refine Text.linesAvoid_of_false (opensStatement_head head _) ?_
    rw [Text.linesAvoid_append head.noNewline, Text.linesAvoid_append hw]
    exact tail.avoids_behind
  notFrom := notFrom_head head _

theorem pieces_defaultDeclaration (head : DeclarationHead) (tail : HeadTail) (he : LineEnds e) :
    ∃ d, IsReadAs head tail d ∧
      Text.pieces defaultDeclaration? ((Statement.defaultDeclaration head tail).text ++ e)
        = .found d :: (tail.behind ++ e.take 1).map .passed
          ++ Text.pieces defaultDeclaration? e.tail := by
  obtain ⟨d, hd, hfound⟩ := defaultDeclaration?_text head tail he
  have hfront : '\n' ∉ "export default ".toList ++ (head.text ++ (tail.gap ++ tail.name)) := by
    simp only [List.mem_append, not_or]
    exact ⟨by decide, head.noNewline, tail.noNewline_gap, tail.noNewline_name⟩
  have htext : (Statement.defaultDeclaration head tail).text ++ e
      = ("export default ".toList ++ (head.text ++ (tail.gap ++ tail.name))) ++
        (tail.behind ++ e) := by
    rw [defaultDeclaration_text, tail.text_eq]
    simp only [List.append_assoc]
  have hlater : linesAvoid opensStatement (Text.startsBehind true
      ("export default ".toList ++ (head.text ++ (tail.gap ++ tail.name)))) tail.behind = true := by
    rw [Text.startsBehind_of_noNewline hfront (List.cons_ne_nil _ _)]
    exact tail.avoids_behind
  refine ⟨d, hd, ?_⟩
  rw [htext] at hfound ⊢
  exact (heeds_of_eq_none defaultDeclaration?_eq_none).pieces_of_front he (List.cons_ne_nil _ _)
    hfound hlater

/-! ### Values -/

section

variable (v : ValueText)

theorem defaultValue_text (e : Text) :
    (Statement.defaultValue v).text ++ e = "export default ".toList ++ (v.text ++ e) := by
  show "export default ".toList ++ v.text ++ e = _
  rw [List.append_assoc]

theorem afterExportDefault?_defaultValue (e : Text) :
    afterExportDefault? ((Statement.defaultValue v).text ++ e) = some (v.text ++ e) := by
  have hstarts := v.starts
  rw [defaultValue_text, afterExportDefault?_default]
  cases hv : v.text with
  | nil =>
    rw [hv] at hstarts
    exact absurd hstarts (by decide)
  | cons c s =>
    rw [hv] at hstarts
    have hc : isSpace c = false := by simpa using hstarts
    exact congrArg some (skipSpaces_cons hc)

theorem leaves_defaultDeclaration_defaultValue : Leaves defaultDeclaration? (.defaultValue v) := by
  intro e he
  rw [defaultDeclaration?, afterExportDefault?_defaultValue]
  simp only [Option.bind_eq_bind, Option.bind_some, v.notDeclaration e he.lineEnds,
    Option.bind_none]

/-- A value is found.  If it only names a component, its first line goes, otherwise the words in
front alone. -/
theorem defaultExpression?_defaultValue (he : LineEnds e) :
    defaultExpression? ((Statement.defaultValue v).text ++ e)
      = some (⟨[], v.name?⟩, if v.name?.isSome then (Text.skipLine v.text ++ e).drop 1
          else v.text ++ e) := by
  have hline : Text.firstLine (v.text ++ e) = Text.firstLine v.text :=
    Text.takeWhile_append_of_stops (he.stops (by decide))
  have hskip : Text.skipLine (v.text ++ e) = Text.skipLine v.text ++ e :=
    Text.dropWhile_append_of_stops (he.stops (by decide))
  rw [defaultExpression?, afterExportDefault?_defaultValue]
  simp only [Option.bind_eq_bind, Option.bind_some, hline, hskip]
  rfl

/-- The first line of a value and what is behind it. -/
theorem exists_lines (h : Text.skipLine v.text ≠ []) :
    ∃ more, Text.skipLine v.text = '\n' :: more ∧ v.text = Text.firstLine v.text ++ '\n' :: more ∧
      linesAvoid opensStatement true more = true := by
  have hbreak := List.head?_dropWhile_not (· != '\n') v.text
  have htext : Text.firstLine v.text ++ Text.skipLine v.text = v.text :=
    List.takeWhile_append_dropWhile
  have hnone : '\n' ∉ Text.firstLine v.text := by
    intro hmem
    have hmem : '\n' ∈ v.text.takeWhile (· != '\n') := hmem
    have hne := List.mem_takeWhile_imp hmem
    exact absurd hne (by decide)
  have havoids := v.avoids
  cases hskip : Text.skipLine v.text with
  | nil => exact absurd hskip h
  | cons c more =>
    have hskip' : v.text.dropWhile (· != '\n') = c :: more := hskip
    rw [hskip'] at hbreak
    obtain rfl : c = '\n' := by simpa using hbreak
    rw [hskip] at htext
    rw [← htext, Text.linesAvoid_append hnone] at havoids
    exact ⟨more, rfl, htext.symm, havoids⟩

/-- A value that names no component stays. -/
theorem pieces_unnamedValue (hname : v.name? = none) (he : LineEnds e) :
    Text.pieces defaultExpression? ((Statement.defaultValue v).text ++ e)
      = .found ⟨[], none⟩ :: (v.text ++ e.take 1).map .passed
        ++ Text.pieces defaultExpression? e.tail := by
  have hfound := defaultExpression?_defaultValue v he
  rw [hname, if_neg (by decide), defaultValue_text] at hfound
  rw [defaultValue_text]
  exact (heeds_of_eq_none defaultExpression?_eq_none).pieces_of_front he (List.cons_ne_nil _ _)
    hfound v.avoids

/-- A value of one line that only names a component goes with the end of its line. -/
theorem pieces_reference (hname : v.name?.isSome = true) (hline : Text.skipLine v.text = [])
    (he : LineEnds e) : Text.pieces defaultExpression? ((Statement.defaultValue v).text ++ e)
      = .found ⟨[], v.name?⟩ :: Text.pieces defaultExpression? e.tail := by
  have hfound := defaultExpression?_defaultValue v he
  rw [if_pos hname, hline, List.nil_append, List.drop_one] at hfound
  exact Text.Heeds.pieces_of_all he (List.cons_ne_nil _ _) hfound

theorem pieces_defaultValue (he : LineEnds e) :
    ∃ w : Text, Text.pieces defaultExpression? ((Statement.defaultValue v).text ++ e)
      = .found ⟨[], v.name?⟩ :: w.map .passed ++ Text.pieces defaultExpression? e.tail := by
  cases hname : v.name? with
  | none => exact ⟨v.text ++ e.take 1, pieces_unnamedValue v hname he⟩
  | some name =>
    have hsome : v.name?.isSome = true := by rw [hname]; rfl
    rw [← hname]
    by_cases hline : Text.skipLine v.text = []
    · exact ⟨[], pieces_reference v hsome hline he⟩
    · obtain ⟨more, hmore, htext, hlater⟩ := exists_lines v hline
      have hfound := defaultExpression?_defaultValue v he
      have hfront : (Statement.defaultValue v).text ++ e
          = ("export default ".toList ++ Text.firstLine v.text ++ ['\n']) ++ (more ++ e) := by
        have hvalue : v.text ++ e = Text.firstLine v.text ++ ['\n'] ++ (more ++ e) := by
          have happend := congrArg (· ++ e) htext
          simpa using happend
        rw [defaultValue_text, hvalue]
        simp only [List.append_assoc]
      rw [if_pos hsome, hmore] at hfound
      rw [hfront] at hfound ⊢
      refine ⟨more ++ e.take 1, ?_⟩
      refine (heeds_of_eq_none defaultExpression?_eq_none).pieces_of_front he
        (List.cons_ne_nil _ _) hfound ?_
      rw [Text.startsBehind_newline]
      exact hlater

end

end LivePreview.Module
