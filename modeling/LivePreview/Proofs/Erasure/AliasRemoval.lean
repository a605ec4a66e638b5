/-
What is removed with a type alias.

An alias ends with its type, if nothing but a semicolon or the end of the line follows there.  Then
it goes as a whole, with a semicolon, and nothing behind it is touched: a comment behind the
semicolon stays, and so does every line that follows, whatever it holds.

Where a comment follows the type, the end of the statement is looked for instead, from the `=` on,
and that search reads the comment like code.  It does not look beyond the line if it comes to the
end of the line.  So such an alias goes as a whole, together with its comment, exactly where the
search through the alias alone ends at the end of its line.  An alias on one line with a
`HarmlessComment` is such a case.  A bracket or a backtick that the comment opens, or a last
character that leaves a statement dangling, lead the search further, and what follows is removed
too.  Behind a semicolon in the comment, the comment stays.
-/
import LivePreview.Proofs.Erasure.Deletion
import LivePreview.Proofs.Erasure.Resumption
import LivePreview.Proofs.Erasure.StatementSearch

namespace LivePreview.Erasure

open Script
open Text (Stops)

/-! ### The rest of a line -/

/-- What may stand behind a declaration on its line: blanks, and a comment or nothing. -/
structure LineEnd where
  blanks : Text
  comment : Option Text
  inline : ∀ c ∈ blanks, isInline c = true
  oneLine : ∀ body ∈ comment, '\n' ∉ body

/-- The text of a comment. -/
def commentText : Option Text → Text
  | some body => '/' :: '/' :: body
  | none => []

/-- The text of the rest of a line. -/
def LineEnd.text (l : LineEnd) : Text := l.blanks ++ commentText l.comment

section Line

variable {e : Eraser} {m : CodeMode} {rest : Text}

theorem reaches_inline {blanks : Text} (hblanks : ∀ c ∈ blanks, isInline c = true)
    (h : e.rest = blanks ++ rest) :
    Eraser.Reaches (e.enter (.code m)) ((e.past [.kept blanks] rest).enter (.code m)) := by
  induction blanks generalizing e with
  | nil =>
    have hpast : e.past [.kept []] rest = e := by
      obtain rfl : e.rest = rest := h
      rfl
    rw [hpast]
    exact .refl _
  | cons c blanks ih =>
    have hc : c = ' ' ∨ c = '\t' := by simpa [isInline] using hblanks c (List.mem_cons_self ..)
    have h : e.rest = c :: (blanks ++ rest) := h
    have hstep : Eraser.Reaches (e.enter (.code m))
        ((e.past [.kept [c]] (blanks ++ rest)).enter (.code m)) := by
      refine Eraser.reaches_past h (List.cons_ne_nil _ _) ?_
      rw [Eraser.step_code h, ← Eraser.keep_cons h]
      rcases hc with rfl | rfl <;> rfl
    have hbehind : ∀ d ∈ blanks, isInline d = true := fun d hd =>
      hblanks d (List.mem_cons_of_mem _ hd)
    exact (hstep.andThen fun h' => ih hbehind h').regroup (by simp) (by simp) rfl

theorem reaches_lineComment {body : Text} (hbody : '\n' ∉ body)
    (h : e.rest = '/' :: '/' :: body ++ '\n' :: rest) :
    Eraser.Reaches (e.enter (.code m))
      ((e.past [.kept ('/' :: '/' :: body)] ('\n' :: rest)).enter (.code m)) := by
  have hskip : Text.skipLine (body ++ '\n' :: rest) = '\n' :: rest := by
    refine Text.dropWhile_append (fun c hc => ?_) (Text.stops_cons.mpr rfl)
    have hne : c ≠ '\n' := by
      rintro rfl
      exact hbody hc
    simpa using hne
  refine Eraser.reaches_past h (List.cons_ne_nil _ _) ?_
  rw [Eraser.step_code (c := '/') (s := '/' :: body ++ '\n' :: rest) h, ← Eraser.keep_eq h]
  show Except.ok ((e.keep (Text.skipLine (body ++ '\n' :: rest))).enter (.code m)) = _
  rw [hskip]

/-- **The rest of a line is kept, and what is behind it is erased on its own.** -/
theorem eraseTypes_lineEnd (l : LineEnd) (r : Text) :
    eraseTypes (l.text ++ '\n' :: r)
      = (eraseTypes r).map fun x => x.behind (l.text ++ ['\n']) [] := by
  obtain ⟨blanks, comment, hinline, hline⟩ := l
  let code := LineEnd.text ⟨blanks, comment, hinline, hline⟩ ++ '\n' :: r
  have htext : (Eraser.bare code).rest = blanks ++ (commentText comment ++ '\n' :: r) :=
    List.append_assoc ..
  have hblanks : Eraser.Reaches ((Eraser.bare code).enter (.code {})) _ :=
    reaches_inline (m := {}) hinline htext
  have hcomment : Eraser.Reaches ((Eraser.bare code).enter (.code {}))
      (((Eraser.bare code).past ([.kept blanks] ++ [.kept (commentText comment)]) ('\n' :: r)).enter
        (.code {})) := by
    cases comment with
    | none => exact hblanks.regroup (by simp [commentText]) (by simp [commentText]) rfl
    | some body => exact hblanks.andThen fun h => reaches_lineComment (hline body rfl) h
  have hreaches := hcomment.andThen fun h => Eraser.reaches_newline h
  have hkept : Stops isInline (keptText ([.kept blanks] ++ [.kept (commentText comment)] ++
      [.kept ['\n']])).reverse := by
    simp [isInline]
  have herase : eraseTypes code = _ :=
    eraseTypes_of_opening hreaches ⟨Or.inl rfl, rfl⟩ ⟨rfl, rfl, rfl⟩ hkept
  simpa [code, LineEnd.text] using herase

end Line

/-! ### Aliases -/

/-- What stands between the name of an alias and its `=`: blanks, or declared parameters among
them. -/
inductive AliasHeader : Text → Prop
  | plain {gap : Text} (hgap : AllBlank gap) : AliasHeader gap
  | generic {gap ps gap' : Text} (hgap : AllBlank gap) (hps : TypeText (.parameters false) ps)
      (hgap' : AllBlank gap') : AliasHeader (gap ++ '<' :: (ps ++ gap'))

/-- A type alias. -/
structure AliasDecl extends DeclaredName where
  header : Text
  space : Text
  type : Text
  isHeader : AliasHeader header
  blankSpace : AllBlank space
  isType : TypeText .whole type

namespace AliasDecl

variable (d : AliasDecl) (tail : Text)

/-- What stands behind the `=`, up to the end of the code. -/
def value : Text := d.space ++ (d.type ++ tail)

/-- The alias at the start of a text, and that text behind it. -/
def before : Text := d.text "type".toList ++ (d.header ++ '=' :: d.value tail)

/-- The value is found behind the `=`. -/
theorem aliasRest?_eq {name header value rest : Text} (hname : IsWord name)
    (hheader : AliasHeader header) (hvalue : startsWithChar '=' value = false)
    (htype : afterType? value = some rest) :
    aliasRest? (name ++ (header ++ '=' :: value))
      = some (skipSemicolon (if endsStatement rest then rest else statementRest value)) := by
  have hequals : Text.skipBlanks ('=' :: value) = '=' :: value := Text.skipBlanks_cons (by decide)
  cases hheader with
  | plain hgap =>
    have hstop : Stops isIdentChar (header ++ '=' :: value) :=
      hgap.stops_append (fun _ => isBlank_eq_false_of_identChar) (Text.stops_cons.mpr (by decide))
    have hnamed : Text.skipBlanks (skipIdent (name ++ (header ++ '=' :: value))) = '=' :: value := by
      rw [hname.skipIdent_append hstop, skipBlanks_append hgap, hequals]
    have hopen : startsWithChar '<' ('=' :: value) = false := rfl
    simp only [aliasRest?, hnamed, hopen, hvalue, htype, Bool.false_eq_true, if_false]
  | @generic gap ps gap' hgap hps hgap' =>
    let list := ps ++ (gap' ++ '=' :: value)
    have htext : gap ++ '<' :: (ps ++ gap') ++ '=' :: value = gap ++ '<' :: list := by simp [list]
    have hstop : Stops isIdentChar (gap ++ '<' :: list) :=
      hgap.stops_append (fun _ => isBlank_eq_false_of_identChar) (Text.stops_cons.mpr (by decide))
    have hnamed : Text.skipBlanks (skipIdent (name ++ (gap ++ '<' :: list))) = '<' :: list := by
      rw [hname.skipIdent_append hstop, skipBlanks_append hgap, Text.skipBlanks_cons (by decide)]
    have hopen : startsWithChar '<' ('<' :: list) = true := rfl
    have hlist : (afterTypeParameters? ('<' :: list)).map Text.skipBlanks = some ('=' :: value) := by
      rw [hps.afterTypeParameters?_append, Option.map_some, skipBlanks_append hgap', hequals]
    simp only [aliasRest?, htext, hnamed, hopen, hlist, hvalue, htype, Bool.false_eq_true, if_true,
      if_false]

section Removal

variable {d} {tail : Text} (hapart : Apart d.type tail) (hends : EndsWhole tail)

include hapart hends

/-- An alias is removed up to the end of its line, or of what is taken for its statement. -/
theorem eraseTypes_upTo : eraseTypes (d.before tail)
    = (eraseTypes (skipSemicolon
        (if endsStatement tail then tail else statementRest (d.value tail)))).map
      fun x => x.behind [] [.typeAlias] := by
  have hword : IsWord "type".toList := isWord_of_all rfl (by decide)
  have htype : afterType? (d.value tail) = some tail :=
    d.isType.afterType?_append hapart hends d.blankSpace
  have hvalue : startsWithChar '=' (d.value tail) = false :=
    startsWithChar_of_whole (afterType?_eq _ ▸ htype) (by simp)
  have hfound := aliasRest?_eq d.isWord d.isHeader hvalue htype
  have hend : skipSemicolon (if endsStatement tail then tail else statementRest (d.value tail))
      <:+ d.header ++ '=' :: d.value tail := by
    refine (suffix_skipSemicolon _).trans (List.IsSuffix.trans ?_
      ((List.suffix_cons '=' _).trans (List.suffix_append d.header _)))
    split
    · exact ⟨d.space ++ d.type, by simp [value]⟩
    · exact suffix_statementRestFrom _ _ _
  refine d.eraseTypes_removed hend ?_
  have hrest : (Eraser.bare (d.text "type".toList ++ (d.header ++ '=' :: d.value tail))).rest
      = "type".toList ++ (d.gap ++ (d.name ++ (d.header ++ '=' :: d.value tail))) :=
    d.text_append _ _
  rw [d.step_text hword]
  unfold Eraser.stepWord
  dsimp only
  rw [hrest, hword.ident_append d.stops_isIdentChar_gap,
    hword.skipIdent_append d.stops_isIdentChar_gap, d.skipBlanks_gap, d.isSome_word?, hfound]
  rfl

end Removal

end AliasDecl

/-! ### What follows on the next line -/

/-- The text does not start with a token that a type goes on with on the next line: a sign that
joins types, an arrow, or `extends`.  Longer signs are other tokens. -/
structure StartsApart (s : Text) : Prop where
  sign : ∀ (j : Joint) (u : Text), Text.skipBlanks s = j.sign :: u →
    startsWithChar j.sign u = true ∨ startsWithChar '=' u = true
  arrow : ∀ u, Text.skipBlanks s ≠ '=' :: '>' :: u
  bound : afterKeyword? "extends".toList (Text.skipBlanks s) = none

section Ends

variable {blanks : Text} (hblanks : ∀ c ∈ blanks, isInline c = true)

include hblanks

theorem skipInline_append {c : Char} (hc : isInline c = false) (s : Text) :
    Text.skipInline (blanks ++ c :: s) = c :: s :=
  Text.dropWhile_append hblanks (Text.stops_cons.mpr hc)

theorem allBlank_of_inline : AllBlank blanks := fun c hc => Text.isBlank_of_isInline (hblanks c hc)

/-- The end of a line ends a type, if nothing behind it goes on with the type. -/
theorem StartsApart.endsWhole {r : Text} (hr : StartsApart r) : EndsWhole (blanks ++ '\n' :: r) := by
  have hgap := allBlank_of_inline hblanks
  have hline : Text.skipBlanks ('\n' :: r) = Text.skipBlanks r := rfl
  have hpass : Text.skipBlanks (blanks ++ '\n' :: r) = Text.skipBlanks r := by
    rw [skipBlanks_append hgap, hline]
  refine ⟨⟨⟨?_, fun u => ?_⟩, startsWithChar_append hgap (by decide) rfl⟩, fun j => ?_, ?_⟩
  · rw [skipInline_append hblanks (by decide)]
    exact afterKeyword?_of_stops (Text.stops_cons.mpr (by decide))
  · rw [hpass]
    exact hr.arrow u
  · rw [rest?_eq, formRest?, moreRest?, hpass]
    split
    · rename_i c t ht
      by_cases hc : c = j.sign
      · subst hc
        rcases hr.sign j t ht with h | h <;> simp [h]
      · simp [hc]
    · rfl
  · rw [hpass]
    exact hr.bound

end Ends

/-! ### Where an alias ends -/

/-- A comment that the search for the end of a statement goes through up to the end of its line. -/
structure HarmlessComment (body : Text) : Prop where
  oneLine : '\n' ∉ body
  text : LineText body
  ends : isDangling ('/' :: '/' :: body) = false

namespace AliasDecl

variable (d : AliasDecl) {blanks : Text} (hblanks : ∀ c ∈ blanks, isInline c = true)

include hblanks

theorem eraseTypes_semicolon (l : LineEnd) (r : Text) :
    eraseTypes (d.before (blanks ++ ';' :: (l.text ++ '\n' :: r)))
      = (eraseTypes r).map fun x => x.behind (l.text ++ ['\n']) [.typeAlias] := by
  have hgap := allBlank_of_inline hblanks
  have hinline := skipInline_append hblanks (c := ';') (by decide) (l.text ++ '\n' :: r)
  have hends : endsStatement (blanks ++ ';' :: (l.text ++ '\n' :: r)) = true := by
    rw [endsStatement, hinline]
    rfl
  have hskip : skipSemicolon (blanks ++ ';' :: (l.text ++ '\n' :: r)) = l.text ++ '\n' :: r := by
    rw [skipSemicolon, hinline]
    rfl
  rw [eraseTypes_upTo (apart_blanks hgap (by decide) _) (.of_sign hgap (by simp)), if_pos hends,
    hskip, eraseTypes_lineEnd, map_behind_behind]
  rfl

theorem eraseTypes_lineBreak {r : Text} (hr : StartsApart r) :
    eraseTypes (d.before (blanks ++ '\n' :: r))
      = (eraseTypes r).map fun x => x.behind (blanks ++ ['\n']) [.typeAlias] := by
  have hgap := allBlank_of_inline hblanks
  have hinline := skipInline_append hblanks (c := '\n') (by decide) r
  have hends : endsStatement (blanks ++ '\n' :: r) = true := by
    rw [endsStatement, hinline]
    rfl
  have hskip : skipSemicolon (blanks ++ '\n' :: r) = blanks ++ '\n' :: r := by
    rw [skipSemicolon, hinline]
    rfl
  have hline := eraseTypes_lineEnd ⟨blanks, none, hblanks, by simp⟩ r
  simp only [LineEnd.text, commentText, List.append_nil] at hline
  rw [eraseTypes_upTo (apart_blanks hgap (by decide) _) (hr.endsWhole hblanks), if_pos hends, hskip,
    hline, map_behind_behind]
  rfl

/-- In front of a comment, the search for the end of the statement decides. -/
theorem eraseTypes_comment (s : Text) : eraseTypes (d.before (blanks ++ '/' :: '/' :: s))
    = (eraseTypes (skipSemicolon (statementRest (d.value (blanks ++ '/' :: '/' :: s))))).map
      fun x => x.behind [] [.typeAlias] := by
  have hgap := allBlank_of_inline hblanks
  have hends : endsStatement (blanks ++ '/' :: '/' :: s) = false := by
    rw [endsStatement, skipInline_append hblanks (by decide)]
    rfl
  have hkept : ¬ endsStatement (blanks ++ '/' :: '/' :: s) = true := by simp [hends]
  rw [eraseTypes_upTo (apart_blanks hgap (by decide) _) (.of_sign hgap (by simp)), if_neg hkept]

omit hblanks in
theorem value_append (s more : Text) : d.value s ++ more = d.value (s ++ more) := by
  simp [value]

/-- **An alias in front of a comment goes as a whole, whatever follows, exactly where the search
through the alias and its comment alone ends with the line.** -/
theorem eraseTypes_comment_iff (body : Text) :
    (∀ r, Stops continuesStatement (Text.skipBlanks r) →
      eraseTypes (d.before (blanks ++ '/' :: '/' :: (body ++ '\n' :: r)))
        = (eraseTypes r).map fun x => x.behind ['\n'] [.typeAlias]) ↔
    skipSemicolon (statementRest (d.value (blanks ++ '/' :: '/' :: (body ++ ['\n'])))) = ['\n'] := by
  constructor
  · intro h
    -- nothing follows: the search has left a line end, for nothing in it was erased
    have hend := h [] (Text.stops_nil _)
    rw [d.eraseTypes_comment hblanks] at hend
    generalize skipSemicolon
      (statementRest (d.value (blanks ++ '/' :: '/' :: (body ++ ['\n'])))) = left at hend ⊢
    have hempty : eraseTypes [] = .ok ⟨[], ⟨[]⟩⟩ := rfl
    rw [hempty] at hend
    cases hleft : eraseTypes left with
    | error o =>
      rw [hleft] at hend
      cases hend
    | ok x =>
      rw [hleft] at hend
      have hx : x.behind [] [.typeAlias] = ⟨['\n'], ⟨[.typeAlias]⟩⟩ := Except.ok.inj hend
      obtain ⟨e, hdeletes, rfl⟩ := exists_deletes_of_eraseTypes hleft
      obtain ⟨hcode, hreport⟩ := Erased.mk.inj hx
      have hnone : e.report.hits = [] := by simpa using congrArg ErasureReport.hits hreport
      rw [← hdeletes.whole hnone]
      exact hcode
  · intro h r hr
    have htext : blanks ++ '/' :: '/' :: (body ++ '\n' :: r)
        = blanks ++ '/' :: '/' :: (body ++ ['\n']) ++ r := by simp
    have hstatement := statementRest_append h (List.cons_ne_nil _ _) hr
    rw [d.eraseTypes_comment hblanks, htext, ← d.value_append, hstatement,
      skipSemicolon_append h, Erasure.eraseTypes_newline, map_behind_behind]
    rfl

/-- **An alias on one line goes as a whole with a harmless comment, whatever follows.** -/
theorem eraseTypes_harmlessComment (hline : '\n' ∉ d.space ++ d.type) {body : Text}
    (hbody : HarmlessComment body) {r : Text} (hr : Stops continuesStatement (Text.skipBlanks r)) :
    eraseTypes (d.before (blanks ++ '/' :: '/' :: (body ++ '\n' :: r)))
      = (eraseTypes r).map fun x => x.behind ['\n'] [.typeAlias] := by
  have htext : d.value (blanks ++ '/' :: '/' :: body)
      = d.space ++ (d.type ++ blanks) ++ '/' :: '/' :: body := by simp [value]
  have hvalue : ClosedText (d.space ++ (d.type ++ blanks)) :=
    .behindBlanks d.blankSpace ((ClosedText.of_typeText d.isType).append (.of_inline hblanks))
  have hslashes : LineText ('/' :: '/' :: body) := .behind (.literal (s := ['/', '/']) rfl) hbody.text
  have hnoLine : '\n' ∉ d.value (blanks ++ '/' :: '/' :: body) := by
    have hblank : '\n' ∉ blanks := fun h => absurd (hblanks _ h) (by decide)
    simpa [htext, hblank, hbody.oneLine] using hline
  have hends : isDangling (d.value (blanks ++ '/' :: '/' :: body)) = false := by
    rw [htext, isDangling_append _ (by decide), hbody.ends]
  have hsearch := (htext ▸ LineText.behind hvalue hslashes).statementRest_line hnoLine hends
  refine (d.eraseTypes_comment_iff hblanks body).mpr ?_ r hr
  rw [d.value_append] at hsearch
  simp only [List.append_assoc, List.cons_append] at hsearch
  rw [hsearch]
  rfl

omit hblanks in
/-- **What is removed with a type alias.**  With a semicolon or the end of its line behind it, it is
the alias, and what is behind it is erased on its own: a comment on its line is kept, and so is the
next line, unless that goes on with the type.  With a comment behind it, it is what the search for
the end of the statement goes through, and that is the alias with its comment if the alias is on one
line and the comment is harmless. -/
theorem eraseTypes_before_cases (d : AliasDecl) {blanks : Text}
    (hblanks : ∀ c ∈ blanks, isInline c = true) :
    (∀ (l : LineEnd) (r : Text), eraseTypes (d.before (blanks ++ ';' :: (l.text ++ '\n' :: r)))
      = (eraseTypes r).map fun x => x.behind (l.text ++ ['\n']) [.typeAlias]) ∧
    (∀ r, StartsApart r → eraseTypes (d.before (blanks ++ '\n' :: r))
      = (eraseTypes r).map fun x => x.behind (blanks ++ ['\n']) [.typeAlias]) ∧
    (∀ s, eraseTypes (d.before (blanks ++ '/' :: '/' :: s))
      = (eraseTypes (skipSemicolon (statementRest (d.value (blanks ++ '/' :: '/' :: s))))).map
        fun x => x.behind [] [.typeAlias]) ∧
    (∀ body, (∀ r, Stops continuesStatement (Text.skipBlanks r) →
      eraseTypes (d.before (blanks ++ '/' :: '/' :: (body ++ '\n' :: r)))
        = (eraseTypes r).map fun x => x.behind ['\n'] [.typeAlias]) ↔
      skipSemicolon (statementRest (d.value (blanks ++ '/' :: '/' :: (body ++ ['\n'])))) = ['\n']) ∧
    ('\n' ∉ d.space ++ d.type → ∀ body, HarmlessComment body →
      ∀ r, Stops continuesStatement (Text.skipBlanks r) →
        eraseTypes (d.before (blanks ++ '/' :: '/' :: (body ++ '\n' :: r)))
          = (eraseTypes r).map fun x => x.behind ['\n'] [.typeAlias]) :=
  ⟨d.eraseTypes_semicolon hblanks, fun _ hr => d.eraseTypes_lineBreak hblanks hr,
    d.eraseTypes_comment hblanks, d.eraseTypes_comment_iff hblanks,
    fun hline _ hbody _ hr => d.eraseTypes_harmlessComment hblanks hline hbody hr⟩

omit hblanks

/-- `type A = B`. -/
def short : AliasDecl where
  gap := [' ']
  name := ['A']
  ne_nil := space_ne_nil
  blank := allBlank_space
  isWord := isWord_of_all rfl (by decide)
  header := [' ']
  space := [' ']
  type := ['B']
  isHeader := .plain allBlank_space
  blankSpace := allBlank_space
  isType :=
    let name : TypePath := ⟨['B'], [], isWord_of_all rfl (by decide), nofun⟩
    have hname : TypeText (.operand true) ['B'] := .indexed (.name name rfl) [] nofun
    .union (.plain (.last (j := .union) (.plain (.last (j := .intersection) hname))))

theorem eraseTypes_before_cases_short :
    eraseTypes (short.before "; // (\nf();".toList)
      = .ok ⟨" // (\nf();".toList, ⟨[.typeAlias]⟩⟩ ∧
    StartsApart "f();".toList ∧
    eraseTypes (short.before "\nf();".toList) = .ok ⟨"\nf();".toList, ⟨[.typeAlias]⟩⟩ ∧
    HarmlessComment " don't (".toList ∧
    eraseTypes (short.before " // don't (\nf();".toList)
      = .ok ⟨"\nf();".toList, ⟨[.typeAlias]⟩⟩ ∧
    eraseTypes (short.before " // (\nf();".toList) = .ok ⟨[], ⟨[.typeAlias]⟩⟩ := by
  have hnone : ∀ c ∈ ([] : Text), isInline c = true := nofun
  have hspace : ∀ c ∈ [' '], isInline c = true := by simp [isInline]
  have hf : StartsApart "f();".toList := by
    refine ⟨fun j u h => ?_, nofun, rfl⟩
    cases j <;> cases h
  have hnext : Stops continuesStatement (Text.skipBlanks "f();".toList) := by
    simp [continuesStatement, Text.skipBlanks, isBlank]
  have hharmless : HarmlessComment " don't (".toList :=
    ⟨by decide, .quoted (t := " don".toList) (.literal rfl) rfl rfl, by decide⟩
  obtain ⟨hsemicolon, hline, -, -, -⟩ := eraseTypes_before_cases short hnone
  obtain ⟨-, -, hcomment, -, hwhole⟩ := eraseTypes_before_cases short hspace
  refine ⟨?_, hf, ?_, hharmless, ?_, ?_⟩
  · exact hsemicolon ⟨[' '], some " (".toList, hspace, by simp⟩ "f();".toList
  · exact hline "f();".toList hf
  · exact hwhole (by decide) _ hharmless "f();".toList hnext
  · have hend : skipSemicolon (statementRest (short.value " // (\nf();".toList)) = [] := by
      decide +kernel
    exact (hcomment " (\nf();".toList).trans (by
      rw [show skipSemicolon (statementRest (short.value ([' '] ++ '/' :: '/' :: " (\nf();".toList)))
        = [] from hend]
      rfl)

end AliasDecl

end LivePreview.Erasure
