/-
What the readers of imports find.

An import that binds one name to `require` is taken by the first reader, one with a clause by
the second, and one without by the third.  Between `import` and `from` the reader of clauses
looks at every position for a `from` with a source behind it.  There is only one source in the
statement, so whichever position it is that it stops at, the same text remains.
-/
import LivePreview.Proofs.Module.ReaderEnd
import LivePreview.Proofs.Module.StatementReading

namespace LivePreview.Module

open Script
open Text (LineEnds Stops)

variable {s t e u : Text}

/-! ### Behind the word -/

theorem afterImport?_import (s : Text) : afterImport? ("import ".toList ++ s) = some (' ' :: s) :=
  rfl

theorem importRequire?_export (s : Text) : importRequire? ("export ".toList ++ s) = none := rfl

theorem importFrom?_export (s : Text) : importFrom? ("export ".toList ++ s) = none := rfl

theorem importSource?_export (s : Text) : importSource? ("export ".toList ++ s) = none := rfl

/-! ### Clauses -/

/-- A character that ends a clause. -/
def EndsClause (d : Char) : Prop := isClauseChar d = false

theorem isSpace_eq_false_of_endsClause {d : Char} (hd : EndsClause d) : isSpace d = false := by
  have hd : isClauseChar d = false := hd
  simp only [isClauseChar, Bool.or_eq_false_iff] at hd
  exact hd.2

theorem endsClause_quote (source : SourceName) : EndsClause source.quote := by
  rcases source.quote_cases with h | h <;> rw [h] <;> rfl

theorem skipSpaces_append_cons {d : Char} (hd : isSpace d = false) :
    Text.skipSpaces (u ++ d :: s) = Text.skipSpaces u ++ d :: s :=
  Text.dropWhile_append_of_stops (Text.stops_cons.mpr hd)

theorem mem_of_mem_skipSpaces {c : Char} (h : c ∈ Text.skipSpaces u) : c ∈ u :=
  (List.dropWhile_sublist _).subset h

theorem mem_of_after? {c : Char} {lit r : Text} (h : Text.after? lit u = some r) (hc : c ∈ r) :
    c ∈ u := by
  rw [Text.eq_append_of_after? h]
  exact List.mem_append_right lit hc

theorem isQuote_eq_false_of_isClauseChar {c : Char} (h : isClauseChar c = true) :
    isQuote c = false := by
  by_contra hq
  simp only [isQuote, Bool.not_eq_false, Bool.or_eq_true, beq_iff_eq] at hq
  rcases hq with rfl | rfl <;> exact absurd h (by decide)

/-- Between clause characters and the end of the clause, `from` and a source are only found if
the source stands at the end, and `from` in front of it with nothing but blanks around. -/
theorem fromSource?_blanks {d : Char} (hd : EndsClause d) (hu : ∀ c ∈ u, isClauseChar c = true)
    {r : Text × Text} (h : fromSource? (u ++ d :: s) = some r) :
    source? (d :: s) = some r ∧
      ∃ front blanks, u = front ++ ("from".toList ++ blanks) ∧
        (∀ c ∈ front, isSpace c = true) ∧ ∀ c ∈ blanks, isSpace c = true := by
  have hspace := isSpace_eq_false_of_endsClause hd
  have hfrom : d ∉ "from".toList := by
    intro hmem
    have hclause : ∀ c ∈ "from".toList, isClauseChar c = true := List.all_eq_true.mp rfl
    exact Bool.noConfusion ((hclause d hmem).symm.trans hd)
  rw [fromSource?, skipSpaces_append_cons hspace, Text.after?_append_cons hfrom] at h
  cases hr : Text.after? "from".toList (Text.skipSpaces u) with
  | none =>
    rw [hr] at h
    cases h
  | some r₁ =>
    rw [hr] at h
    have h : source? (Text.skipSpaces (r₁ ++ d :: s)) = some r := h
    rw [skipSpaces_append_cons hspace] at h
    cases hr₂ : Text.skipSpaces r₁ with
    | nil =>
      rw [hr₂] at h
      refine ⟨h, u.takeWhile isSpace, r₁, ?_, fun c => List.mem_takeWhile_imp,
        List.dropWhile_eq_nil_iff.mp hr₂⟩
      rw [← Text.eq_append_of_after? hr]
      exact List.takeWhile_append_dropWhile.symm
    | cons c r₂ =>
      have hmem : c ∈ u := by
        refine mem_of_mem_skipSpaces (mem_of_after? hr (mem_of_mem_skipSpaces ?_))
        rw [hr₂]
        exact List.mem_cons_self
      rw [hr₂, List.cons_append, source?_eq_none (isQuote_eq_false_of_isClauseChar (hu c hmem))] at h
      cases h

theorem fromSource?_clause {d : Char} (hd : EndsClause d) (hu : ∀ c ∈ u, isClauseChar c = true)
    {r : Text × Text} (h : fromSource? (u ++ d :: s) = some r) :
    source? (d :: s) = some r ∧
      ∃ front blanks, u = front ++ ("from".toList ++ blanks) ∧ ∀ c ∈ blanks, isSpace c = true := by
  obtain ⟨hsource, front, blanks, hu, -, hblanks⟩ := fromSource?_blanks hd hu h
  exact ⟨hsource, front, blanks, hu, hblanks⟩

theorem isClauseChar_of_mem_from : ∀ c ∈ "from ".toList, isClauseChar c = true :=
  List.all_eq_true.mp rfl

theorem clause?_of_some {c : Char} {source rest : Text}
    (h : fromSource? (c :: s) = some (source, rest)) : clause? (c :: s) = some ([], source, rest) := by
  rw [clause?_cons, h]

theorem clause?_of_none {c : Char} {clause source rest : Text} (h : fromSource? (c :: s) = none)
    (hc : isClauseChar c = true) (hs : clause? s = some (clause, source, rest)) :
    clause? (c :: s) = some (c :: clause, source, rest) := by
  rw [clause?_cons, h, hs]
  exact if_pos hc

theorem isClauseChar_of_isSpace {c : Char} (h : isSpace c = true) : isClauseChar c = true := by
  rw [isClauseChar, h, Bool.or_true]

/-- The clause is left at the first source there is. -/
theorem clause?_of_source? {d : Char} {b name rest : Text} (hd : EndsClause d)
    (hu : ∀ c ∈ u, isClauseChar c = true) (hb : ∀ c ∈ b, isSpace c = true)
    (h : source? (d :: s) = some (name, rest)) :
    ∃ clause, clause? (u ++ ("from".toList ++ (b ++ d :: s))) = some (clause, name, rest) := by
  induction u with
  | nil =>
    have hspace := isSpace_eq_false_of_endsClause hd
    have hskip : Text.skipSpaces (b ++ d :: s) = d :: s :=
      Text.dropWhile_append hb (Text.stops_cons.mpr hspace)
    have hfound : fromSource? ("from".toList ++ (b ++ d :: s)) = some (name, rest) := by
      show source? (Text.skipSpaces (b ++ d :: s)) = _
      rw [hskip, h]
    have htext : "from".toList ++ (b ++ d :: s) = 'f' :: ("rom".toList ++ (b ++ d :: s)) := rfl
    rw [htext] at hfound
    rw [List.nil_append, htext]
    exact ⟨[], clause?_of_some hfound⟩
  | cons c u ih =>
    have hu' : ∀ d ∈ u, isClauseChar d = true := fun d hd => hu d (List.mem_cons_of_mem c hd)
    obtain ⟨clause, hclause⟩ := ih hu'
    cases hfound : fromSource? (c :: (u ++ ("from".toList ++ (b ++ d :: s)))) with
    | none =>
      have hc : isClauseChar c = true := hu c List.mem_cons_self
      refine ⟨c :: clause, ?_⟩
      rw [List.cons_append]
      exact clause?_of_none hfound hc hclause
    | some r =>
      have hall : ∀ d ∈ c :: (u ++ ("from".toList ++ b)), isClauseChar d = true := by
        intro d hd
        rw [← List.cons_append] at hd
        rcases List.mem_append.mp hd with hd | hd
        · exact hu d hd
        · rcases List.mem_append.mp hd with hd | hd
          · exact isClauseChar_of_mem_from d (List.mem_append_left [' '] hd)
          · exact isClauseChar_of_isSpace (hb d hd)
      have htext : c :: (u ++ ("from".toList ++ (b ++ d :: s)))
          = c :: (u ++ ("from".toList ++ b)) ++ d :: s := by
        simp only [List.cons_append, List.append_assoc]
      rw [htext] at hfound
      have hsource := (fromSource?_clause hd hall hfound).1
      rw [h] at hsource
      rw [← htext, ← Option.some.inj hsource] at hfound
      refine ⟨[], ?_⟩
      rw [List.cons_append]
      exact clause?_of_some hfound

theorem clause?_source (source : SourceName) (hu : ∀ c ∈ u, isClauseChar c = true) (rest : Text) :
    ∃ clause, clause? (u ++ ("from ".toList ++ (source.text ++ rest)))
      = some (clause, source.name, rest) := by
  have hsource := source?_text source rest
  rw [source.text_append] at hsource ⊢
  have hblank : ∀ c ∈ [' '], isSpace c = true := List.all_eq_true.mp rfl
  exact clause?_of_source? (endsClause_quote source) hu hblank hsource

/-! ### Imports -/

/-- Behind the word `type` and blanks, or where the word is not there, an end piece remains. -/
theorem skipWord_type_append {d : Char} (hd : d ∉ "type".toList) (hspace : isSpace d = false)
    (u s : Text) : ∃ u', u' <:+ u ∧ skipWord "type".toList (u ++ d :: s) = u' ++ d :: s := by
  rw [skipWord, Text.after?_append_cons hd]
  cases hr : Text.after? "type".toList u with
  | none => exact ⟨u, List.suffix_rfl, rfl⟩
  | some r =>
    cases r with
    | nil =>
      refine ⟨u, List.suffix_rfl, ?_⟩
      simp only [Option.map_some, Option.bind_some, List.nil_append, Text.spaces?, hspace,
        Bool.false_eq_true, if_false, Option.getD_none]
    | cons c r =>
      by_cases hc : isSpace c = true
      · have hsuffix : c :: r <:+ u := ⟨_, (Text.eq_append_of_after? hr).symm⟩
        refine ⟨Text.skipSpaces r, (List.dropWhile_suffix isSpace).trans
          (Text.suffix_of_cons hsuffix), ?_⟩
        simp only [Option.map_some, Option.bind_some, List.cons_append, Text.spaces?, hc, if_true,
          Option.getD_some, skipSpaces_append_cons hspace]
      · refine ⟨u, List.suffix_rfl, ?_⟩
        simp only [Option.map_some, Option.bind_some, List.cons_append, Text.spaces?, hc,
          Bool.false_eq_true, if_false, Option.getD_none]

theorem skipWord_type_clause (hu : ∀ c ∈ u, isClauseChar c = true) (s : Text) :
    ∃ u', (∀ c ∈ u', isClauseChar c = true) ∧
      skipWord "type".toList (u ++ ("from ".toList ++ s)) = u' ++ ("from ".toList ++ s) := by
  have hword : 'f' ∉ "type".toList := by decide
  obtain ⟨u', hsuffix, hskip⟩ := skipWord_type_append hword rfl u ("rom ".toList ++ s)
  exact ⟨u', fun c hc => hu c (hsuffix.subset hc), hskip⟩

/-- The blanks behind `import` and in front of a clause are passed over. -/
theorem skipSpaces_clause (clause : Clause) (s : Text) :
    ∃ u, (∀ c ∈ u, isClauseChar c = true) ∧
      Text.skipSpaces (' ' :: (clause.text ++ ' ' :: ("from ".toList ++ s)))
        = u ++ ("from ".toList ++ s) := by
  refine ⟨Text.skipSpaces (' ' :: clause.text ++ [' ']), ?_, ?_⟩
  · intro c hc
    have hmem : c ∈ clause.text ∨ c = ' ' := by
      have := mem_of_mem_skipSpaces hc
      simp only [List.cons_append, List.mem_cons, List.mem_append, List.not_mem_nil, or_false] at this
      tauto
    obtain hclause | rfl := hmem
    · exact List.all_eq_true.mp clause.isClause c hclause
    · exact isClauseChar_of_mem_from ' ' (by decide)
  · have htext : ' ' :: (clause.text ++ ' ' :: ("from ".toList ++ s))
        = (' ' :: clause.text ++ [' ']) ++ 'f' :: ("rom ".toList ++ s) := by
      rw [List.append_assoc]
      rfl
    rw [htext, skipSpaces_append_cons (by decide)]
    rfl

/-- What stands behind `import` and blanks. -/
theorem importFrom_start (clause : Clause) (source : SourceName) (semi : Bool) (e : Text) :
    ∃ u, (∀ c ∈ u, isClauseChar c = true) ∧
      (afterImport? ((Statement.importFrom clause source semi).text ++ e)).bind Text.spaces?
        = some (u ++ ("from ".toList ++ (source.text ++ (semicolon semi ++ e)))) := by
  obtain ⟨u, hu, hspaces⟩ := skipSpaces_clause clause (source.text ++ (semicolon semi ++ e))
  refine ⟨u, hu, ?_⟩
  have htext : (Statement.importFrom clause source semi).text ++ e
      = "import ".toList ++ (clause.text ++ ' ' :: ("from ".toList ++
        (source.text ++ (semicolon semi ++ e)))) := by
    show "import ".toList ++ clause.text ++ " from ".toList ++ source.text ++ semicolon semi ++ e = _
    simp only [List.append_assoc]
    rfl
  rw [htext, afterImport?_import, ← hspaces]
  rfl

theorem takes_importFrom (clause : Clause) (source : SourceName) (semi : Bool) :
    Takes importFrom? (.importFrom clause source semi) := by
  intro e he
  obtain ⟨u, hu, hstart⟩ := importFrom_start clause source semi e
  obtain ⟨u', hu', hskip⟩ := skipWord_type_clause hu (source.text ++ (semicolon semi ++ e))
  obtain ⟨found, hfound⟩ := clause?_source source hu' (semicolon semi ++ e)
  simp only [importFrom?, hstart, Option.bind_eq_bind, Option.bind_some, hskip, hfound,
    skipEnd_semicolon semi he.lineEnds]
  exact ⟨_, rfl⟩

/-! ### The other imports -/

/-- In front of what ends a clause no `=` stands. -/
theorem after?_equals_clause {d : Char} (hd : d ≠ '=') (hu : ∀ c ∈ u, isClauseChar c = true) :
    Text.after? ['='] (u ++ d :: s) = none := by
  cases u with
  | nil => exact if_neg (Ne.symm hd)
  | cons c u =>
    have hc : '=' ≠ c := by
      rintro rfl
      exact absurd (hu '=' List.mem_cons_self) (by decide)
    exact if_neg hc

/-- Nothing is bound to `require` where a clause stands. -/
theorem importRequire?_of_clause {d : Char} (hd : EndsClause d) (hequals : d ≠ '=')
    (hu : ∀ c ∈ u, isClauseChar c = true)
    (hstart : (afterImport? s).bind Text.spaces? = some (u ++ d :: t)) : importRequire? s = none := by
  have hname : isNameChar d = false := by
    have hd : isClauseChar d = false := hd
    simp only [isClauseChar, Bool.or_eq_false_iff] at hd
    exact hd.1.1.1.1.1
  have hbehind : (u ++ d :: t).dropWhile isNameChar = u.dropWhile isNameChar ++ d :: t :=
    Text.dropWhile_append_of_stops (Text.stops_cons.mpr hname)
  have hnone : Text.after? ['='] (Text.skipSpaces (u.dropWhile isNameChar ++ d :: t)) = none := by
    rw [skipSpaces_append_cons (isSpace_eq_false_of_endsClause hd)]
    refine after?_equals_clause hequals fun c hc => ?_
    exact hu c ((List.dropWhile_sublist _).subset (mem_of_mem_skipSpaces hc))
  rw [importRequire?, hstart]
  simp only [Option.bind_eq_bind, Option.bind_some, name?, hbehind]
  split
  · rfl
  · simp only [Option.bind_some, hnone, Option.bind_none]

theorem leaves_importRequire_importFrom (clause : Clause) (source : SourceName) (semi : Bool) :
    Leaves importRequire? (.importFrom clause source semi) := by
  intro e _
  obtain ⟨u, hu, hstart⟩ := importFrom_start clause source semi e
  have hall : ∀ c ∈ u ++ "from ".toList, isClauseChar c = true := by
    intro c hc
    rcases List.mem_append.mp hc with hc | hc
    · exact hu c hc
    · exact isClauseChar_of_mem_from c hc
  rw [source.text_append, ← List.append_assoc] at hstart
  exact importRequire?_of_clause (endsClause_quote source) (source.ne_of_quote (by decide)) hall hstart

theorem takes_importRequire (name : Identifier) (source : SourceName) (semi : Bool) :
    Takes importRequire? (.importRequire name source semi) := by
  intro e he
  have hname : name? (Text.skipSpaces (' ' :: (name.text ++ (" = require(".toList ++
      (source.text ++ ')' :: (semicolon semi ++ e)))))) = some (name.text, " = require(".toList ++
      (source.text ++ ')' :: (semicolon semi ++ e))) := by
    show name? (Text.skipSpaces (name.text ++ _)) = _
    rw [skipSpaces_identifier]
    exact name?_identifier name (Text.stops_cons.mpr (by decide))
  have hstart : (afterImport? ((Statement.importRequire name source semi).text ++ e)).bind Text.spaces?
      = some (Text.skipSpaces (' ' :: (name.text ++ (" = require(".toList ++
      (source.text ++ ')' :: (semicolon semi ++ e)))))) := by
    show (afterImport? ("import ".toList ++ name.text ++ " = require(".toList ++ source.text ++
      ')' :: semicolon semi ++ e)).bind Text.spaces? = _
    simp only [List.append_assoc, List.cons_append]
    rfl
  have hequals : Text.after? ['='] (Text.skipSpaces (" = require(".toList ++
      (source.text ++ ')' :: (semicolon semi ++ e)))) = some (" require(".toList ++
      (source.text ++ ')' :: (semicolon semi ++ e))) := rfl
  have hrequire : Text.after? "require(".toList (Text.skipSpaces (" require(".toList ++
      (source.text ++ ')' :: (semicolon semi ++ e)))) =
      some (source.text ++ ')' :: (semicolon semi ++ e)) := rfl
  have hclose : Text.after? [')'] (Text.skipSpaces (')' :: (semicolon semi ++ e)))
      = some (semicolon semi ++ e) := rfl
  simp only [importRequire?, hstart, Option.bind_eq_bind, Option.bind_some, hname, hequals,
    hrequire, skipSpaces_source, source?_text, hclose, skipEnd_semicolon semi he.lineEnds]
  exact ⟨_, rfl⟩

theorem importSource_start (source : SourceName) (semi : Bool) (e : Text) :
    (afterImport? ((Statement.importSource source semi).text ++ e)).bind Text.spaces?
      = some (source.text ++ (semicolon semi ++ e)) := by
  show (afterImport? ("import ".toList ++ source.text ++ semicolon semi ++ e)).bind Text.spaces? = _
  simp only [List.append_assoc]
  exact congrArg some (skipSpaces_source source _)

theorem leaves_importRequire_importSource (source : SourceName) (semi : Bool) :
    Leaves importRequire? (.importSource source semi) := by
  intro e _
  have hname : name? (source.text ++ (semicolon semi ++ e)) = none := by
    rw [source.text_append, name?, Text.takeWhile_of_stops
      (Text.stops_cons.mpr (isNameChar_quote source))]
    rfl
  have hstart := importSource_start source semi e
  simp only [importRequire?, hstart, Option.bind_eq_bind, Option.bind_some, hname,
    Option.bind_none]

theorem leaves_importFrom_importSource (source : SourceName) (semi : Bool) :
    Leaves importFrom? (.importSource source semi) := by
  intro e _
  have hstart := importSource_start source semi e
  have htype : skipWord "type".toList (source.text ++ (semicolon semi ++ e))
      = source.text ++ (semicolon semi ++ e) := by
    rw [source.text_append]
    rcases source.quote_cases with h | h <;> rw [h] <;> rfl
  have hclause : clause? (source.text ++ (semicolon semi ++ e)) = none := by
    rw [source.text_append, clause?_cons]
    rcases source.quote_cases with h | h <;> rw [h] <;> rfl
  simp only [importFrom?, hstart, Option.bind_eq_bind, Option.bind_some, htype, hclause,
    Option.bind_none]

theorem takes_importSource (source : SourceName) (semi : Bool) :
    Takes importSource? (.importSource source semi) := by
  intro e he
  have hstart : afterImport? ((Statement.importSource source semi).text ++ e)
      = some (' ' :: (source.text ++ (semicolon semi ++ e))) := by
    show afterImport? ("import ".toList ++ source.text ++ semicolon semi ++ e) = _
    simp only [List.append_assoc]
    rfl
  have hspaces : Text.skipSpaces (' ' :: (source.text ++ (semicolon semi ++ e)))
      = source.text ++ (semicolon semi ++ e) := skipSpaces_source source _
  simp only [importSource?, hstart, Option.bind_eq_bind, Option.bind_some, hspaces, source?_text,
    skipEnd_semicolon semi he.lineEnds]
  exact ⟨_, rfl⟩

end LivePreview.Module
