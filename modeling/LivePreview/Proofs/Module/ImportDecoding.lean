/-
Imports in front of code, taken out and decoded.

An import of this file stands on lines of its own and has a clause in any layout.  Between its first
word and the quote there are characters of clauses only, so the pass for `require` finds nothing on
any of its lines, whatever the names in it are.  The pass for clauses takes it from its first
character to the end of its last line, and the code behind it is gone over as if nothing stood in
front.

So the bindings come out as they went in exactly if every import is read as what it binds.  The code
behind the imports is what it was exactly if no reader finds anything in it.
-/
import LivePreview.Proofs.Module.ImportClause
import LivePreview.Proofs.Module.LayoutPasses
import LivePreview.Proofs.Module.SecondStrip

namespace LivePreview.Module

open Script
open Text (Piece Stops Tight findings linesAvoid pieces piecesFrom startsBehind)

variable {s t u name rest body : Text} {c d : Char}

/-! ### Characters of clauses -/

theorem NameGroup.isClauseChar (g : NameGroup) : ∀ c ∈ g.text, Module.isClauseChar c = true := by
  intro c hc
  cases g with
  | star gap behind name =>
    have hc : c ∈ '*' :: (gap.text ++ ("as".toList ++ (behind.text ++ name.text))) := hc
    simp only [List.mem_cons, List.mem_append] at hc
    obtain rfl | hc | hc | hc | hc := hc
    · rfl
    · exact gap.isClauseChar c hc
    · exact List.all_eq_true.mp (by decide : "as".toList.all Module.isClauseChar = true) c hc
    · exact behind.isClauseChar c hc
    · exact name.isClauseChar c hc
  | list items ending =>
    have hc : c ∈ '{' :: (Text.join [','] (items.map ImportItem.text ++
        ending.toList.map Blanks.text) ++ ['}']) := hc
    rw [List.mem_cons, List.mem_append, List.mem_singleton] at hc
    obtain rfl | hc | rfl := hc
    · rfl
    · obtain rfl | ⟨part, hpart, hc⟩ := Text.mem_join hc
      · rfl
      · obtain hpart | hpart := List.mem_append.mp hpart
        · obtain ⟨i, -, rfl⟩ := List.mem_map.mp hpart
          simp only [ImportItem.text, List.mem_append] at hc
          obtain hc | hc | hc := hc
          · exact i.before.isClauseChar c hc
          · exact i.specifier.isClauseChar c hc
          · exact i.behind.isClauseChar c hc
        · obtain ⟨b, -, rfl⟩ := List.mem_map.mp hpart
          exact b.isClauseChar c hc
    · rfl

namespace ImportClause

variable (clause : ImportClause)

theorem isClauseChar : ∀ c ∈ clause.text, Module.isClauseChar c = true := by
  cases clause with
  | default name => exact name.isClauseChar
  | group g => exact g.isClauseChar
  | both name before behind g =>
    intro c hc
    simp only [text, List.mem_append, List.mem_cons] at hc
    obtain hc | hc | rfl | hc | hc := hc
    · exact name.isClauseChar c hc
    · exact before.isClauseChar c hc
    · rfl
    · exact behind.isClauseChar c hc
    · exact g.isClauseChar c hc

theorem read_suffix : clause.read <:+ clause.text := by
  unfold read
  split
  · cases clause with
    | default name => exact List.nil_suffix
    | group g => exact List.suffix_rfl
    | both name before behind g =>
      exact (List.suffix_append before.text _).trans (List.suffix_append name.text _)
  · exact List.suffix_rfl

theorem tight : Tight clause.text := by
  cases clause with
  | default name => exact name.tight
  | group g => exact g.tight
  | both name before behind g =>
    have htext : (both name before behind g).text
        = name.text ++ ((before.text ++ ',' :: behind.text) ++ g.text) := by
      simp only [text, List.append_assoc, List.cons_append]
    rw [htext]
    exact name.tight.append g.tight _

/-- No blank stands at the end of what is read. -/
theorem getLast?_read : ∀ c ∈ clause.read.getLast?, isSpace c = false := by
  intro c hc
  obtain ⟨front, htext⟩ := clause.read_suffix
  refine clause.tight.last c ?_
  rw [List.head?_reverse, ← htext]
  exact List.mem_getLast?_append_of_mem_getLast? hc

end ImportClause

/-! ### The word `type` -/

/-- A name starts with no other word. -/
theorem startsWord_identifier (x : Identifier) {w : Text} (hx : x.text ≠ w) :
    startsWord w x.text = false := by
  unfold startsWord
  cases hr : Text.after? w x.text with
  | none => rfl
  | some r =>
    have htext := Text.eq_append_of_after? hr
    cases r with
    | nil => exact absurd (htext.trans (List.append_nil w)) hx
    | cons c r =>
      have hc : c ∈ x.text := by
        rw [htext]
        exact List.mem_append_right w List.mem_cons_self
      show (!isIdentChar c) = false
      rw [x.isIdentChar c hc]
      rfl

theorem startsWord_type (x : Identifier) (hx : x.text ≠ "type".toList) (hs : Stops isIdentChar s) :
    startsWord "type".toList (x.text ++ s) = false := by
  cases s with
  | nil =>
    rw [List.append_nil]
    exact startsWord_identifier x hx
  | cons c s =>
    have hc : isIdentChar c = false := Text.stops_cons.mp hs
    have hword : c ∉ "type".toList := fun hmem => by
      have hall : ∀ d ∈ "type".toList, isIdentChar d = true := List.all_eq_true.mp (by decide)
      rw [hall c hmem] at hc
      cases hc
    rw [startsWord_append_cons hword hc]
    exact startsWord_identifier x hx

/-- The word is passed over where it is the whole name and blanks stand behind it. -/
theorem skipWord_identifier (x : Identifier) (b : Blanks) (hs : Stops isSpace s)
    (hident : b.text = [] → Stops isIdentChar s) :
    skipWord "type".toList (x.text ++ (b.text ++ s))
      = if x.text == "type".toList && !b.text.isEmpty then s else x.text ++ (b.text ++ s) := by
  have hstops : Stops isIdentChar (b.text ++ s) := by
    cases hb : b.text with
    | nil => exact hident hb
    | cons c t =>
      have hc : isSpace c = true := b.blank c (by rw [hb]; exact List.mem_cons_self)
      refine Text.stops_cons.mpr (Bool.eq_false_of_not_eq_true fun hident => ?_)
      rw [isSpace_eq_false_of_isIdentChar hident] at hc
      cases hc
  by_cases htype : x.text = "type".toList
  · have hafter : skipWord "type".toList (x.text ++ (b.text ++ s))
        = (Text.spaces? (b.text ++ s)).getD (x.text ++ (b.text ++ s)) := by
      rw [skipWord, htype, Text.after?_append_self, Option.bind_some]
    rw [hafter, htype]
    cases hb : b.text with
    | nil =>
      have hnone : Text.spaces? s = none := by
        cases s with
        | nil => rfl
        | cons c s => exact if_neg (by rw [Text.stops_cons.mp hs]; exact Bool.false_ne_true)
      rw [List.nil_append, hnone]
      rfl
    | cons c t =>
      have hsome := Space.spaces?_append ⟨b, by rw [hb]; exact List.cons_ne_nil c t⟩ hs
      rw [hb] at hsome
      rw [hsome]
      rfl
  · have hnone : (Text.after? "type".toList (x.text ++ (b.text ++ s))).bind Text.spaces? = none :=
      spaces?_bind_eq_none (startsWord_type x htype hstops)
    rw [skipWord, hnone, beq_eq_false_iff_ne.mpr htype]
    rfl

theorem length_skipWord_identifier (x : Identifier) (b : Blanks) (hs : Stops isSpace s)
    (hident : b.text = [] → Stops isIdentChar s) :
    decide ((skipWord "type".toList (x.text ++ (b.text ++ s))).length < (x.text ++ (b.text ++ s)).length)
      = (x.text == "type".toList && !b.text.isEmpty) := by
  have hpos := List.length_pos_iff.mpr x.ne_nil
  rw [skipWord_identifier x b hs hident]
  cases x.text == "type".toList && !b.text.isEmpty with
  | false => simp
  | true =>
    rw [if_pos rfl, decide_eq_true_iff, List.length_append, List.length_append]
    omega

/-- What the reader comes to behind `import`: the clause, or what stands behind the word `type`. -/
theorem ImportClause.skipWord_text (clause : ImportClause) (gap : Space) (t : Text) :
    ∃ b : Blanks,
      skipWord "type".toList (clause.text ++ (gap.text ++ ("from".toList ++ t)))
        = clause.read ++ (b.text ++ ("from".toList ++ t)) ∧
      decide ((skipWord "type".toList (clause.text ++ (gap.text ++ ("from".toList ++ t)))).length
        < (clause.text ++ (gap.text ++ ("from".toList ++ t))).length) = clause.isEaten := by
  cases clause with
  | default x =>
    have hfrom : Stops isSpace ("from".toList ++ t) := Text.stops_cons.mpr rfl
    have hgap : gap.text = [] → Stops isIdentChar ("from".toList ++ t) :=
      fun hnil => absurd hnil gap.ne_nil
    have heaten : (x.text == "type".toList && !gap.text.isEmpty) = (default x).isEaten := by
      rw [isEaten, List.isEmpty_eq_false_iff.mpr gap.ne_nil, Bool.not_false, Bool.and_true]
    have hskip := skipWord_identifier x gap.toBlanks hfrom hgap
    have hlength := length_skipWord_identifier x gap.toBlanks hfrom hgap
    rw [heaten] at hskip hlength
    refine ⟨if (default x).isEaten then Blanks.none else gap.toBlanks, hskip.trans ?_, hlength⟩
    rw [read]
    cases (default x).isEaten <;> rfl
  | group g =>
    refine ⟨gap.toBlanks, ?_, ?_⟩
    · cases g <;> rfl
    · have hsame : skipWord "type".toList (g.text ++ (gap.text ++ ("from".toList ++ t)))
          = g.text ++ (gap.text ++ ("from".toList ++ t)) := by
        cases g <;> rfl
      rw [text, hsame, decide_eq_false (Nat.lt_irrefl _)]
      rfl
  | both x before behind g =>
    have hcomma : Stops isSpace (',' :: (behind.text ++ g.text) ++ (gap.text ++ ("from".toList ++ t))) :=
      Text.stops_cons.mpr rfl
    have hskip := skipWord_identifier x before hcomma fun _ => Text.stops_cons.mpr rfl
    have hlength := length_skipWord_identifier x before hcomma fun _ => Text.stops_cons.mpr rfl
    have htext : x.text ++ (before.text ++ (',' :: (behind.text ++ g.text) ++
        (gap.text ++ ("from".toList ++ t))))
          = (both x before behind g).text ++ (gap.text ++ ("from".toList ++ t)) := by
      simp only [text, List.append_assoc, List.cons_append]
    rw [htext] at hskip hlength
    refine ⟨gap.toBlanks, hskip.trans ?_, hlength⟩
    rw [read, isEaten]
    split <;> rfl

/-! ### The end of a clause -/

theorem Blanks.trimEnd_append (b : Blanks) (h : Stops isSpace u.reverse) :
    Text.trimEnd (u ++ b.text) = u := by
  have hblanks : ∀ c ∈ b.text.reverse, isSpace c = true := fun c hc => b.blank c (List.mem_reverse.mp hc)
  rw [Text.trimEnd, Text.trimEndBy, List.reverse_append, Text.dropWhile_append hblanks h,
    List.reverse_reverse]

theorem clause?_of_fromSource? (h : fromSource? s = some (name, rest)) :
    clause? s = some ([], name, rest) := by
  cases s with
  | nil => cases h
  | cons c s => exact clause?_of_some h

/-- In front of a clause no source is found, since the blanks in front of `from` are behind it. -/
theorem fromSource?_of_clause (hd : EndsClause d) (hu : ∀ c ∈ u, isClauseChar c = true)
    (hne : u ≠ []) (hlast : ∀ c ∈ u.getLast?, isSpace c = false) (g b : Blanks) :
    fromSource? (u ++ (g.text ++ ("from".toList ++ (b.text ++ d :: s)))) = none := by
  rw [Option.eq_none_iff_forall_not_mem]
  intro r hr
  have hall : ∀ e ∈ u ++ g.text ++ "from".toList ++ b.text, isClauseChar e = true := by
    intro e he
    rw [List.mem_append, List.mem_append, List.mem_append] at he
    obtain ((he | he) | he) | he := he
    · exact hu e he
    · exact g.isClauseChar e he
    · exact Layout.isClauseChar_from e he
    · exact b.isClauseChar e he
  have htext : u ++ (g.text ++ ("from".toList ++ (b.text ++ d :: s)))
      = u ++ g.text ++ "from".toList ++ b.text ++ d :: s := by
    simp only [List.append_assoc]
  rw [htext] at hr
  obtain ⟨-, front, blanks, hfront, hblank, hblanks⟩ := fromSource?_blanks hd hall hr
  -- what the reader takes for the blanks in front of `from` would have the clause in it
  have hstop : ∀ v : Text, Stops isSpace (v ++ "from".toList).reverse := by
    intro v
    rw [List.reverse_append]
    exact Text.stops_cons.mpr rfl
  have htrim := congrArg Text.trimEnd hfront
  rw [b.trimEnd_append (hstop _), ← List.append_assoc,
    Blanks.trimEnd_append ⟨blanks, hblanks⟩ (hstop _)] at htrim
  have hspaces := List.append_cancel_right htrim
  obtain ⟨last, hmem⟩ : ∃ last, u.getLast? = some last := ⟨_, List.getLast?_eq_some_getLast hne⟩
  have hspace : isSpace last = true := by
    refine hblank last ?_
    rw [← hspaces]
    exact List.mem_append_left _ (List.mem_of_getLast? hmem)
  rw [hlast last hmem] at hspace
  cases hspace

/-- **A clause ends at its last character that is no blank.** -/
theorem clause?_append (hd : EndsClause d) (hu : ∀ c ∈ u, isClauseChar c = true)
    (hlast : ∀ c ∈ u.getLast?, isSpace c = false) (g b : Blanks)
    (h : source? (d :: s) = some (name, rest)) :
    clause? (u ++ (g.text ++ ("from".toList ++ (b.text ++ d :: s)))) = some (u, name, rest) := by
  induction u with
  | nil =>
    have hfrom : Stops isSpace ("from".toList ++ (b.text ++ d :: s)) := Text.stops_cons.mpr rfl
    refine clause?_of_fromSource? ?_
    rw [List.nil_append, fromSource?, g.skipSpaces_append hfrom, Text.after?_append_self]
    show source? (Text.skipSpaces (b.text ++ d :: s)) = _
    rw [b.skipSpaces_append (Text.stops_cons.mpr (isSpace_eq_false_of_endsClause hd)), h]
  | cons c u ih =>
    have hu' : ∀ d ∈ u, isClauseChar d = true := fun d hd => hu d (List.mem_cons_of_mem c hd)
    have hlast' : ∀ d ∈ u.getLast?, isSpace d = false := by
      intro d hd
      refine hlast d ?_
      rw [List.getLast?_cons, Option.mem_def.mp hd]
      rfl
    have hnone := fromSource?_of_clause hd hu (List.cons_ne_nil c u) hlast g b (s := s)
    exact clause?_of_none hnone (hu c List.mem_cons_self) (ih hu' hlast')

/-! ### Lines that are passed over -/

theorem spaces?_append_cons (hd : isSpace d = false) :
    Text.spaces? (u ++ d :: t) = (Text.spaces? u).map (· ++ d :: t) := by
  cases u with
  | nil => exact if_neg (by rw [hd]; exact Bool.false_ne_true)
  | cons c u =>
    rw [List.cons_append, Text.spaces?, Text.spaces?, skipSpaces_append_cons hd]
    split <;> rfl

/-- The words that start an import are looked for up to the end of a clause. -/
theorem afterImport?_append_cons (hd : EndsClause d) :
    (afterImport? (u ++ d :: t)).bind Text.spaces?
      = ((afterImport? u).bind Text.spaces?).map (· ++ d :: t) := by
  have hspace := isSpace_eq_false_of_endsClause hd
  have hinline : isInline d = false := by
    by_contra hinline
    rw [Text.isSpace_of_isInline (Bool.eq_true_of_not_eq_false hinline)] at hspace
    cases hspace
  have hword : d ∉ "import".toList := by
    intro hmem
    have hall : ∀ c ∈ "import".toList, isClauseChar c = true := List.all_eq_true.mp (by decide)
    exact Bool.noConfusion ((hall d hmem).symm.trans hd)
  have hskip : Text.skipInline (u ++ d :: t) = Text.skipInline u ++ d :: t :=
    Text.dropWhile_append_of_stops (Text.stops_cons.mpr hinline)
  rw [afterImport?, afterImport?, hskip, Text.after?_append_cons hword]
  cases Text.after? "import".toList (Text.skipInline u) with
  | none => rfl
  | some v => exact spaces?_append_cons hspace

/-- Up to a quote nothing is bound to `require`, whatever words stand there. -/
theorem importRequire?_clause (hd : EndsClause d) (hequals : d ≠ '=')
    (hu : ∀ c ∈ u, isClauseChar c = true) : importRequire? (u ++ d :: t) = none := by
  have hstart := afterImport?_append_cons (u := u) (t := t) hd
  cases hfound : (afterImport? u).bind Text.spaces? with
  | none =>
    rw [hfound] at hstart
    rw [importRequire?, hstart]
    rfl
  | some v =>
    rw [hfound] at hstart
    refine importRequire?_of_clause hd hequals (fun c hc => hu c ?_) hstart
    obtain ⟨r, hafter, hspaces⟩ := Option.bind_eq_some_iff.mp hfound
    have hr : c ∈ r := by
      cases r with
      | nil => cases hspaces
      | cons e r =>
        rw [Text.spaces?, Option.ite_none_right_eq_some] at hspaces
        rw [← Option.some.inj hspaces.2] at hc
        exact List.mem_cons_of_mem e (mem_of_mem_skipSpaces hc)
    exact (Text.suffix_skipInline u).subset (mem_of_after? hafter hr)

/-! ### Imports -/

/-- An import on lines of its own. -/
structure ImportDecl where
  indent : Text
  start : Space
  clause : ImportClause
  gap : Space
  behind : Blanks
  quote : Char
  source : Text
  before : Text
  semi : Bool
  after : Text
  carriageReturn : Bool
  inline : indent.all isInline = true
  isQuote : isQuote quote = true
  isSource : source.all isSourceChar = true
  inlineBefore : before.all isInline = true
  inlineAfter : after.all isInline = true

namespace ImportDecl

variable (i : ImportDecl)

/-- The text in front of the source: characters of clauses, and nothing else. -/
def front : Text :=
  i.indent ++ ("import".toList ++ (i.start.text ++ (i.clause.text ++ (i.gap.text ++
    ("from".toList ++ i.behind.text)))))

/-- What ends the line behind the source, up to the newline. -/
def ending : Text :=
  i.before ++ (semicolon i.semi ++ (i.after ++ if i.carriageReturn then ['\r'] else []))

/-- The text of an import, with the end of its last line. -/
def text : Text := i.front ++ i.quote :: (i.source ++ i.quote :: (i.ending ++ ['\n']))

/-- What an import binds. -/
def binding : Import := i.clause.binding i.source

/-- What is read of it. -/
def decoded : Import := i.clause.decoded i.source

/-- True of an import that is read as what it binds: it names a module, and nothing in it is taken
for a type. -/
def IsRead : Prop := i.source ≠ [] ∧ i.clause.isRead = true

instance : Decidable i.IsRead := inferInstanceAs (Decidable (_ ∧ _))

theorem endsClause_quote : EndsClause i.quote := by
  have hquote := i.isQuote
  simp only [Script.isQuote, Bool.or_eq_true, beq_iff_eq] at hquote
  obtain h | h := hquote <;> rw [h] <;> rfl

theorem quote_ne (hc : Script.isQuote c = false) : i.quote ≠ c := by
  rintro rfl
  rw [i.isQuote] at hc
  cases hc

theorem isClauseChar_front : ∀ c ∈ i.front, isClauseChar c = true := by
  have hword : ∀ c ∈ "import".toList, isClauseChar c = true := List.all_eq_true.mp (by decide)
  intro c hc
  simp only [front, List.mem_append] at hc
  obtain hc | hc | hc | hc | hc | hc | hc := hc
  · exact isClauseChar_of_isSpace (Layout.isSpace_of_inline i.inline c hc)
  · exact hword c hc
  · exact i.start.isClauseChar c hc
  · exact i.clause.isClauseChar c hc
  · exact i.gap.isClauseChar c hc
  · exact Layout.isClauseChar_from c hc
  · exact i.behind.isClauseChar c hc

theorem source?_text (hne : i.source ≠ []) (t : Text) :
    source? (i.quote :: (i.source ++ i.quote :: t)) = some (i.source, t) := by
  have hsource := Module.source?_text ⟨i.quote, i.source, i.isQuote, hne, i.isSource⟩ t
  rwa [SourceName.text_append] at hsource

theorem skipEnd_ending (t : Text) : skipEnd (i.ending ++ '\n' :: t) = t := by
  have hbefore : ∀ s, Text.skipInline (i.before ++ s) = Text.skipInline s := fun s =>
    List.dropWhile_append_of_pos (List.all_eq_true.mp i.inlineBefore)
  have hafter : ∀ s, Text.skipInline (i.after ++ s) = Text.skipInline s := fun s =>
    List.dropWhile_append_of_pos (List.all_eq_true.mp i.inlineAfter)
  have htext : i.ending ++ '\n' :: t = i.before ++ (semicolon i.semi ++ (i.after ++
      ((if i.carriageReturn then ['\r'] else []) ++ '\n' :: t))) := by
    simp only [ending, List.append_assoc]
  rw [htext, Layout.skipEnd_eq, hbefore]
  cases i.semi with
  | false =>
    show Layout.afterBreak (Layout.afterSemicolon (Text.skipInline (i.after ++ _))) = t
    rw [hafter]
    cases i.carriageReturn <;> rfl
  | true =>
    show Layout.afterBreak (Text.skipInline (i.after ++ _)) = t
    rw [hafter]
    cases i.carriageReturn <;> rfl

theorem text_append (t : Text) : i.text ++ t
    = i.front ++ i.quote :: (i.source ++ i.quote :: (i.ending ++ '\n' :: t)) := by
  simp only [text, List.append_assoc, List.cons_append, List.nil_append]

/-- **The reader takes the import, with the end of its last line.** -/
theorem importFrom?_text (hne : i.source ≠ []) (t : Text) :
    importFrom? (i.text ++ t) = some (i.decoded, t) := by
  obtain ⟨b, hskip, htypeOnly⟩ := i.clause.skipWord_text i.gap
    (i.behind.text ++ i.quote :: (i.source ++ i.quote :: (i.ending ++ '\n' :: t)))
  have hstart : (afterImport? (i.text ++ t)).bind Text.spaces?
      = some (i.clause.text ++ (i.gap.text ++ ("from".toList ++ (i.behind.text ++
        i.quote :: (i.source ++ i.quote :: (i.ending ++ '\n' :: t)))))) := by
    have htext : i.text ++ t = i.indent ++ ("import".toList ++ (i.start.text ++ (i.clause.text ++
        (i.gap.text ++ ("from".toList ++ (i.behind.text ++ i.quote :: (i.source ++
          i.quote :: (i.ending ++ '\n' :: t)))))))) := by
      simp only [text_append, front, List.append_assoc]
    have hclause : Stops isSpace (i.clause.text ++ (i.gap.text ++ ("from".toList ++ (i.behind.text ++
        i.quote :: (i.source ++ i.quote :: (i.ending ++ '\n' :: t)))))) := by
      intro c hc
      rw [List.head?_append_of_ne_nil _ i.clause.tight.ne_nil] at hc
      exact i.clause.tight.first c hc
    rw [htext, Layout.afterImport?_append i.inline, Option.bind_some, i.start.spaces?_append hclause]
  have hread : ∀ c ∈ i.clause.read, isClauseChar c = true := fun c hc =>
    i.clause.isClauseChar c (i.clause.read_suffix.subset hc)
  have hclause := clause?_append i.endsClause_quote hread i.clause.getLast?_read b i.behind
    (i.source?_text hne (i.ending ++ '\n' :: t))
  rw [hskip] at htypeOnly
  simp only [importFrom?, hstart, Option.bind_eq_bind, Option.bind_some, hskip, hclause, htypeOnly,
    Import.ofClause_read, i.skipEnd_ending]
  rfl

theorem noNewline_source : '\n' ∉ i.source :=
  fun h => absurd (List.all_eq_true.mp i.isSource _ h) (by decide)

theorem noNewline_ending : '\n' ∉ i.ending := by
  have hinline : ∀ {u : Text}, u.all isInline = true → '\n' ∉ u := fun hu h =>
    absurd (List.all_eq_true.mp hu _ h) (by decide)
  have hreturn : '\n' ∉ (if i.carriageReturn then ['\r'] else []) := by
    cases i.carriageReturn <;> decide
  simp only [ending, List.mem_append, not_or]
  exact ⟨hinline i.inlineBefore, noNewline_semicolon i.semi, hinline i.inlineAfter, hreturn⟩

/-- The pass for `require` passes over the import. -/
theorem pieces_importRequire? (t : Text) : pieces importRequire? (i.text ++ t)
    = i.text.map .passed ++ pieces importRequire? t := by
  have hquote : (i.quote == '\n') = false := beq_eq_false_iff_ne.mpr (i.quote_ne rfl)
  have hnone : ∀ u, (∀ c ∈ u, isClauseChar c = true) → importRequire? (u ++
      i.quote :: (i.source ++ i.quote :: (i.ending ++ '\n' :: t))) = none := fun u hu =>
    importRequire?_clause i.endsClause_quote (i.quote_ne rfl) hu
  -- what starts in front of the quote, on whatever line, has characters of clauses up to it
  have hfront : linesAvoid (fun u => !u.all isClauseChar) true i.front = true := by
    refine Text.linesAvoid_of_suffix true fun v hv => ?_
    rw [List.all_eq_true.mpr fun c hc => i.isClauseChar_front c (hv.subset hc)]
    rfl
  have hline : '\n' ∉ i.source ++ i.quote :: i.ending := by
    simp only [List.mem_append, List.mem_cons, not_or]
    exact ⟨i.noNewline_source, (i.quote_ne rfl).symm, i.noNewline_ending⟩
  have hrest : i.source ++ i.quote :: (i.ending ++ '\n' :: t)
      = i.source ++ i.quote :: i.ending ++ '\n' :: t := by
    simp only [List.append_assoc, List.cons_append]
  have htext : i.text = i.front ++ i.quote :: (i.source ++ i.quote :: i.ending ++ ['\n']) := by
    simp only [text, List.append_assoc, List.cons_append]
  rw [text_append, pieces, Text.piecesFrom_avoid true (fun u hu => hnone u fun c hc =>
    List.all_eq_true.mp (by simpa using hu) c hc) hfront,
    Text.piecesFrom_cons_of_none fun _ => hnone [] (List.forall_mem_nil _), hquote, hrest,
    Text.piecesFrom_line hline,
    htext]
  simp only [List.map_append, List.map_cons, List.append_assoc, List.cons_append]

theorem pieces_importFrom? (hne : i.source ≠ []) (t : Text) : pieces importFrom? (i.text ++ t)
    = .found i.decoded :: pieces importFrom? t := by
  have htext : i.text = i.front ++ i.quote :: (i.source ++ i.quote :: i.ending) ++ ['\n'] := by
    simp only [text, List.append_assoc, List.cons_append]
  have htextne : i.text ≠ [] := by
    rw [htext]
    exact List.append_ne_nil_of_right_ne_nil _ (List.cons_ne_nil _ _)
  rw [Text.pieces_found htextne (i.importFrom?_text hne t), htext, Text.startsBehind_newline]
  rfl

end ImportDecl

/-! ### Imports in front of code -/

/-- The text of imports, one behind the other. -/
def importsText (is : List ImportDecl) : Text := is.flatMap ImportDecl.text

variable {is : List ImportDecl}

theorem remove_importRequire?_append (is : List ImportDecl) (body : Text) :
    remove importRequire? (importsText is ++ body)
      = (importsText is ++ (remove importRequire? body).1, (remove importRequire? body).2) := by
  induction is with
  | nil => rfl
  | cons i is ih =>
    have hpieces := i.pieces_importRequire? (importsText is ++ body)
    have hcode := congrArg Prod.fst ih
    have hfound := congrArg Prod.snd ih
    dsimp only [remove] at hcode hfound
    rw [importsText, List.flatMap_cons, ← importsText, List.append_assoc]
    unfold remove Text.replaceFindings findings
    rw [hpieces, List.flatMap_append, Text.flatMap_passed, List.filterMap_append,
      Text.filterMap_passed, List.append_assoc]
    exact Prod.ext (congrArg (i.text ++ ·) hcode) hfound

theorem remove_importFrom?_append (hsource : ∀ i ∈ is, i.source ≠ []) (body : Text) :
    remove importFrom? (importsText is ++ body)
      = ((remove importFrom? body).1, is.map ImportDecl.decoded ++ (remove importFrom? body).2) := by
  induction is with
  | nil => rfl
  | cons i is ih =>
    obtain ⟨hi, his⟩ := List.forall_mem_cons.mp hsource
    have hpieces := i.pieces_importFrom? hi (importsText is ++ body)
    have hcode := congrArg Prod.fst (ih his)
    have hfound := congrArg Prod.snd (ih his)
    dsimp only [remove] at hcode hfound
    rw [importsText, List.flatMap_cons, ← importsText, List.append_assoc]
    unfold remove Text.replaceFindings findings
    rw [hpieces]
    exact Prod.ext hcode (congrArg (i.decoded :: ·) hfound)

/-- Imports in front of code come to the others that the same pass finds, and the code is gone over
as if they were not there. -/
theorem strip_append (hsource : ∀ i ∈ is, i.source ≠ []) (body : Text) :
    ∃ required imported loaded, (strip body).imports = required ++ imported ++ loaded ∧
      strip (importsText is ++ body) = ⟨(strip body).code, (strip body).defaultExports,
        required ++ (is.map ImportDecl.decoded ++ imported) ++ loaded⟩ := by
  have hrequired := remove_importRequire?_append is body
  have himported := remove_importFrom?_append hsource (remove importRequire? body).1
  refine ⟨(remove importRequire? body).2, (remove importFrom? (remove importRequire? body).1).2,
    (remove importSource? (remove importFrom? (remove importRequire? body).1).1).2, rfl, ?_⟩
  unfold strip
  rw [hrequired]
  dsimp only
  rw [himported]

theorem ne_nil_of_source? (h : source? s = some (name, rest)) : name ≠ [] := by
  unfold source? at h
  split at h
  · cases h
  · dsimp only at h
    split at h
    · rw [Option.ite_none_right_eq_some, Bool.and_eq_true] at h
      obtain ⟨⟨-, hne⟩, heq⟩ := h
      cases heq
      simpa using hne
    · cases h

theorem ne_nil_of_fromSource? (h : fromSource? s = some (name, rest)) : name ≠ [] := by
  obtain ⟨_, -, hsource⟩ := Option.bind_eq_some_iff.mp h
  exact ne_nil_of_source? hsource

theorem ne_nil_of_clause? {clause : Text} (h : clause? s = some (clause, name, rest)) : name ≠ [] := by
  induction s generalizing clause with
  | nil => cases h
  | cons c s ih =>
    rw [clause?_cons] at h
    split at h
    · rename_i source behind hfound
      cases h
      exact ne_nil_of_fromSource? hfound
    · rw [Option.ite_none_right_eq_some] at h
      obtain ⟨-, h⟩ := h
      obtain ⟨⟨clause', name', rest'⟩, hclause, heq⟩ := Option.map_eq_some_iff.mp h
      cases heq
      exact ih hclause

theorem source_ofClause (clause source : Text) (typeOnly : Bool) :
    (Import.ofClause clause source typeOnly).source = source := by
  have hpart : ∀ (i : Import) (part : Text), (i.addPart part).source = i.source := by
    intro i part
    unfold Import.addPart
    dsimp only
    split <;> split <;> rfl
  have hparts : ∀ (parts : List Text) (i : Import),
      (parts.foldl Import.addPart i).source = i.source := by
    intro parts
    induction parts with
    | nil => exact fun _ => rfl
    | cons part parts ih => exact fun i => (ih _).trans (hpart i part)
  exact hparts _ _

/-- Every import that is recorded names a module. -/
theorem source_ne_nil_of_mem_strip {code : Text} {i : Import} (h : i ∈ (strip code).imports) :
    i.source ≠ [] := by
  unfold strip at h
  dsimp only [remove] at h
  rw [List.append_assoc, List.mem_append, List.mem_append] at h
  obtain h | h | h := h
  · obtain ⟨_, _, hfound⟩ := Text.exists_of_mem_findings h
    simp only [importRequire?, Option.bind_eq_bind, Option.bind_eq_some_iff, Prod.exists] at hfound
    obtain ⟨_, _, _, _, _, _, _, _, _, _, _, hsource, _, _, heq⟩ := hfound
    cases heq
    exact ne_nil_of_source? hsource
  · obtain ⟨_, _, hfound⟩ := Text.exists_of_mem_findings h
    simp only [importFrom?, Option.bind_eq_bind, Option.bind_eq_some_iff, Prod.exists] at hfound
    obtain ⟨_, _, clause, name, _, hclause, heq⟩ := hfound
    cases heq
    rw [source_ofClause]
    exact ne_nil_of_clause? hclause
  · obtain ⟨_, _, hfound⟩ := Text.exists_of_mem_findings h
    simp only [importSource?, Option.bind_eq_bind, Option.bind_eq_some_iff, Prod.exists] at hfound
    obtain ⟨_, _, _, _, hsource, heq⟩ := hfound
    cases heq
    exact ne_nil_of_source? hsource

theorem ImportDecl.source_binding (i : ImportDecl) : i.binding.source = i.source := by
  unfold binding
  cases i.clause with
  | default x => rfl
  | group g => cases g <;> rfl
  | both x before behind g => cases g <;> rfl

theorem ImportDecl.isRead_iff {i : ImportDecl} (hne : i.source ≠ []) :
    i.IsRead ↔ i.decoded = i.binding :=
  (and_iff_right hne).trans (i.clause.decoded_eq_iff i.source).symm

/-- **Imports in front of code are decoded to their bindings exactly if each is read as what it
binds.**  The code behind them is left as it is, and no other import and no default export is
recorded, exactly if no reader finds anything in that code; so it is where no line of it starts with
the word `import` or `export`. -/
theorem strip_imports (is : List ImportDecl) (body : Text) :
    (strip (importsText is ++ body) = ⟨body, [], is.map ImportDecl.binding⟩ ↔
      (∀ i ∈ is, i.IsRead) ∧ HoldsNoStatement body) ∧
    (linesAvoid opensStatement true body = true → HoldsNoStatement body) := by
  -- where no other import is found, those in front are all that is recorded
  have hstrip : (∀ i ∈ is, i.source ≠ []) → HoldsNoStatement body →
      strip (importsText is ++ body) = ⟨body, [], is.map ImportDecl.decoded⟩ := by
    intro hsource hbody
    obtain ⟨required, imported, loaded, himports, hstrip⟩ := strip_append hsource body
    rw [strip_of_holdsNoStatement hbody] at himports hstrip
    obtain ⟨hfront, rfl⟩ := List.append_eq_nil_iff.mp himports.symm
    obtain ⟨rfl, rfl⟩ := List.append_eq_nil_iff.mp hfront
    rw [hstrip, List.append_nil, List.nil_append, List.append_nil]
  refine ⟨⟨fun h => ?_, fun ⟨hread, hbody⟩ => ?_⟩, holdsNoStatement_of_linesAvoid⟩
  · have hsource : ∀ i ∈ is, i.source ≠ [] := by
      intro i hi
      rw [← i.source_binding]
      have hrecorded : i.binding ∈ (strip (importsText is ++ body)).imports := by
        rw [h]
        exact List.mem_map_of_mem hi
      exact source_ne_nil_of_mem_strip hrecorded
    have hbody : HoldsNoStatement body := by
      obtain ⟨required, imported, loaded, -, hstrip⟩ := strip_append hsource body
      rw [hstrip] at h
      exact (strip_code_eq_iff body).mp (Stripped.mk.inj h).1
    refine ⟨fun i hi => (ImportDecl.isRead_iff (hsource i hi)).mpr ?_, hbody⟩
    rw [hstrip hsource hbody] at h
    exact List.map_inj_left.mp (Stripped.mk.inj h).2.2 i hi
  · rw [hstrip (fun i hi => (hread i hi).1) hbody]
    have hsame : is.map ImportDecl.decoded = is.map ImportDecl.binding := List.map_congr_left fun i hi =>
      (ImportDecl.isRead_iff (hread i hi).1).mp (hread i hi)
    rw [hsame]

/-- Names that are words of clauses, over lines. -/
theorem strip_imports_words :
    ∃ (is : List ImportDecl) (body : Text),
      importsText is ++ body
        = ("import from, \x7b\n  as,\n  default as React,\n\x7d from 'a';\nimport * as as from 'b'\n" ++
          "let x = 1;\n").toList ∧
      linesAvoid opensStatement true body = true ∧ (∀ i ∈ is, i.IsRead) ∧
      strip (importsText is ++ body) = ⟨"let x = 1;\n".toList, [],
        [{ source := ['a'], defaultName := some "from".toList
           named := [("as".toList, "as".toList), ("default".toList, "React".toList)] },
         { source := ['b'], namespaceName := some "as".toList }]⟩ := by
  let space : Space := ⟨⟨[' '], List.all_eq_true.mp rfl⟩, by decide⟩
  let row : Blanks := ⟨"\n  ".toList, List.all_eq_true.mp rfl⟩
  let decl (clause : ImportClause) (name : Char) (semi : Bool)
      (isName : [name].all isSourceChar = true) : ImportDecl :=
    { indent := [], start := space, clause := clause, gap := space, behind := space.toBlanks
      quote := '\'', source := [name], before := [], semi := semi, after := [], carriageReturn := false
      inline := rfl, isQuote := rfl, isSource := isName, inlineBefore := rfl, inlineAfter := rfl }
  let items : List ImportItem :=
    [⟨row, .same ⟨"as".toList, by decide⟩, .none⟩,
     ⟨row, .renamed ⟨"default".toList, by decide, List.all_eq_true.mp (by decide)⟩ space space
        ⟨"React".toList, by decide⟩, .none⟩]
  let is : List ImportDecl :=
    [decl (.both ⟨"from".toList, by decide⟩ .none space.toBlanks
        (.list items (some ⟨['\n'], List.all_eq_true.mp rfl⟩))) 'a' true rfl,
     decl (.group (.star space.toBlanks space ⟨"as".toList, by decide⟩)) 'b' false rfl]
  have havoid : linesAvoid opensStatement true "let x = 1;\n".toList = true := by decide
  have hread : ∀ i ∈ is, i.IsRead := by decide +kernel
  obtain ⟨hiff, hbody⟩ := strip_imports is "let x = 1;\n".toList
  refine ⟨is, "let x = 1;\n".toList, by decide +kernel, havoid, hread, ?_⟩
  rw [hiff.mpr ⟨hread, hbody havoid⟩]
  decide +kernel

/-- A default that is called `type` is taken for the mark of an import of types, and not bound. -/
example : (strip "import type from 'x';\n".toList).imports
    = [{ source := ['x'], typeOnly := true }] := by
  decide +kernel

end LivePreview.Module
