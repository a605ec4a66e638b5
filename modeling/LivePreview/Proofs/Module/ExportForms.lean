/-
What the readers of exports find.

Behind `export` and a blank the readers tell the forms apart by the next character or word: a
brace opens a list, a star and an equals sign open the two forms that are named after them, and
`default` opens a default export.  What is left is a declaration.
-/
import LivePreview.Proofs.Module.StatementReading
import LivePreview.Proofs.Text.Words

namespace LivePreview.Module

open Script
open Text (LineEnds linesAvoid Stops)

variable {s t e : Text}

/-! ### Behind the word -/

theorem afterExport_spaces?_export (s : Text) :
    (afterExport? ("export ".toList ++ s)).bind Text.spaces? = some (Text.skipSpaces s) := rfl

theorem afterExportDefault?_default (s : Text) :
    afterExportDefault? ("export default ".toList ++ s) = some (Text.skipSpaces s) := rfl

theorem skipSpaces_of_startsIdent (h : startsIdent s = true) : Text.skipSpaces s = s := by
  cases s with
  | nil => rfl
  | cons c s => exact skipSpaces_cons (isSpace_eq_false_of_isIdentChar (isIdentChar_of_start h))

theorem startsIdent_append (h : startsIdent s = true) (t : Text) : startsIdent (s ++ t) = true := by
  cases s with
  | nil => exact absurd h (by decide)
  | cons c s => exact h

theorem ne_of_startsIdent {c d : Char} (h : startsIdent (c :: s) = true)
    (hd : isIdentStart d = false) : d ≠ c := by
  rintro rfl
  have h : isIdentStart d = true := h
  rw [hd] at h
  exact Bool.noConfusion h

/-- Where a word stands behind `export`, there is no star and no equals sign. -/
theorem exportStar?_of_startsIdent (h : startsIdent s = true) :
    exportStar? ("export ".toList ++ s) = none := by
  cases s with
  | nil => exact absurd h (by decide)
  | cons c s =>
    have hc : '*' ≠ c := ne_of_startsIdent h rfl
    have hstar : Text.after? ['*'] (c :: s) = none := if_neg hc
    rw [exportStar?, afterExport_spaces?_export, skipSpaces_of_startsIdent h]
    simp only [Option.bind_eq_bind, Option.bind_some, hstar, Option.bind_none]

theorem exportAssign?_of_startsIdent (h : startsIdent s = true) :
    exportAssign? ("export ".toList ++ s) = none := by
  cases s with
  | nil => exact absurd h (by decide)
  | cons c s =>
    have hc : '=' ≠ c := ne_of_startsIdent h rfl
    have hstart : Text.skipSpaces (' ' :: (c :: s)) = c :: s := skipSpaces_of_startsIdent h
    have hafter : afterExport? ("export ".toList ++ c :: s) = some (' ' :: (c :: s)) := rfl
    have hequals : Text.after? ['='] (c :: s) = none := if_neg hc
    rw [exportAssign?, hafter]
    simp only [Option.bind_eq_bind, Option.bind_some, hstart, hequals, Option.bind_none]

/-! ### Lists -/

theorem noSpace_of_isWord {w : Text} (h : IsWord w) : ∀ c ∈ w, isSpace c = false :=
  fun c hc => isSpace_eq_false_of_isIdentChar (h.identChars c hc)

theorem Identifier.isIdentChar (x : Identifier) : ∀ c ∈ x.text, isIdentChar c = true :=
  (isWord_of_isIdentifier x.isIdentifier).identChars

theorem Identifier.ne_nil (x : Identifier) : x.text ≠ [] :=
  (isWord_of_isIdentifier x.isIdentifier).ne_nil

theorem Identifier.noSpace (x : Identifier) : ∀ c ∈ x.text, isSpace c = false :=
  noSpace_of_isWord (isWord_of_isIdentifier x.isIdentifier)

/-- An identifier is no reserved word. -/
theorem Identifier.ne_default (x : Identifier) : x.text ≠ "default".toList := by
  intro hx
  have hreserved := not_isReserved_of_isIdentifier x.isIdentifier
  rw [hx] at hreserved
  exact absurd hreserved (by decide)

/-- The blanks that can stand behind a specifier. -/
theorem words_identifier (x : Identifier) {s : Text} (hs : s = [] ∨ s = [' ']) :
    Text.words (x.text ++ s) = [x.text] := by
  rcases hs with rfl | rfl
  · rw [List.append_nil]
    exact Text.words_of_none x.ne_nil x.noSpace
  · exact Text.words_append_cons x.ne_nil x.noSpace rfl

theorem words_as (x : Identifier) (s : Text) :
    Text.words (x.text ++ (" as ".toList ++ s)) = x.text :: "as".toList :: Text.words s := by
  have htext : x.text ++ (" as ".toList ++ s) = x.text ++ ' ' :: ("as".toList ++ ' ' :: s) := rfl
  have has : IsWord "as".toList := isWord_of_all (by decide) (by decide)
  rw [htext, Text.words_append_cons x.ne_nil x.noSpace rfl,
    Text.words_append_cons has.ne_nil (noSpace_of_isWord has) rfl]

/-- A specifier between blanks is read back. -/
theorem defaultSpecifier?_text (item : ListItem) (hs : s = [] ∨ s = [' ']) :
    defaultSpecifier? (' ' :: (item.text ++ s)) = item.default? := by
  cases item with
  | same x =>
    have hwords : Text.words (' ' :: (x.text ++ s)) = [x.text] := by
      rw [Text.words_space rfl, words_identifier x hs]
    simp only [ListItem.text, defaultSpecifier?, hwords]
    rfl
  | renamed x y =>
    have hwords : Text.words (' ' :: (x.text ++ " as ".toList ++ y.text ++ s))
        = [x.text, "as".toList, y.text] := by
      rw [Text.words_space rfl, List.append_assoc, List.append_assoc, words_as,
        words_identifier y hs]
    simp only [ListItem.text, defaultSpecifier?, hwords, y.ne_default, decide_false,
      Bool.and_false, Bool.false_and, Bool.false_eq_true, if_false]
    rfl
  | default x =>
    have hdefault : Text.words ("default".toList ++ s) = ["default".toList] := by
      rcases hs with rfl | rfl <;> rfl
    have hwords : Text.words (' ' :: (x.text ++ " as default".toList ++ s))
        = [x.text, "as".toList, "default".toList] := by
      have htext : " as default".toList ++ s = " as ".toList ++ ("default".toList ++ s) := rfl
      rw [Text.words_space rfl, List.append_assoc, htext, words_as, hdefault]
    simp only [ListItem.text, defaultSpecifier?, hwords, x.isIdentifier, decide_true,
      Bool.and_self, if_true]
    rfl

/-- A specifier is made of words and blanks. -/
theorem ListItem.isIdentChar_or_eq (item : ListItem) {c : Char} (h : c ∈ item.text) :
    isIdentChar c = true ∨ c = ' ' := by
  have has : ∀ c ∈ " as default".toList, (isIdentChar c || c == ' ') = true :=
    List.all_eq_true.mp rfl
  have hor : (isIdentChar c || c == ' ') = true := by
    cases item with
    | same x => rw [x.isIdentChar c h, Bool.true_or]
    | renamed x y =>
      simp only [ListItem.text, List.mem_append] at h
      rcases h with (h | h) | h
      · rw [x.isIdentChar c h, Bool.true_or]
      · exact has c (List.mem_append_left "default".toList h)
      · rw [y.isIdentChar c h, Bool.true_or]
    | default x =>
      simp only [ListItem.text, List.mem_append] at h
      rcases h with h | h
      · rw [x.isIdentChar c h, Bool.true_or]
      · exact has c h
  simpa using hor

theorem ListItem.ne_of_mem (item : ListItem) {c d : Char} (h : c ∈ item.text)
    (hd : isIdentChar d = false) (hspace : d ≠ ' ') : c ≠ d := by
  rintro rfl
  obtain hc | hc := item.isIdentChar_or_eq h
  · rw [hd] at hc
    exact Bool.noConfusion hc
  · exact hspace hc

theorem listText_singleton (item : ListItem) : listText [item] = item.text := by
  simp [listText, Text.join]

theorem listText_cons_cons (item next : ListItem) (items : List ListItem) :
    listText (item :: next :: items) = item.text ++ ',' :: ' ' :: listText (next :: items) := by
  simp [listText, Text.join, List.intercalate]

theorem ne_of_mem_listText {items : List ListItem} {d : Char} (hd : isIdentChar d = false)
    (hspace : d ≠ ' ') (hcomma : d ≠ ',') : ∀ c ∈ listText items, c ≠ d := by
  induction items with
  | nil =>
    intro c hc
    cases hc
  | cons item items ih =>
    intro c hc
    cases items with
    | nil =>
      rw [listText_singleton] at hc
      exact item.ne_of_mem hc hd hspace
    | cons next items =>
      rw [listText_cons_cons] at hc
      simp only [List.mem_append, List.mem_cons] at hc
      rcases hc with hc | rfl | rfl | hc
      · exact item.ne_of_mem hc hd hspace
      · exact Ne.symm hcomma
      · exact Ne.symm hspace
      · exact ih c hc

/-- The specifiers of a list are read back. -/
theorem defaultSpecifiers_listText (items : List ListItem) :
    (Text.fields ',' (' ' :: (listText items ++ [' ']))).filterMap defaultSpecifier?
      = items.filterMap ListItem.default? := by
  have hnone : ∀ (item : ListItem) (s : Text), s = [] ∨ s = [' '] →
      ∀ c ∈ ' ' :: (item.text ++ s), (c == ',') = false := by
    intro item s hs c hc
    simp only [List.mem_cons, List.mem_append] at hc
    refine beq_eq_false_iff_ne.mpr ?_
    rcases hc with rfl | hc | hc
    · decide
    · exact item.ne_of_mem hc rfl (by decide)
    · rcases hs with rfl | rfl
      · cases hc
      · rw [List.mem_singleton.mp hc]
        decide
  induction items with
  | nil => rfl
  | cons item items ih =>
    cases items with
    | nil =>
      rw [listText_singleton, Text.fields, Text.splitBy_of_none (hnone item [' '] (Or.inr rfl)),
        List.filterMap_cons, defaultSpecifier?_text item (Or.inr rfl)]
      rfl
    | cons next items =>
      have htext : ' ' :: (listText (item :: next :: items) ++ [' '])
          = (' ' :: (item.text ++ [])) ++ ',' :: (' ' :: (listText (next :: items) ++ [' '])) := by
        simp [listText_cons_cons]
      rw [htext, Text.fields, Text.splitBy_append_cons (hnone item [] (Or.inl rfl)) (by decide),
        List.filterMap_cons, List.filterMap_cons, defaultSpecifier?_text item (Or.inl rfl), ← ih]
      rfl

/-- Behind the braces of a list, a source and the end of the statement are passed over. -/
theorem skipEnd_fromText (source : Option SourceName) (semi : Bool) (he : Follows e) :
    skipEnd (match fromSource? (fromText source ++ (semicolon semi ++ e)) with
      | some (_, rest) => rest
      | none => fromText source ++ (semicolon semi ++ e)) = e.tail := by
  cases source with
  | none =>
    have hnone : fromSource? (semicolon semi ++ e) = none := by
      cases semi with
      | true => rfl
      | false => exact he.noSource
    show skipEnd (match fromSource? (semicolon semi ++ e) with
      | some (_, rest) => rest
      | none => semicolon semi ++ e) = e.tail
    rw [hnone]
    exact skipEnd_semicolon semi he.lineEnds
  | some source =>
    have hfound : fromSource? (fromText (some source) ++ (semicolon semi ++ e))
        = some (source.name, semicolon semi ++ e) := by
      have htext : fromText (some source) ++ (semicolon semi ++ e)
          = ' ' :: ("from ".toList ++ (source.text ++ (semicolon semi ++ e))) := by
        show " from ".toList ++ source.text ++ (semicolon semi ++ e) = _
        rw [List.append_assoc]
        rfl
      rw [htext]
      exact fromSource?_from source (semicolon semi ++ e)
    rw [hfound]
    exact skipEnd_semicolon semi he.lineEnds

/-- A list of exports is found, with the names that it exports as the default. -/
theorem takesAs_exportList (items : List ListItem) (source : Option SourceName) (semi : Bool) :
    TakesAs exportList? (.exportList items source semi) (items.filterMap ListItem.default?) := by
  intro e he
  have htext : (Statement.exportList items source semi).text ++ e
      = "export ".toList ++ ('{' :: (' ' :: (listText items ++ [' ']) ++
        '\x7d' :: (fromText source ++ (semicolon semi ++ e)))) := by
    show "export \x7b ".toList ++ listText items ++ " \x7d".toList ++ fromText source ++
      semicolon semi ++ e = _
    simp only [List.append_assoc, List.cons_append]
    rfl
  have hinside : ∀ c ∈ ' ' :: (listText items ++ [' ']), (c != '\x7d') = true := by
    intro c hc
    simp only [List.mem_cons, List.mem_append, List.not_mem_nil, or_false] at hc
    refine bne_iff_ne.mpr ?_
    rcases hc with rfl | hc | rfl
    · decide
    · exact ne_of_mem_listText rfl (by decide) (by decide) c hc
    · decide
  have hcut : Text.cutFirst '\x7d' (' ' :: (listText items ++ [' ']) ++
      '\x7d' :: (fromText source ++ (semicolon semi ++ e)))
      = some (' ' :: (listText items ++ [' ']), fromText source ++ (semicolon semi ++ e)) := by
    have hstop : Stops (· != '\x7d') ('\x7d' :: (fromText source ++ (semicolon semi ++ e))) :=
      Text.stops_cons.mpr (by decide)
    rw [Text.cutFirst, Text.dropWhile_append hinside hstop, Text.takeWhile_append hinside hstop]
  have hbrace : Text.after? ['{'] (skipWord "type".toList ('{' :: (' ' :: (listText items ++ [' ']) ++
      '\x7d' :: (fromText source ++ (semicolon semi ++ e)))))
      = some (' ' :: (listText items ++ [' ']) ++ '\x7d' :: (fromText source ++
        (semicolon semi ++ e))) := rfl
  have hstart : Text.skipSpaces ('{' :: (' ' :: (listText items ++ [' ']) ++
      '\x7d' :: (fromText source ++ (semicolon semi ++ e))))
      = '{' :: (' ' :: (listText items ++ [' ']) ++
      '\x7d' :: (fromText source ++ (semicolon semi ++ e))) := skipSpaces_cons rfl
  rw [htext, exportList?, afterExport_spaces?_export, hstart]
  simp only [Option.bind_eq_bind, Option.bind_some, hbrace, hcut, defaultSpecifiers_listText]
  exact congrArg (fun rest => some (_, rest)) (skipEnd_fromText source semi he)

/-! ### Stars and assignments -/

theorem skipAlias_aliasText (name : Option Identifier) (s : Text) :
    skipAlias (aliasText name ++ ' ' :: 'f' :: s) = ' ' :: 'f' :: s := by
  cases name with
  | none => rfl
  | some x =>
    have hspaces : Text.spaces? (aliasText (some x) ++ ' ' :: 'f' :: s)
        = some ("as ".toList ++ (x.text ++ ' ' :: 'f' :: s)) := by
      show Text.spaces? (" as ".toList ++ x.text ++ ' ' :: 'f' :: s) = _
      rw [List.append_assoc]
      rfl
    have has : (Text.after? "as".toList ("as ".toList ++ (x.text ++ ' ' :: 'f' :: s))).bind
        Text.spaces? = some (Text.skipSpaces (x.text ++ ' ' :: 'f' :: s)) := rfl
    have hname : name? (x.text ++ ' ' :: 'f' :: s) = some (x.text, ' ' :: 'f' :: s) :=
      name?_identifier x (Text.stops_cons.mpr (by decide))
    simp only [skipAlias, hspaces, Option.bind_eq_bind, Option.bind_some, has,
      skipSpaces_identifier, hname]

theorem takes_exportAll (name : Option Identifier) (source : SourceName) (semi : Bool) :
    Takes exportStar? (.exportAll name source semi) := by
  intro e he
  have htext : (Statement.exportAll name source semi).text ++ e
      = "export ".toList ++ '*' :: (aliasText name ++ ' ' :: 'f' :: ("rom ".toList ++
        (source.text ++ (semicolon semi ++ e)))) := by
    show "export *".toList ++ aliasText name ++ " from ".toList ++ source.text ++
      semicolon semi ++ e = _
    simp only [List.append_assoc]
    rfl
  have hstar : ∀ s, Text.after? ['*'] (Text.skipSpaces ('*' :: s)) = some s := fun _ => rfl
  have hspaces : ∀ s, Text.spaces? (' ' :: 'f' :: s) = some ('f' :: s) := fun _ => rfl
  have hfrom : fromSource? ('f' :: ("rom ".toList ++ (source.text ++ (semicolon semi ++ e))))
      = some (source.name, semicolon semi ++ e) := fromSource?_from source (semicolon semi ++ e)
  refine ⟨(), ?_⟩
  rw [htext, exportStar?, afterExport_spaces?_export]
  simp only [Option.bind_eq_bind, Option.bind_some, hstar, skipAlias_aliasText, hspaces, hfrom,
    skipEnd_semicolon semi he.lineEnds]
  rfl

theorem takesAs_exportAssign (name : Identifier) (semi : Bool) :
    TakesAs exportAssign? (.exportAssign name semi) name.text := by
  intro e he
  have hafter : afterExport? ((Statement.exportAssign name semi).text ++ e)
      = some (" = ".toList ++ (name.text ++ (semicolon semi ++ e))) := by
    show afterExport? ("export = ".toList ++ name.text ++ semicolon semi ++ e) = _
    simp only [List.append_assoc]
    rfl
  have hequals : Text.after? ['='] (Text.skipSpaces (" = ".toList ++ (name.text ++
      (semicolon semi ++ e)))) = some (' ' :: (name.text ++ (semicolon semi ++ e))) := rfl
  have hname : name? (Text.skipSpaces (' ' :: (name.text ++ (semicolon semi ++ e))))
      = some (name.text, semicolon semi ++ e) := by
    show name? (Text.skipSpaces (name.text ++ _)) = _
    rw [skipSpaces_identifier]
    exact name?_identifier name (stops_semicolon semi he.lineEnds (by decide) (by decide))
  simp only [exportAssign?, hafter, Option.bind_eq_bind, Option.bind_some, hequals, hname,
    skipEnd_semicolon semi he.lineEnds]
  rfl

/-! ### Statements that are left alone -/

/-- Behind `export` and a blank, a word stands in front of what is exported. -/
theorem leaves_exportStar_of_startsIdent {s : Statement} (h : ∀ e, LineEnds e →
    ∃ t, s.text ++ e = "export ".toList ++ t ∧ startsIdent t = true) : Leaves exportStar? s := by
  intro e he
  obtain ⟨t, htext, hstarts⟩ := h e he.lineEnds
  rw [htext]
  exact exportStar?_of_startsIdent hstarts

theorem leaves_exportAssign_of_startsIdent {s : Statement} (h : ∀ e, LineEnds e →
    ∃ t, s.text ++ e = "export ".toList ++ t ∧ startsIdent t = true) : Leaves exportAssign? s := by
  intro e he
  obtain ⟨t, htext, hstarts⟩ := h e he.lineEnds
  rw [htext]
  exact exportAssign?_of_startsIdent hstarts

/-- A list opens with a brace, which `type` may precede. -/
theorem exportList?_of_noBrace {t : Text}
    (h : Text.after? ['{'] (skipWord "type".toList (Text.skipSpaces t)) = none) :
    exportList? ("export ".toList ++ t) = none := by
  rw [exportList?, afterExport_spaces?_export]
  simp only [Option.bind_eq_bind, Option.bind_some, h, Option.bind_none]

section

variable (d : DeclarationText)

theorem exported_text (e : Text) :
    (Statement.exported d).text ++ e = "export ".toList ++ (d.text ++ e) := by
  show "export ".toList ++ d.text ++ e = _
  rw [List.append_assoc]

theorem leaves_exportList_exported : Leaves exportList? (.exported d) := by
  intro e he
  rw [exported_text]
  refine exportList?_of_noBrace ?_
  rw [skipSpaces_of_startsIdent (startsIdent_append d.starts e)]
  exact d.notList e he.lineEnds

theorem exists_exported_text : ∀ e, LineEnds e → ∃ t,
    (Statement.exported d).text ++ e = "export ".toList ++ t ∧ startsIdent t = true :=
  fun e _ => ⟨d.text ++ e, exported_text d e, startsIdent_append d.starts e⟩

theorem afterExportDefault?_exported (he : LineEnds e) :
    afterExportDefault? ((Statement.exported d).text ++ e) = none := by
  rw [exported_text, afterExportDefault?, afterExport_spaces?_export,
    skipSpaces_of_startsIdent (startsIdent_append d.starts e)]
  exact d.notDefault e he

theorem leaves_defaultDeclaration_exported : Leaves defaultDeclaration? (.exported d) := by
  intro e he
  rw [defaultDeclaration?, afterExportDefault?_exported d he.lineEnds]
  rfl

theorem leaves_defaultExpression_exported : Leaves defaultExpression? (.exported d) := by
  intro e he
  rw [defaultExpression?, afterExportDefault?_exported d he.lineEnds]
  rfl

end

theorem leaves_exportList_exportAll (name : Option Identifier) (source : SourceName)
    (semi : Bool) : Leaves exportList? (.exportAll name source semi) := by
  intro e _
  have htext : ∃ t, (Statement.exportAll name source semi).text ++ e
      = "export ".toList ++ '*' :: t := by
    refine ⟨aliasText name ++ " from ".toList ++ source.text ++ semicolon semi ++ e, ?_⟩
    show "export *".toList ++ aliasText name ++ " from ".toList ++ source.text ++
      semicolon semi ++ e = _
    simp only [List.append_assoc]
    rfl
  obtain ⟨t, ht⟩ := htext
  rw [ht]
  exact exportList?_of_noBrace rfl

theorem exportAssign_text (name : Identifier) (semi : Bool) (e : Text) :
    (Statement.exportAssign name semi).text ++ e
      = "export ".toList ++ '=' :: ' ' :: (name.text ++ (semicolon semi ++ e)) := by
  show "export = ".toList ++ name.text ++ semicolon semi ++ e = _
  simp only [List.append_assoc]
  rfl

theorem leaves_exportList_exportAssign (name : Identifier) (semi : Bool) :
    Leaves exportList? (.exportAssign name semi) := by
  intro e _
  rw [exportAssign_text]
  exact exportList?_of_noBrace rfl

theorem leaves_exportStar_exportAssign (name : Identifier) (semi : Bool) :
    Leaves exportStar? (.exportAssign name semi) := by
  intro e _
  rw [exportAssign_text]
  rfl

/-- What stands behind `export default` is looked at by no reader of other exports. -/
theorem exportList?_default (t : Text) : exportList? ("export default ".toList ++ t) = none :=
  exportList?_of_noBrace rfl

end LivePreview.Module
