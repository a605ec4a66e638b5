/-
What the readers of module statements leave.

Each reader goes on from part to part, so what it leaves is an end piece of its text, and that piece
stands behind the `import` or `export` that it began with.  A reader of a default export or of a
declaration also says what stays of what it read; together with what it leaves, that is less than
what was there.
-/
import LivePreview.Module.Strip
import LivePreview.Proofs.Text.Visible

namespace LivePreview

/-! ### Parts -/

namespace Text

variable {lit s rest : Text}

theorem suffix_after? (h : after? lit s = some rest) : rest <:+ s :=
  ⟨lit, (eq_append_of_after? h).symm⟩

theorem eq_append_of_afterWord? (h : afterWord? lit s = some rest) : s = lit ++ rest := by
  unfold afterWord? at h
  split at h
  · rename_i hafter
    rw [Option.ite_none_right_eq_some] at h
    cases h.2
    exact eq_append_of_after? hafter
  · cases h

theorem suffix_afterWord? (h : afterWord? lit s = some rest) : rest <:+ s :=
  ⟨lit, (eq_append_of_afterWord? h).symm⟩

theorem suffix_skipSpaces (s : Text) : skipSpaces s <:+ s := List.dropWhile_suffix isSpace

theorem suffix_skipLine (s : Text) : skipLine s <:+ s := List.dropWhile_suffix _

theorem suffix_spaces? (h : spaces? s = some rest) : rest <:+ s := by
  cases s with
  | nil => cases h
  | cons c s =>
    rw [spaces?, Option.ite_none_right_eq_some] at h
    cases h.2
    exact (suffix_skipSpaces s).trans (List.suffix_cons c s)

theorem suffix_cutFirst {sep : Char} {front : Text} (h : cutFirst sep s = some (front, rest)) :
    rest <:+ s := by
  unfold cutFirst at h
  split at h
  · cases h
  · rename_i c t hrest
    cases h
    have hdrop : c :: rest <:+ s := hrest ▸ List.dropWhile_suffix _
    exact suffix_of_cons hdrop

end Text

namespace Module

open Text (CutOff)

variable {s t rest : Text}

theorem suffix_name? {name : Text} (h : name? s = some (name, rest)) : rest <:+ s := by
  rw [name?, Option.ite_none_left_eq_some] at h
  cases h.2
  exact List.dropWhile_suffix _

theorem suffix_source? {source : Text} (h : source? s = some (source, rest)) : rest <:+ s := by
  unfold source? at h
  split at h
  · cases h
  · rename_i quote t
    split at h
    · rename_i closing u hrest
      rw [Option.ite_none_right_eq_some] at h
      cases h.2
      have hdrop : closing :: rest <:+ t := hrest ▸ List.dropWhile_suffix _
      exact (Text.suffix_of_cons hdrop).trans (List.suffix_cons quote t)
    · cases h

theorem suffix_skipEnd (s : Text) : skipEnd s <:+ s := by
  have hsemicolon : ∀ {t}, Text.skipInline s = ';' :: t → Text.skipInline t <:+ s := by
    intro t ht
    have hcons : ';' :: t <:+ s := ht ▸ Text.suffix_skipInline s
    exact (Text.suffix_skipInline t).trans (Text.suffix_of_cons hcons)
  unfold skipEnd
  dsimp only
  -- in each case, what stands behind the semicolon is an end of the text
  split
  · rename_i t hbehind
    suffices hcons : '\r' :: '\n' :: t <:+ s from Text.suffix_of_cons (Text.suffix_of_cons hcons)
    rw [← hbehind]
    split
    · exact hsemicolon ‹_›
    · exact Text.suffix_skipInline s
  · rename_i t hbehind
    suffices hcons : '\n' :: t <:+ s from Text.suffix_of_cons hcons
    rw [← hbehind]
    split
    · exact hsemicolon ‹_›
    · exact Text.suffix_skipInline s
  · split
    · exact hsemicolon ‹_›
    · exact Text.suffix_skipInline s

theorem suffix_fromSource? {source : Text} (h : fromSource? s = some (source, rest)) :
    rest <:+ s := by
  obtain ⟨t, ht, h⟩ := Option.bind_eq_some_iff.mp h
  exact (suffix_source? h).trans ((Text.suffix_skipSpaces t).trans
    ((Text.suffix_after? ht).trans (Text.suffix_skipSpaces s)))

/-- Behind a word, perhaps, and the blanks behind it. -/
theorem suffix_bind_spaces? {w : Text} (h : (Text.after? w s).bind Text.spaces? = some rest) :
    rest <:+ s := by
  obtain ⟨t, ht, h⟩ := Option.bind_eq_some_iff.mp h
  exact (Text.suffix_spaces? h).trans (Text.suffix_after? ht)

theorem suffix_skipWord (w s : Text) : skipWord w s <:+ s := by
  unfold skipWord
  cases h : (Text.after? w s).bind Text.spaces? with
  | none => exact List.suffix_rfl
  | some rest => exact suffix_bind_spaces? h

theorem clause?_cons (c : Char) (s : Text) :
    clause? (c :: s) = match fromSource? (c :: s) with
      | some (source, rest) => some ([], source, rest)
      | none =>
        if isClauseChar c then
          (clause? s).map fun (clause, source, rest) => (c :: clause, source, rest)
        else none := by
  rfl

theorem suffix_clause? {clause source : Text} (h : clause? s = some (clause, source, rest)) :
    rest <:+ s := by
  induction s generalizing clause with
  | nil => cases h
  | cons c s ih =>
    rw [clause?_cons] at h
    split at h
    · rename_i source' rest' hfrom
      cases h
      exact suffix_fromSource? hfrom
    · rw [Option.ite_none_right_eq_some] at h
      obtain ⟨⟨clause', source', rest'⟩, hclause, heq⟩ := Option.map_eq_some_iff.mp h.2
      cases heq
      exact (ih hclause).trans (List.suffix_cons c s)

theorem suffix_skipAlias (s : Text) : skipAlias s <:+ s := by
  unfold skipAlias
  dsimp only
  split
  · rename_i name rest h
    simp only [Option.bind_eq_bind, Option.bind_eq_some_iff] at h
    obtain ⟨t, ht, u, ⟨v, hv, hu⟩, hname⟩ := h
    exact (suffix_name? hname).trans ((Text.suffix_spaces? hu).trans
      ((Text.suffix_after? hv).trans (Text.suffix_spaces? ht)))
  · exact List.suffix_rfl

theorem suffix_afterDefaultHead? (h : afterDefaultHead? s = some rest) : rest <:+ s := by
  unfold afterDefaultHead? at h
  split at h
  · rename_i t hfunction
    have ht := (Text.suffix_afterWord? hfunction).trans (suffix_skipWord _ s)
    have hspaces := (Text.suffix_skipSpaces t).trans ht
    split at h
    · rename_i u hstar
      cases h
      rw [hstar] at hspaces
      exact Text.suffix_of_cons hspaces
    · cases h
      exact hspaces
  · exact (Text.suffix_afterWord? h).trans (suffix_skipWord _ s)

/-- In front of what is left there stands one of the words that open a declaration. -/
theorem exists_word_of_afterDeclarationWords? (h : afterDeclarationWords? s = some rest) :
    ∃ w ∈ declarationWords, w ++ rest <:+ s := by
  have hphrase : ∀ {first second : String}, second.toList ∈ declarationWords →
      (do
        let s ← (Text.after? first.toList s).bind Text.spaces?
        Text.afterWord? second.toList s) = some rest → ∃ w ∈ declarationWords, w ++ rest <:+ s := by
    intro first second hsecond h
    obtain ⟨t, ht, h⟩ := Option.bind_eq_some_iff.mp h
    refine ⟨second.toList, hsecond, ?_⟩
    rw [← Text.eq_append_of_afterWord? h]
    exact suffix_bind_spaces? ht
  unfold afterDeclarationWords? at h
  dsimp only at h
  rw [Option.or_eq_some_iff, Option.or_eq_some_iff] at h
  obtain hasync | ⟨-, habstract | ⟨-, hword⟩⟩ := h
  · exact hphrase (by decide) hasync
  · exact hphrase (by decide) habstract
  · obtain ⟨w, hw, hafter⟩ := List.exists_of_findSome?_eq_some hword
    exact ⟨w, hw, by rw [← Text.eq_append_of_afterWord? hafter]⟩

theorem suffix_afterDeclarationWords? (h : afterDeclarationWords? s = some rest) : rest <:+ s := by
  obtain ⟨w, -, hword⟩ := exists_word_of_afterDeclarationWords? h
  exact (List.suffix_append w rest).trans hword

/-! ### Behind the word -/

/-- What stands behind a word at a line start stands behind its first letter. -/
theorem cutOff_of_word {c : Char} {w : Text} (hc : isSpace c = false)
    (h : Text.after? (c :: w) (Text.skipInline s) = some t) (hrest : rest <:+ t) :
    CutOff s rest := by
  have hword := Text.suffix_skipInline s
  rw [Text.eq_append_of_after? h, List.cons_append] at hword
  exact .intro hc hword (hrest.trans (List.suffix_append w t))

/-- The end piece `rest` stands behind the `import` or `export` that `s` starts with. -/
def BehindWord (s rest : Text) : Prop :=
  ∃ t, (afterImport? s = some t ∨ afterExport? s = some t) ∧ rest <:+ t

theorem BehindWord.cutOff (h : BehindWord s rest) : CutOff s rest := by
  obtain ⟨t, himport | hexport, hrest⟩ := h
  · exact cutOff_of_word rfl himport hrest
  · exact cutOff_of_word rfl hexport hrest

theorem behindWord_afterImport? (h : afterImport? s = some t) (hrest : rest <:+ t) :
    BehindWord s rest :=
  ⟨t, Or.inl h, hrest⟩

theorem behindWord_afterExport? (h : afterExport? s = some t) (hrest : rest <:+ t) :
    BehindWord s rest :=
  ⟨t, Or.inr h, hrest⟩

/-- What stands behind `export` and blanks. -/
theorem behindWord_export (h : (afterExport? s).bind Text.spaces? = some t) (hrest : rest <:+ t) :
    BehindWord s rest := by
  obtain ⟨u, hu, ht⟩ := Option.bind_eq_some_iff.mp h
  exact behindWord_afterExport? hu (hrest.trans (Text.suffix_spaces? ht))

theorem behindWord_afterExportDefault? (h : afterExportDefault? s = some t) (hrest : rest <:+ t) :
    BehindWord s rest := by
  obtain ⟨u, hu, ht⟩ := Option.bind_eq_some_iff.mp h
  exact behindWord_export hu (hrest.trans (suffix_bind_spaces? ht))

/-! ### Statements that go as a whole -/

theorem behindWord_importRequire? {i : Import} (h : importRequire? s = some (i, rest)) :
    BehindWord s rest := by
  simp only [importRequire?, Option.bind_eq_bind, Option.bind_eq_some_iff, Prod.exists] at h
  obtain ⟨t, ⟨u, hu, ht⟩, name, v, hv, w, hw, x, hx, source, y, hy, z, hz, h⟩ := h
  cases h
  refine behindWord_afterImport? hu ?_
  calc skipEnd z <:+ z := suffix_skipEnd z
    _ <:+ y := (Text.suffix_after? hz).trans (Text.suffix_skipSpaces y)
    _ <:+ x := (suffix_source? hy).trans (Text.suffix_skipSpaces x)
    _ <:+ w := (Text.suffix_after? hx).trans (Text.suffix_skipSpaces w)
    _ <:+ v := (Text.suffix_after? hw).trans (Text.suffix_skipSpaces v)
    _ <:+ t := suffix_name? hv
    _ <:+ u := Text.suffix_spaces? ht

theorem behindWord_importFrom? {i : Import} (h : importFrom? s = some (i, rest)) :
    BehindWord s rest := by
  simp only [importFrom?, Option.bind_eq_bind, Option.bind_eq_some_iff, Prod.exists] at h
  obtain ⟨t, ⟨u, hu, ht⟩, clause, source, v, hv, h⟩ := h
  cases h
  refine behindWord_afterImport? hu ?_
  calc skipEnd v <:+ v := suffix_skipEnd v
    _ <:+ t := (suffix_clause? hv).trans (suffix_skipWord _ t)
    _ <:+ u := Text.suffix_spaces? ht

theorem behindWord_importSource? {i : Import} (h : importSource? s = some (i, rest)) :
    BehindWord s rest := by
  simp only [importSource?, Option.bind_eq_bind, Option.bind_eq_some_iff, Prod.exists] at h
  obtain ⟨t, ht, source, u, hu, h⟩ := h
  cases h
  exact behindWord_afterImport? ht
    ((suffix_skipEnd u).trans ((suffix_source? hu).trans (Text.suffix_skipSpaces t)))

theorem behindWord_exportList? {names : List Text} (h : exportList? s = some (names, rest)) :
    BehindWord s rest := by
  simp only [exportList?, Option.bind_eq_bind, Option.bind_eq_some_iff, Prod.exists] at h
  obtain ⟨t, ht, u, hu, list, v, hv, h⟩ := h
  cases h
  refine behindWord_export (Option.bind_eq_some_iff.mpr ht) ?_
  calc _ <:+ _ := suffix_skipEnd _
    _ <:+ v := by
      split
      · rename_i hfrom
        exact suffix_fromSource? hfrom
      · exact List.suffix_rfl
    _ <:+ u := Text.suffix_cutFirst hv
    _ <:+ t := (Text.suffix_after? hu).trans (suffix_skipWord _ t)

theorem behindWord_exportStar? {u : Unit} (h : exportStar? s = some (u, rest)) : BehindWord s rest := by
  simp only [exportStar?, Option.bind_eq_bind, Option.bind_eq_some_iff, Prod.exists] at h
  obtain ⟨t, ht, v, hv, w, hw, source, x, hx, h⟩ := h
  cases h
  refine behindWord_export (Option.bind_eq_some_iff.mpr ht) ?_
  calc skipEnd x <:+ x := suffix_skipEnd x
    _ <:+ w := suffix_fromSource? hx
    _ <:+ v := (Text.suffix_spaces? hw).trans (suffix_skipAlias v)
    _ <:+ t := Text.suffix_after? hv

theorem behindWord_exportAssign? {name : Text} (h : exportAssign? s = some (name, rest)) :
    BehindWord s rest := by
  simp only [exportAssign?, Option.bind_eq_bind, Option.bind_eq_some_iff, Prod.exists] at h
  obtain ⟨t, ht, u, hu, name', v, hv, h⟩ := h
  cases h
  refine behindWord_afterExport? ht ?_
  calc skipEnd v <:+ v := suffix_skipEnd v
    _ <:+ u := (suffix_name? hv).trans (Text.suffix_skipSpaces u)
    _ <:+ t := (Text.suffix_after? hu).trans (Text.suffix_skipSpaces t)

/-! ### Statements of which something stays -/

/-- What is read of a function or class, up to its name, stands behind the words in front of it. -/
theorem behindWord_defaultDeclaration? {d : DefaultDeclaration}
    (h : defaultDeclaration? s = some (d, rest)) :
    BehindWord s (d.head ++ d.gap ++ d.name ++ rest) ∧ ∀ c ∈ d.indent, isInline c = true := by
  simp only [defaultDeclaration?, Option.bind_eq_bind, Option.bind_eq_some_iff] at h
  obtain ⟨start, hstart, behind, hbehind, h⟩ := h
  cases h
  refine ⟨behindWord_afterExportDefault? hstart ?_, fun c hc => List.mem_takeWhile_imp hc⟩
  dsimp only
  have hname : ∀ {named name : Text}, name <+: named → name ++ named.drop name.length = named := by
    rintro named name ⟨t, rfl⟩
    rw [List.drop_left]
  have hgap : indentOf behind ++ Text.skipInline behind = behind :=
    List.takeWhile_append_dropWhile
  rw [List.append_assoc, hname, List.append_assoc, hgap,
    Text.consumed_append_of_suffix (suffix_afterDefaultHead? hbehind)]
  · split
    · exact List.takeWhile_prefix isNameChar
    · exact List.nil_prefix

theorem behindWord_defaultExpression? {d : DefaultExpression}
    (h : defaultExpression? s = some (d, rest)) :
    BehindWord s rest ∧ ∀ c ∈ d.indent, isInline c = true := by
  simp only [defaultExpression?, Option.bind_eq_bind, Option.bind_eq_some_iff] at h
  obtain ⟨start, hstart, h⟩ := h
  cases h
  refine ⟨behindWord_afterExportDefault? hstart ?_, fun c hc => List.mem_takeWhile_imp hc⟩
  split
  · exact (List.drop_suffix 1 _).trans (Text.suffix_skipLine start)
  · exact List.suffix_rfl

theorem behindWord_exportedDeclaration? {kept : Text}
    (h : exportedDeclaration? s = some (kept, rest)) :
    ∃ words, kept = indentOf s ++ words ∧ BehindWord s (words ++ rest) := by
  simp only [exportedDeclaration?, Option.bind_eq_bind, Option.bind_eq_some_iff] at h
  obtain ⟨start, hstart, behind, hbehind, h⟩ := h
  cases h
  have hrest := (suffix_afterDeclarationWords? hbehind).trans (suffix_skipWord "declare".toList start)
  refine ⟨_, rfl, behindWord_export (Option.bind_eq_some_iff.mpr hstart) ?_⟩
  rw [Text.consumed_append_of_suffix hrest]

end Module

end LivePreview
