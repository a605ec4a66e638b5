/-
The names in a prelude end no script.

A prelude is written into a script as it is, so a name with the end of a script in it would end that
script.  No such name comes out of code: what stands in an import statement between `import` and
`from`, or in front of `=`, are names, braces, commas, stars and blanks.  The other texts of a
prelude are fixed.  So of all that goes into the page of a draft, only the name of the root element,
which the host gives, can end a script.
-/
import LivePreview.Proofs.Module.ImportForms
import LivePreview.Proofs.Page.Bindings
import LivePreview.Proofs.Page.Outcome
import LivePreview.Proofs.Page.ScriptEnds
import LivePreview.Proofs.SecondRun

namespace LivePreview

open Script

variable {c : Char} {s : Text}

/-! ### Parts of a text -/

namespace Text

theorem mem_of_mem_splitBy {p : Char → Bool} {field : Text} (hfield : field ∈ splitBy p s)
    (hc : c ∈ field) : c ∈ s := by
  induction s generalizing field with
  | nil =>
    rw [splitBy, List.mem_singleton] at hfield
    rwa [hfield] at hc
  | cons d s ih =>
    rw [splitBy] at hfield
    split at hfield
    · rcases List.mem_cons.mp hfield with rfl | hlater
      · cases hc
      · exact List.mem_cons_of_mem d (ih hlater hc)
    split at hfield
    · rename_i first fields hsplit
      rw [hsplit] at ih
      rcases List.mem_cons.mp hfield with rfl | hlater
      · rcases List.mem_cons.mp hc with rfl | hc
        · exact List.mem_cons_self
        · exact List.mem_cons_of_mem d (ih List.mem_cons_self hc)
      · exact List.mem_cons_of_mem d (ih (List.mem_cons_of_mem first hlater) hc)
    · rw [List.mem_singleton] at hfield
      rw [hfield, List.mem_singleton] at hc
      rw [hc]
      exact List.mem_cons_self

theorem mem_of_mem_words {word : Text} (hword : word ∈ words s) (hc : c ∈ word) : c ∈ s :=
  mem_of_mem_splitBy (List.mem_of_mem_filter hword) hc

theorem mem_of_mem_trim (h : c ∈ trim s) : c ∈ s := by
  rw [trim, trimBy, trimEndBy, List.mem_reverse] at h
  have h := (List.dropWhile_sublist _).subset h
  rw [List.mem_reverse] at h
  exact (List.dropWhile_sublist _).subset h

theorem mem_of_cutFirst {sep : Char} {front back : Text} (h : cutFirst sep s = some (front, back)) :
    front ⊆ s ∧ back ⊆ s := by
  rw [cutFirst] at h
  split at h
  · cases h
  · rename_i hdrop
    cases h
    have hrest := (List.dropWhile_sublist (l := s) (· != sep)).subset
    rw [hdrop] at hrest
    exact ⟨(List.takeWhile_sublist _).subset, fun d hd => hrest (List.mem_cons_of_mem _ hd)⟩

theorem mem_of_cutLast {sep : Char} {front back : Text} (h : cutLast sep s = some (front, back)) :
    front ⊆ s ∧ back ⊆ s := by
  obtain ⟨⟨front', back'⟩, hcut, heq⟩ := Option.map_eq_some_iff.mp h
  cases heq
  obtain ⟨hfront, hback⟩ := mem_of_cutFirst hcut
  exact ⟨fun d hd => List.mem_reverse.mp (hback (List.mem_reverse.mp hd)),
    fun d hd => List.mem_reverse.mp (hfront (List.mem_reverse.mp hd))⟩

end Text

/-! ### Imports -/

/-- True of an import whose names have no `<`. -/
structure Import.IsPlain (i : Import) : Prop where
  defaultName : ∀ n ∈ i.defaultName, '<' ∉ n
  namespaceName : ∀ n ∈ i.namespaceName, '<' ∉ n
  named : ∀ pair ∈ i.named, '<' ∉ pair.1 ∧ '<' ∉ pair.2

namespace Import

theorem lt_notMem_of_isIdentifier {w : Text} (h : isIdentifier w = true) : '<' ∉ w :=
  fun hmem => absurd ((isWord_of_isIdentifier h).identChars _ hmem) (by decide)

theorem mem_of_cutBraces {clause outside : Text} {inside : Option Text}
    (h : cutBraces clause = (outside, inside)) : ∀ list ∈ inside, list ⊆ clause := by
  intro list hlist
  rw [cutBraces] at h
  split at h
  · cases h
    cases hlist
  · rename_i front behind hfirst
    split at h
    · cases h
      cases hlist
    · rename_i within back hlast
      cases h
      cases hlist
      exact fun d hd => (Text.mem_of_cutFirst hfirst).2 ((Text.mem_of_cutLast hlast).1 hd)

theorem mem_of_mem_listItems {item : Text} (hitem : item ∈ listItems s) (hc : c ∈ item) : c ∈ s := by
  obtain ⟨field, hfield, rfl⟩ := List.mem_map.mp (List.mem_of_mem_filter hitem)
  exact Text.mem_of_mem_splitBy hfield (Text.mem_of_mem_trim hc)

/-- The names of a specifier are words of it. -/
theorem mem_words_of_specifier? {spec : Text} {pair : Text × Text}
    (h : specifier? spec = some pair) : pair.1 ∈ Text.words spec ∧ pair.2 ∈ Text.words spec := by
  rw [specifier?] at h
  split at h
  · cases h
  dsimp only at h
  obtain ⟨hpair, -⟩ := Option.filter_eq_some_iff.mp h
  split at hpair
  · rename_i name hwords
    cases hpair
    rw [hwords]
    exact ⟨List.mem_singleton_self name, List.mem_singleton_self name⟩
  · rename_i name as localName hwords
    obtain ⟨-, hpair⟩ := Option.ite_none_right_eq_some.mp hpair
    cases hpair
    rw [hwords]
    exact ⟨List.mem_cons_self, List.mem_cons_of_mem _ (List.mem_cons_of_mem _ List.mem_cons_self)⟩
  · cases hpair

/-- An import that binds nothing. -/
theorem isPlain_bare (source : Text) (typeOnly : Bool) :
    ({ source := source, typeOnly := typeOnly } : Import).IsPlain where
  defaultName := fun n hn => by cases hn
  namespaceName := fun n hn => by cases hn
  named := fun pair hpair => by cases hpair

theorem IsPlain.addPart {i : Import} (h : i.IsPlain) (part : Text) : (i.addPart part).IsPlain := by
  have hnamed : ∀ name : Text, isIdentifier name = true → ∀ n ∈ some name, '<' ∉ n := by
    intro name hname n hn
    cases hn
    exact lt_notMem_of_isIdentifier hname
  unfold Import.addPart
  split
  · dsimp only
    split
    · rename_i hname
      exact { h with namespaceName := hnamed _ hname }
    · exact h
  · split
    · rename_i hname
      exact { h with defaultName := hnamed _ hname }
    · exact h

theorem IsPlain.foldl_addPart {i : Import} (h : i.IsPlain) (parts : List Text) :
    (parts.foldl Import.addPart i).IsPlain := by
  induction parts generalizing i with
  | nil => exact h
  | cons part parts ih => exact ih (h.addPart part)

/-- A clause without `<` binds names without it. -/
theorem isPlain_ofClause {clause : Text} (h : '<' ∉ clause) (source : Text) (typeOnly : Bool) :
    (ofClause clause source typeOnly).IsPlain := by
  unfold ofClause
  rcases hcut : cutBraces (Text.trim clause) with ⟨outside, inside⟩
  dsimp only
  refine { (isPlain_bare source typeOnly).foldl_addPart (listItems outside) with named := ?_ }
  intro pair hpair
  cases inside with
  | none => cases hpair
  | some list =>
    obtain ⟨spec, hspec, hfound⟩ := List.mem_filterMap.mp hpair
    have hplain : ∀ word ∈ Text.words spec, '<' ∉ word := by
      intro word hword hmem
      refine h (Text.mem_of_mem_trim (mem_of_cutBraces hcut list rfl ?_))
      exact mem_of_mem_listItems hspec (Text.mem_of_mem_words hword hmem)
    obtain ⟨hfirst, hsecond⟩ := mem_words_of_specifier? hfound
    exact ⟨hplain _ hfirst, hplain _ hsecond⟩

end Import

/-! ### Statements -/

namespace Module

theorem lt_notMem_of_name? {name rest : Text} (h : name? s = some (name, rest)) : '<' ∉ name := by
  unfold name? at h
  obtain ⟨-, h⟩ := Option.ite_none_left_eq_some.mp h
  cases h
  exact fun hmem => absurd (List.mem_takeWhile_imp hmem) (by decide)

theorem lt_notMem_of_clause? {clause source rest : Text}
    (h : clause? s = some (clause, source, rest)) : '<' ∉ clause := by
  induction s generalizing clause with
  | nil =>
    have hnil : clause? [] = none := rfl
    rw [hnil] at h
    cases h
  | cons d s ih =>
    rw [clause?_cons] at h
    split at h
    · cases h
      exact List.not_mem_nil
    obtain ⟨hd, h⟩ := Option.ite_none_right_eq_some.mp h
    obtain ⟨⟨later, found⟩, hlater, heq⟩ := Option.map_eq_some_iff.mp h
    cases heq
    rw [List.mem_cons, not_or]
    refine ⟨?_, ih hlater⟩
    rintro rfl
    exact absurd hd (by decide)

theorem isPlain_of_importRequire? {i : Import} {rest : Text}
    (h : importRequire? s = some (i, rest)) : i.IsPlain := by
  unfold importRequire? at h
  simp only [Option.bind_eq_bind, Option.bind_eq_some_iff, Prod.exists] at h
  obtain ⟨_, _, name, _, hname, _, _, _, _, source, _, _, _, _, heq⟩ := h
  cases heq
  refine { Import.isPlain_bare source false with defaultName := ?_ }
  intro n hn
  cases hn
  exact lt_notMem_of_name? hname

theorem isPlain_of_importFrom? {i : Import} {rest : Text}
    (h : importFrom? s = some (i, rest)) : i.IsPlain := by
  unfold importFrom? at h
  simp only [Option.bind_eq_bind, Option.bind_eq_some_iff, Prod.exists] at h
  obtain ⟨_, _, clause, _, _, hclause, heq⟩ := h
  cases heq
  exact Import.isPlain_ofClause (lt_notMem_of_clause? hclause) _ _

theorem isPlain_of_importSource? {i : Import} {rest : Text}
    (h : importSource? s = some (i, rest)) : i.IsPlain := by
  unfold importSource? at h
  simp only [Option.bind_eq_bind, Option.bind_eq_some_iff, Prod.exists] at h
  obtain ⟨_, _, _, _, _, heq⟩ := h
  cases heq
  exact Import.isPlain_bare _ _

/-- **Imports that are taken out of code have names without `<`.** -/
theorem isPlain_of_mem_strip {code : Text} {i : Import} (h : i ∈ (strip code).imports) :
    i.IsPlain := by
  unfold strip at h
  dsimp only [remove] at h
  rw [List.append_assoc] at h
  rcases List.mem_append.mp h with h | h
  · obtain ⟨_, _, hfound⟩ := Text.exists_of_mem_findings h
    exact isPlain_of_importRequire? hfound
  rcases List.mem_append.mp h with h | h
  · obtain ⟨_, _, hfound⟩ := Text.exists_of_mem_findings h
    exact isPlain_of_importFrom? hfound
  · obtain ⟨_, _, hfound⟩ := Text.exists_of_mem_findings h
    exact isPlain_of_importSource? hfound

end Module

/-! ### Preludes -/

/-- True of a constant whose texts have no `<`. -/
def Constant.IsPlain (c : Constant) : Prop := ∀ text ∈ c.texts, '<' ∉ text

namespace Prelude

variable {imports : List Import}

theorem isPlain_reactWishes (himports : ∀ i ∈ imports, i.IsPlain) :
    ∀ field ∈ reactWishes imports, '<' ∉ field.1 ∧ '<' ∉ field.2 := by
  have hmembers : ∀ n ∈ reactMembers, '<' ∉ n := by decide +kernel
  intro field hfield
  rcases List.mem_append.mp hfield with hmember | hnamed
  · obtain ⟨n, hn, rfl⟩ := List.mem_map.mp hmember
    exact ⟨hmembers n hn, hmembers n hn⟩
  · obtain ⟨i, hi, hfield⟩ := List.mem_flatMap.mp hnamed
    exact (himports i (List.mem_of_mem_filter hi)).named field hfield

/-- The global names of the libraries have no `<`. -/
theorem lt_notMem_global {l : Library} (h : l ∈ Library.all) : '<' ∉ l.global := by
  revert l
  decide

theorem lt_notMem_globalOf? {source global : Text} (h : globalOf? source = some global) :
    '<' ∉ global := by
  unfold globalOf? at h
  split at h
  · cases h
    decide
  · obtain ⟨l, hl, rfl⟩ := Option.map_eq_some_iff.mp h
    exact lt_notMem_global (List.mem_of_find?_eq_some hl)

theorem isPlain_memberWishes {i : Import} (hi : i.IsPlain) {global : Text} (hglobal : '<' ∉ global) :
    ∀ c ∈ memberWishes i global, c.IsPlain := by
  have hdefaultPart : '<' ∉ "default".toList := by decide
  have hall : '<' ∉ ['*'] := by decide
  have hmembers : ∀ member ∈ i.defaultName.toList.map (·, "default".toList) ++
      i.namespaceName.toList.map (·, ['*']) ++ i.named.map Prod.swap,
      '<' ∉ member.1 ∧ '<' ∉ member.2 := by
    intro member hmember
    rcases List.mem_append.mp hmember with hother | hnamed
    · rcases List.mem_append.mp hother with hdefault | hnamespace
      · obtain ⟨n, hn, rfl⟩ := List.mem_map.mp hdefault
        exact ⟨hi.defaultName n (Option.mem_toList.mp hn), hdefaultPart⟩
      · obtain ⟨n, hn, rfl⟩ := List.mem_map.mp hnamespace
        exact ⟨hi.namespaceName n (Option.mem_toList.mp hn), hall⟩
    · obtain ⟨pair, hpair, rfl⟩ := List.mem_map.mp hnamed
      exact (hi.named pair hpair).symm
  intro c hc
  obtain ⟨member, hmember, rfl⟩ := List.mem_map.mp hc
  obtain ⟨hname, hpart⟩ := hmembers member (List.mem_of_mem_filter hmember)
  intro text htext
  simp only [Constant.texts, List.mem_cons, List.not_mem_nil, or_false] at htext
  rcases htext with rfl | rfl | rfl
  · exact hname
  · exact hglobal
  · exact hpart

theorem isPlain_stubWishes {i : Import} (hi : i.IsPlain) : ∀ c ∈ stubWishes i, c.IsPlain := by
  have hpair : ∀ n : Text, '<' ∉ n → ∀ text ∈ [n, n], '<' ∉ text := by
    intro n hn text htext
    simp only [List.mem_cons, List.not_mem_nil, or_false, or_self] at htext
    rwa [htext]
  intro c hc
  rcases List.mem_append.mp hc with hother | hnamed
  · rcases List.mem_append.mp hother with hnamespace | hdefault
    · obtain ⟨n, hn, rfl⟩ := List.mem_map.mp hnamespace
      exact hpair n (hi.namespaceName n (Option.mem_toList.mp hn))
    · obtain ⟨n, hn, rfl⟩ := List.mem_map.mp hdefault
      exact hpair n (hi.defaultName n (Option.mem_toList.mp hn))
  · obtain ⟨pair, hmem, rfl⟩ := List.mem_map.mp hnamed
    exact hpair pair.2 (hi.named pair hmem).2

theorem isPlain_importWishes {i : Import} (hi : i.IsPlain) (stubs : Bool) :
    ∀ c ∈ importWishes stubs i, c.IsPlain := by
  intro c hc
  unfold importWishes at hc
  split at hc
  · cases hc
  split at hc
  · obtain ⟨n, hn, rfl⟩ := List.mem_map.mp hc
    intro text htext
    rw [Constant.texts, List.mem_singleton] at htext
    rw [htext]
    rcases List.mem_append.mp hn with hdefault | hnamespace
    · exact hi.defaultName n (Option.mem_toList.mp hdefault)
    · exact hi.namespaceName n (Option.mem_toList.mp hnamespace)
  split at hc
  · rename_i global hglobal
    exact isPlain_memberWishes hi (lt_notMem_globalOf? hglobal) c hc
  · split at hc
    · exact isPlain_stubWishes hi c hc
    · cases hc

theorem isPlain_tokenWishes {code : Text} {l : Library} (hl : l ∈ Library.all) :
    ∀ c ∈ tokenWishes code l, c.IsPlain := by
  intro c hc
  obtain ⟨token, htoken, rfl⟩ := List.mem_map.mp hc
  have hname : isIdentifier token = true := by
    have htest := (List.mem_filter.mp htoken).2
    simp only [Bool.and_eq_true] at htest
    exact htest.1.2
  have hplain : '<' ∉ token := Import.lt_notMem_of_isIdentifier hname
  intro text htext
  simp only [Constant.texts, List.mem_cons, List.not_mem_nil, or_false] at htext
  rcases htext with rfl | rfl | rfl
  · exact hplain
  · exact lt_notMem_global hl
  · exact hplain

/-- **Imports whose names have no `<` give a prelude whose texts have none.** -/
theorem lt_notMem_texts {declared : List Text} {libraries : List Library} {code : Text}
    {options : Options} (himports : ∀ i ∈ imports, i.IsPlain) (hlibraries : libraries ⊆ Library.all) :
    ∀ text ∈ (ofImports imports declared libraries code options).texts, '<' ∉ text := by
  intro text htext
  rcases List.mem_append.mp htext with hfield | hconstant
  · obtain ⟨field, hmem, htext⟩ := List.mem_flatMap.mp hfield
    obtain ⟨hmember, hlocal⟩ := isPlain_reactWishes himports field (mem_of_mem_granted hmem)
    unfold fieldTexts at htext
    split at htext
    · rw [List.mem_singleton] at htext
      rwa [htext]
    · simp only [List.mem_cons, List.not_mem_nil, or_false] at htext
      rcases htext with rfl | rfl
      · exact hmember
      · exact hlocal
  · obtain ⟨c, hc, htext⟩ := List.mem_flatMap.mp hconstant
    rcases List.mem_append.mp (mem_of_mem_granted hc) with himport | htoken
    · obtain ⟨i, hi, hc⟩ := List.mem_flatMap.mp himport
      exact isPlain_importWishes (himports i hi) _ c hc text htext
    · obtain ⟨l, hl, hc⟩ := List.mem_flatMap.mp htoken
      exact isPlain_tokenWishes (hlibraries hl) c hc text htext

end Prelude

/-! ### Pages of drafts -/

open Page

variable {d : Draft} {options : Options} {token : Nat} {page : Page}

/-- **Only the name of the root element can end a script of the page of a draft.** -/
theorem Draft.closings_of_tryPage [Platform] [Platform.WritesStrings] [Platform.WritesDigests]
    (h : d.tryPage options token = .ok page) :
    ∃ p, Processed.ofDraft d options = .ok p ∧
      closings page.html = (p.content d.className token).scriptElements options
        + 2 * closings options.rootElementId := by
  have htried := d.tried_tryPage options token
  rw [h] at htried
  cases htried with
  | shown hdraft hname =>
    rename_i p
    obtain ⟨-, -, -, himports⟩ := Processed.exists_erased_of_ofDraft hdraft
    have hplain : ∀ i ∈ p.imports, i.IsPlain := by
      rw [himports]
      exact fun i hi => Module.isPlain_of_mem_strip hi
    have hlibraries : (p.content d.className token).libraries ⊆ Library.all :=
      fun _ hl => List.mem_of_mem_filter hl
    have hnone : ((((p.content d.className token).prelude options).texts).map closings).sum = 0 :=
      sum_closings_eq_zero (Prelude.lt_notMem_texts hplain hlibraries)
    have hcomponent : isIdentifier (p.content d.className token).component.name = true := hname
    refine ⟨p, hdraft, ?_⟩
    rw [PageContent.closings_page hcomponent, hnone, Nat.add_zero]

end LivePreview
