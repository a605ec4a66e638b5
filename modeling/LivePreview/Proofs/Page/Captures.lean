/-
Names that a prelude takes from its own page.

The statements of a prelude rest on names of the page: on `React`, and on the functions that make a
part of a library or a placeholder.  The statement that mounts the component rests on some more.  If
a prelude binds one of these names, its statements no longer read what the page put there, and those
in front of the binding read a constant that has no value yet.  What each statement reads is read
off its text.  What is bound is what an import asks for: `React` and its renderer stay free, unless
a member of React is imported under such a name, and nothing keeps the other names free.
-/
import LivePreview.Module.Strip
import LivePreview.Proofs.Bundled
import LivePreview.Proofs.Page.DeclaredNames
import LivePreview.Proofs.Page.ScriptEnds
import LivePreview.Proofs.Script.FreeWords

namespace LivePreview

open Script

/-! ### What statements read -/

/-- The names that a statement rests on. -/
def Binding.reads (b : Binding) : List Text := freeWords b.value

namespace Prelude

/-- True if some statement reads a name that it or a later one binds. -/
def ReadsEarly [Platform] (p : Prelude) : Prop :=
  ∃ b behind, b :: behind <:+ p.bindings ∧ ∃ n ∈ b.reads, n ∈ (b :: behind).flatMap Binding.names

end Prelude

/-- The functions of a page that give the constants of a prelude their values. -/
def helperNames : List Text :=
  ["__previewImport", "__previewStub", "__previewStubModule"].map String.toList

/-- What mounting reads besides the component, and binds for itself. -/
def mountReads : List Text :=
  ["document", "React", "__PreviewErrorBoundary", "ReactDOM", "__previewShowError"].map String.toList

/-- What mounting binds for itself. -/
def mountLocals : List Text := ["__previewContainer", "__previewElement", "error"].map String.toList

/-- The names that the statements of a page rest on. -/
def restNames : List Text := helperNames ++ mountReads

/-- What the value of a constant rests on. -/
def Constant.rest : Constant → Text
  | react _ => "React".toList
  | member _ _ _ => "__previewImport".toList
  | stub _ => "__previewStub".toList
  | stubModule _ => "__previewStubModule".toList

theorem Constant.freeWords_value [Platform] [Platform.WritesStrings] (c : Constant) :
    freeWords c.value = [c.rest] := by
  cases c with
  | react n =>
    show freeWords "React".toList = ["React".toList]
    decide
  | member n global part =>
    have hcall : Reads "__previewImport(".toList ["__previewImport".toList] := by decide
    have hcomma : Reads ", ".toList [] := by decide
    have hend : Reads [')'] [] := by decide
    have hreads := (((hcall.append (Reads.jsonString global)).append hcomma).append
      (Reads.jsonString part)).append hend
    exact hreads.freeWords_eq (by decide)
  | stub n =>
    have hcall : Reads "__previewStub(".toList ["__previewStub".toList] := by decide
    have hend : Reads [')'] [] := by decide
    exact ((hcall.append (Reads.jsonString n)).append hend).freeWords_eq (by decide)
  | stubModule n =>
    have hcall : Reads "__previewStubModule(".toList ["__previewStubModule".toList] := by decide
    have hend : Reads [')'] [] := by decide
    exact ((hcall.append (Reads.jsonString n)).append hend).freeWords_eq (by decide)

/-- The words of the lines that mount a component, with those that can never name a binding. -/
def mountWords (component : Text) : List (List Text) :=
  [["try"], ["const", "__previewContainer", "document"]].map (List.map String.toList) ++
    [["const", "__previewElement", "React", "__PreviewErrorBoundary", "null", "React"].map
      String.toList ++ [component]] ++
    [["if", "ReactDOM"], ["ReactDOM", "__previewContainer", "__previewElement"], ["else"],
      ["ReactDOM", "__previewElement", "__previewContainer"], [], ["catch", "error"],
      ["__previewShowError", "error"], []].map (List.map String.toList)

theorem mem_mountWords {component : Text} (h : isReserved component = false) (n : Text) :
    n ∈ (mountWords component).flatten.filter (!isReserved ·) ↔
      n = component ∨ n ∈ mountLocals ++ mountReads := by
  obtain ⟨front, behind, hsplit, hsubset, hall⟩ : ∃ front behind,
      (mountWords component).flatten = front ++ component :: behind ∧
      (front ++ behind).filter (!isReserved ·) ⊆ mountLocals ++ mountReads ∧
      mountLocals ++ mountReads ⊆ (front ++ behind).filter (!isReserved ·) :=
    ⟨["try", "const", "__previewContainer", "document", "const", "__previewElement", "React",
        "__PreviewErrorBoundary", "null", "React"].map String.toList,
      ["if", "ReactDOM", "ReactDOM", "__previewContainer", "__previewElement", "else", "ReactDOM",
        "__previewElement", "__previewContainer", "catch", "error", "__previewShowError",
        "error"].map String.toList, rfl, by decide +kernel, by decide +kernel⟩
  have hfixed : n ∈ (front ++ behind).filter (!isReserved ·) ↔ n ∈ mountLocals ++ mountReads :=
    ⟨fun hn => hsubset hn, fun hn => hall hn⟩
  rw [← hfixed, hsplit, List.filter_append, List.filter_append, List.filter_cons, h, Bool.not_false,
    if_pos rfl, List.mem_append, List.mem_append, List.mem_cons]
  exact or_left_comm

namespace Page

set_option maxRecDepth 2000

theorem reads_ofList {l : Text} {words : List Text} (h : Reads l words) :
    Reads (String.ofList l).toList words := by
  rwa [String.toList_ofList]

theorem reads_unlines {rows : List Text} {words : List (List Text)}
    (h : List.Forall₂ Reads rows words) : Reads (Text.unlines rows) words.flatten := by
  induction h with
  | nil => exact ⟨rfl, rfl⟩
  | cons hrow _ ih =>
    have hnewline : Reads ['\n'] [] := by decide
    have hreads := (hrow.append hnewline).append ih
    rw [List.append_nil, List.append_assoc] at hreads
    rw [Text.unlines_cons, List.flatten_cons]
    exact hreads

/-- The statement that mounts a component, word by word. -/
theorem reads_mountStatement [Platform] [Platform.WritesStrings] {component : Text}
    (h : IsWord component) (rootId : Text) :
    Reads (mountStatement component rootId) (mountWords component).flatten := by
  have hcontainer : Reads ("  const __previewContainer = document.getElementById(".toList ++
      Platform.jsonString rootId ++ ");".toList)
      (["const", "__previewContainer", "document"].map String.toList) := by
    have hcall : Reads "  const __previewContainer = document.getElementById(".toList
        (["const", "__previewContainer", "document"].map String.toList) := reads_ofList (by decide)
    have hend : Reads ");".toList [] := by decide
    exact (hcall.append (Reads.jsonString rootId)).append hend
  have helement : Reads (("  const __previewElement = React.createElement(__PreviewErrorBoundary, null, "
      ++ "React.createElement(").toList ++ component ++ "));".toList)
      (["const", "__previewElement", "React", "__PreviewErrorBoundary", "null", "React"].map
        String.toList ++ [component]) := by
    have houter : Reads
        "  const __previewElement = React.createElement(__PreviewErrorBoundary, null, ".toList
        (["const", "__previewElement", "React", "__PreviewErrorBoundary", "null"].map String.toList) :=
      reads_ofList (by decide)
    have hinner : Reads "React.createElement(".toList ["React".toList] := by decide
    have hcomponent : Reads (component ++ [')']) [component] := .word h (by decide) (by decide)
    have hend : Reads ");".toList [] := by decide
    have hreads := (houter.append hinner).append (hcomponent.append hend)
    rw [← String.toList_append, List.append_assoc component] at hreads
    rw [List.append_assoc]
    exact hreads
  have hstatement {lines : List Text} (h : List.Forall₂ Reads lines (mountWords component)) :
      Reads ('\n' :: Text.unlines lines) (mountWords component).flatten := by
    have hnewline : Reads ['\n'] [] := by decide
    exact hnewline.append (reads_unlines h)
  unfold mountStatement
  refine hstatement ?_
  refine .cons (by decide) (.cons hcontainer (.cons helement ?_))
  repeat refine .cons (reads_ofList (by decide)) ?_
  exact .nil

/-- **What mounting a component reads.** -/
theorem mem_freeWords_mountStatement [Platform] [Platform.WritesStrings]
    {component : Text} (h : isIdentifier component = true)
    (rootId n : Text) : n ∈ freeWords (mountStatement component rootId) ↔
      n = component ∨ n ∈ mountLocals ∨ n ∈ mountReads := by
  rw [(reads_mountStatement (isWord_of_isIdentifier h) rootId).freeWords,
    mem_mountWords (not_isReserved_of_isIdentifier h), List.mem_append]

end Page

/-! ### What is bound -/

/-- True if an import asks for a name: as a member of React, even one that is a type, or else as a
value of React, of a library with another global name, or of what placeholders stand for. -/
def Import.AsksFor (stubs : Bool) (n : Text) (i : Import) : Prop :=
  (i.source ∈ Prelude.reactSources ∧ n ∈ i.named.map Prod.snd) ∨
  (i.typeOnly = false ∧ n ∈ i.localNames ∧
    (i.source ∈ Prelude.reactSources ∨
      (∃ global, Prelude.globalOf? i.source = some global ∧ n ≠ global) ∨
      (Prelude.globalOf? i.source = none ∧ stubs = true)))

/-- True if a library puts a name into the page because the code mentions it. -/
def Library.Puts (code n : Text) (l : Library) : Prop :=
  n ∈ l.tokens ∧ n ≠ l.global ∧ isIdentifier n = true ∧ Library.mentions code n = true

namespace Prelude

variable {imports : List Import} {declared : List Text} {libraries : List Library} {code n : Text}
  {options : Options} {stubs : Bool} {i : Import} {l : Library}

theorem mem_names_reactWishes : n ∈ (reactWishes imports).map Prod.snd ↔
    n ∈ reactMembers ∨
      ∃ i ∈ imports, i.source ∈ reactSources ∧ n ∈ i.named.map Prod.snd := by
  have hmembers : (reactMembers.map fun n => (n, n)).map Prod.snd = reactMembers := by
    rw [List.map_map]
    exact List.map_id _
  rw [reactWishes, List.map_append, List.mem_append, hmembers, List.map_flatMap, List.mem_flatMap]
  simp only [List.mem_filter, List.contains_iff_mem, and_assoc]

theorem mem_names_tokenWishes : n ∈ (tokenWishes code l).map Constant.name ↔ l.Puts code n := by
  have hnames : (tokenWishes code l).map Constant.name = l.tokens.filter
      fun t => t != l.global && isIdentifier t && Library.mentions code t := by
    rw [tokenWishes, List.map_map]
    exact List.map_id _
  rw [hnames, List.mem_filter, Bool.and_eq_true, Bool.and_eq_true, bne_iff_ne, Library.Puts, and_assoc]

/-- An import asks for the names of its wishes, and for those that it wants as members of React. -/
theorem asksFor_iff : i.AsksFor stubs n ↔
    (i.source ∈ reactSources ∧ n ∈ i.named.map Prod.snd) ∨
    n ∈ (importWishes stubs i).map Constant.name := by
  rw [Import.AsksFor, importWishes]
  by_cases htype : i.typeOnly = true
  · rw [if_pos htype, htype]
    simp
  rw [if_neg htype]
  rw [Bool.not_eq_true] at htype
  by_cases hreact : i.source ∈ reactSources
  · have hnames : ((i.defaultName.toList ++ i.namespaceName.toList).map .react).map Constant.name
        = i.defaultName.toList ++ i.namespaceName.toList := by
      rw [List.map_map]
      exact List.map_id _
    have hlocal : n ∈ i.localNames ↔
        n ∈ i.defaultName.toList ++ i.namespaceName.toList ∨ n ∈ i.named.map Prod.snd := List.mem_append
    rw [if_pos (List.contains_iff_mem.mpr hreact), hnames, hlocal]
    tauto
  · rw [if_neg (mt List.contains_iff_mem.mp hreact)]
    split
    · rename_i global hglobal
      rw [names_memberWishes, List.mem_filter, bne_iff_ne]
      simp [htype, hreact, hglobal]
    · rename_i hglobal
      cases stubs
      · simp [hreact, hglobal]
      · rw [if_pos rfl, mem_names_stubWishes]
        simp [htype, hreact, hglobal]

/-- Which names are bound that are not among the members of React for all code. -/
theorem mem_names_iff_asksFor (hmember : n ∉ reactMembers) :
    n ∈ (ofImports imports declared libraries code options).names ↔ n ∉ declared ∧
      ((n ∈ groundNames ∧ ∃ i ∈ imports,
          i.source ∈ reactSources ∧ n ∈ i.named.map Prod.snd) ∨
        (n ∉ groundNames ∧ ((∃ i ∈ imports, i.AsksFor options.stubUnknownImports n) ∨
          ∃ l ∈ libraries, l.Puts code n))) := by
  have hwishes : n ∈ (wishes options.stubUnknownImports imports libraries code).map Constant.name ↔
      (∃ i ∈ imports, n ∈ (importWishes options.stubUnknownImports i).map Constant.name) ∨
      ∃ l ∈ libraries, l.Puts code n := by
    rw [wishes, List.map_append, List.mem_append, List.map_flatMap, List.map_flatMap, List.mem_flatMap,
      List.mem_flatMap]
    simp only [mem_names_tokenWishes]
  rw [mem_names_ofImports, wishedNames, List.mem_append, mem_names_reactWishes, List.mem_filter, hwishes]
  simp only [asksFor_iff, hmember, false_or, List.contains_eq_mem, Bool.not_eq_true',
    decide_eq_false_iff_not]
  refine and_congr_right fun _ => ?_
  by_cases hground : n ∈ groundNames
  · simp [hground]
  · simp only [hground, false_and, not_false_eq_true, true_and, and_true, false_or, and_or_left,
      exists_or, or_assoc]

theorem reads_fieldsBinding (p : Prelude) : p.fieldsBinding.reads = ["React".toList] := by
  show freeWords "React".toList = _
  decide

/-- **When a statement reads what is bound too late.**  The members of React are taken from `React`
first of all, so the page stops there if `React` is among them. -/
theorem readsEarly_iff [Platform] [Platform.WritesStrings]
    {p : Prelude} (hground : ∀ c ∈ p.constants, c.name ∉ groundNames) :
    p.ReadsEarly ↔ "React".toList ∈ p.names ∨
      ∃ c behind, c :: behind <:+ p.constants ∧ c.rest ∈ (c :: behind).map Constant.name := by
  constructor
  · rintro ⟨b, behind, hsuffix, n, hn, hbound⟩
    have hall : (b :: behind).flatMap Binding.names ⊆ p.names := by
      rw [← flatMap_names_bindings]
      obtain ⟨before, heq⟩ := hsuffix
      rw [← heq, List.flatMap_append]
      exact List.subset_append_right _ _
    have hconstants : b :: behind <:+ p.constants.map Constant.binding →
        ∃ c behind, c :: behind <:+ p.constants ∧ c.rest ∈ (c :: behind).map Constant.name := by
      intro h
      obtain ⟨constants, hconstants, heq⟩ := List.suffix_map_iff.mp h
      cases constants with
      | nil => cases heq
      | cons c later =>
        obtain ⟨rfl, rfl⟩ := List.cons.inj heq
        rw [Binding.reads, Constant.binding, c.freeWords_value, List.mem_singleton] at hn
        rw [← List.map_cons, flatMap_names_constants, hn] at hbound
        exact ⟨c, later, hconstants, hbound⟩
    rw [bindings] at hsuffix
    split at hsuffix
    · exact Or.inr (hconstants hsuffix)
    · rw [List.singleton_append, List.suffix_cons_iff] at hsuffix
      obtain heq | hsuffix := hsuffix
      · obtain ⟨rfl, -⟩ := List.cons.inj heq
        rw [reads_fieldsBinding, List.mem_singleton] at hn
        exact Or.inl (hn ▸ hall hbound)
      · exact Or.inr (hconstants hsuffix)
  · rintro (hreact | ⟨c, behind, hsuffix, hrest⟩)
    · have hfield : "React".toList ∈ p.fields.map Prod.snd := by
        refine (List.mem_append.mp hreact).resolve_right fun hconstant => ?_
        obtain ⟨c, hc, hname⟩ := List.mem_map.mp hconstant
        exact hground c hc (hname ▸ List.mem_cons_self)
      have hfields : ¬p.fields.isEmpty = true := by
        rw [List.isEmpty_iff]
        intro hempty
        rw [hempty] at hfield
        cases hfield
      refine ⟨p.fieldsBinding, p.constants.map Constant.binding, ?_, "React".toList, ?_, ?_⟩
      · rw [bindings, if_neg hfields, List.singleton_append]
      · rw [reads_fieldsBinding]
        exact List.mem_cons_self
      · exact List.mem_append_left _ hfield
    · refine ⟨c.binding, behind.map Constant.binding, ?_, c.rest, ?_, ?_⟩
      · exact (hsuffix.map Constant.binding).trans (List.suffix_append _ _)
      · rw [Binding.reads, Constant.binding, c.freeWords_value]
        exact List.mem_cons_self
      · rw [← List.map_cons, flatMap_names_constants]
        exact hrest

theorem name_notMem_groundNames {c : Constant}
    (h : c ∈ (ofImports imports declared libraries code options).constants) :
    c.name ∉ groundNames :=
  fun hground => name_notMem_of_mem_granted h (List.mem_append_left _ (List.mem_append_left _ hground))

/-- The libraries put no name into a page that its statements rest on. -/
theorem notMem_restNames_of_puts (hl : l ∈ Library.all) (h : l.Puts code n) : n ∉ restNames := by
  have htokens : ∀ l ∈ Library.all, ∀ t ∈ l.tokens, t ∉ restNames := by decide
  exact htokens l hl n h.1

theorem rest_mem_restNames (c : Constant) : c.rest ∈ restNames := by
  cases c <;> exact List.contains_iff_mem.mp rfl

theorem reads_subset_restNames [Platform] [Platform.WritesStrings] {p : Prelude} {b : Binding}
    (h : b ∈ p.bindings) :
    b.reads ⊆ restNames := by
  have hconstants : b ∈ p.constants.map Constant.binding → b.reads ⊆ restNames := by
    intro hb
    obtain ⟨c, -, rfl⟩ := List.mem_map.mp hb
    rw [Binding.reads, Constant.binding, c.freeWords_value]
    exact List.cons_subset.mpr ⟨rest_mem_restNames c, List.nil_subset _⟩
  rw [bindings] at h
  split at h
  · exact hconstants h
  · rw [List.singleton_append, List.mem_cons] at h
    obtain rfl | h := h
    · rw [reads_fieldsBinding]
      decide
    · exact hconstants h

/-- An import has the names that it asks for. -/
theorem mem_localNames_of_asksFor (h : i.AsksFor stubs n) : n ∈ i.localNames := by
  obtain ⟨-, hnamed⟩ | ⟨-, hlocal, -⟩ := h
  · exact List.mem_append_right _ hnamed
  · exact hlocal

/-- **What a prelude takes from its own page.**  Its statements rest on a few names, and mounting
the component on some more.  Such a name is bound if the code does not declare it and an import asks
for it or the code mentions it for a library that has it; but `React` and its renderer are bound
only if they are asked for as members of React.  A statement reads a constant that has no value yet
if `React` is bound, or if what a constant rests on is bound there or later.  All that needs an import
with such a local name: without one, no name is taken and nothing is read too early. -/
theorem ofImports_captures [Platform] [Platform.WritesStrings]
    (imports : List Import) (declared : List Text) (libraries : List Library)
    (code : Text) (options : Options) {component : Text} (hcomponent : isIdentifier component = true)
    (rootId : Text) :
    let p := ofImports imports declared libraries code options
    p.render = Text.join ['\n'] (p.bindings.map Binding.text) ∧
    p.bindings.flatMap Binding.names = p.names ∧
    (∀ b ∈ p.bindings, b.reads ⊆ restNames) ∧
    (∀ n, n ∈ freeWords (Page.mountStatement component rootId) ↔
      n = component ∨ n ∈ mountLocals ∨ n ∈ mountReads) ∧
    (∀ n ∈ restNames, n ∈ p.names ↔ n ∉ declared ∧
      ((n ∈ groundNames ∧ ∃ i ∈ imports, i.source ∈ reactSources ∧ n ∈ i.named.map Prod.snd) ∨
        (n ∉ groundNames ∧ ((∃ i ∈ imports, i.AsksFor options.stubUnknownImports n) ∨
          ∃ l ∈ libraries, l.Puts code n)))) ∧
    (p.ReadsEarly ↔ "React".toList ∈ p.names ∨
      ∃ c behind, c :: behind <:+ p.constants ∧ c.rest ∈ (c :: behind).map Constant.name) ∧
    (libraries ⊆ Library.all → (∀ i ∈ imports, i.localNames.Disjoint restNames) →
      p.names.Disjoint restNames ∧ ¬p.ReadsEarly) := by
  intro p
  have hmembers : ∀ n ∈ restNames, n ∉ reactMembers := by decide
  have hbound : ∀ n ∈ restNames, n ∈ p.names ↔ _ := fun n hn => mem_names_iff_asksFor (hmembers n hn)
  have hearly := readsEarly_iff (p := p) fun c hc => name_notMem_groundNames hc
  refine ⟨p.render_eq_join, p.flatMap_names_bindings, fun b hb => reads_subset_restNames hb,
    Page.mem_freeWords_mountStatement hcomponent rootId, hbound, hearly, ?_⟩
  intro hlibraries himports
  have hfree : p.names.Disjoint restNames := by
    intro n hn hrest
    obtain ⟨-, ⟨-, i, hi, -, hnamed⟩ | ⟨-, ⟨i, hi, hasks⟩ | ⟨l, hl, hputs⟩⟩⟩ := (hbound n hrest).mp hn
    · exact himports i hi (List.mem_append_right _ hnamed) hrest
    · exact himports i hi (mem_localNames_of_asksFor hasks) hrest
    · exact notMem_restNames_of_puts (hlibraries hl) hputs hrest
  refine ⟨hfree, fun h => ?_⟩
  obtain hreact | ⟨c, behind, hsuffix, hname⟩ := hearly.mp h
  · exact hfree hreact (by decide)
  · obtain ⟨later, hlater, hname⟩ := List.mem_map.mp hname
    have hconstant : c.rest ∈ p.constants.map Constant.name :=
      hname ▸ List.mem_map_of_mem (hsuffix.subset hlater)
    exact hfree (List.mem_append_right _ hconstant) (rest_mem_restNames c)

section

open scoped Bundled

/-- What is imported from React as `React` is bound, and it is read at once. -/
theorem ofImports_captures_default :
    let stripped := Module.strip "import \x7b default as React, useState \x7d from 'react';\nlet a = React;\n".toList
    let p := ofImports stripped.imports ["a".toList] [] stripped.code {}
    isIdentifier "App".toList = true ∧ "React".toList ∈ p.names ∧ p.ReadsEarly := by
  intro stripped p
  have himports : stripped.imports =
      [{ source := "react".toList,
         named := [("default".toList, "React".toList), ("useState".toList, "useState".toList)] }] := by
    decide +kernel
  have hcomponent : isIdentifier "App".toList = true := by decide
  obtain ⟨-, -, -, -, hbound, hearly, -⟩ :=
    ofImports_captures stripped.imports ["a".toList] [] stripped.code {} hcomponent "root".toList
  have hreact : "React".toList ∈ p.names := by
    refine (hbound _ (by decide)).mpr ⟨by decide, Or.inl ⟨by decide, ?_⟩⟩
    rw [himports]
    exact ⟨_, List.mem_cons_self, by decide, by decide⟩
  exact ⟨hcomponent, hreact, hearly.mpr (Or.inl hreact)⟩

end

end Prelude

end LivePreview
