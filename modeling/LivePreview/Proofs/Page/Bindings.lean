/-
What a page binds in front of its code.

A name that is bound twice stops the whole page, and one that is not bound stops it as soon as it is
used.  All names of a prelude come out of two lists of wishes, of which those are granted whose
names are free.  So no name is granted twice, and none that the code declares: that needs only to
know what was bound when a list began.  A wish is refused only if its name is taken already.  What
is left to see is that each local name of an import is wished for, unless it is the name of what it
would be bound to.

All this is said of the statements as they are written.  `PatternText` tells which names a text
binds that stands between `const` and the sign `=`, and a prelude is written as a list of such
statements.
-/
import Mathlib.Data.List.Nodup
import LivePreview.Bundled
import LivePreview.Page.Prelude

namespace LivePreview

/-! ### Wishes that are granted -/

namespace Prelude

section Granted

variable {α : Type} {name : α → Text} {bound : List Text} {xs : List α} {x : α}

theorem name_notMem_of_mem_granted (h : x ∈ granted name bound xs) : name x ∉ bound := by
  induction xs generalizing bound with
  | nil => cases h
  | cons y xs ih =>
    unfold granted at h
    split at h
    · exact ih h
    · rename_i hfree
      rw [List.mem_cons] at h
      obtain rfl | hx := h
      · simpa using hfree
      · exact fun hmem => ih hx (List.mem_cons_of_mem _ hmem)

theorem mem_of_mem_granted (h : x ∈ granted name bound xs) : x ∈ xs := by
  induction xs generalizing bound with
  | nil => cases h
  | cons y xs ih =>
    rw [granted] at h
    split at h
    · exact List.mem_cons_of_mem y (ih h)
    · rcases List.mem_cons.mp h with rfl | hlater
      · exact List.mem_cons_self
      · exact List.mem_cons_of_mem y (ih hlater)

/-- No name is granted twice. -/
theorem nodup_granted (name : α → Text) (bound : List Text) (xs : List α) :
    ((granted name bound xs).map name).Nodup := by
  induction xs generalizing bound with
  | nil => exact List.nodup_nil
  | cons x xs ih =>
    unfold granted
    split
    · exact ih bound
    · rw [List.map_cons, List.nodup_cons]
      refine ⟨?_, ih (name x :: bound)⟩
      intro hmem
      obtain ⟨y, hy, hname⟩ := List.mem_map.mp hmem
      have hfree := name_notMem_of_mem_granted hy
      exact hfree (hname ▸ List.mem_cons_self)

/-- A wish is refused only if its name is taken. -/
theorem taken_or_granted (name : α → Text) (bound : List Text) (h : x ∈ xs) :
    name x ∈ bound ∨ name x ∈ (granted name bound xs).map name := by
  induction xs generalizing bound with
  | nil => cases h
  | cons y xs ih =>
    unfold granted
    split
    · rename_i htaken
      rw [List.mem_cons] at h
      obtain rfl | hx := h
      · exact Or.inl (by simpa using htaken)
      · exact ih bound hx
    · rw [List.map_cons, List.mem_cons]
      rw [List.mem_cons] at h
      obtain rfl | hx := h
      · exact Or.inr (Or.inl rfl)
      · obtain htaken | hgranted := ih (name y :: bound) hx
        · obtain heq | hbound := List.mem_cons.mp htaken
          · exact Or.inr (Or.inl heq)
          · exact Or.inl hbound
        · exact Or.inr (Or.inr hgranted)

end Granted

/-! ### Wishes of an import -/

/-- A member is wished for under each local name but the one of the library itself. -/
theorem names_memberWishes (i : Import) (global : Text) :
    (memberWishes i global).map Constant.name = i.localNames.filter (· != global) := by
  have hnames : ∀ members : List (Text × Text),
      ((members.filter fun m => m.1 != global).map
        fun m => Constant.member m.1 global m.2).map Constant.name
      = (members.map Prod.fst).filter (· != global) := by
    intro members
    rw [List.map_map, List.filter_map]
    rfl
  refine (hnames _).trans ?_
  simp [Import.localNames, Function.comp_def]

theorem mem_names_stubWishes {i : Import} {n : Text} :
    n ∈ (stubWishes i).map Constant.name ↔ n ∈ i.localNames := by
  simp only [stubWishes, Import.localNames, List.map_append, List.map_map, List.mem_append]
  have hnames : ∀ c : Text → Constant, (∀ m, (c m).name = m) →
      ∀ names : List Text, names.map (Constant.name ∘ c) = names :=
    fun c hc names => (List.map_congr_left fun m _ => hc m).trans (List.map_id names)
  rw [hnames .stubModule fun _ => rfl, hnames .stub fun _ => rfl]
  exact or_congr_left or_comm

/-- **Each local name of an import is wished for**, unless it is the name of the library itself. -/
theorem wished {imports : List Import} {i : Import} (hi : i ∈ imports) (hvalue : i.typeOnly = false)
    {n : Text} (hn : n ∈ i.localNames) (libraries : List Library) (code : Text) :
    n ∈ (reactWishes imports).map Prod.snd ∨
    n ∈ (wishes true imports libraries code).map Constant.name ∨ globalOf? i.source = some n := by
  have hwishes : n ∈ (importWishes true i).map Constant.name →
      n ∈ (wishes true imports libraries code).map Constant.name := by
    intro hmem
    obtain ⟨c, hc, rfl⟩ := List.mem_map.mp hmem
    exact List.mem_map_of_mem (List.mem_append_left _ (List.mem_flatMap_of_mem hi hc))
  unfold importWishes at hwishes
  rw [hvalue, if_neg Bool.false_ne_true] at hwishes
  split at hwishes
  · -- the members of React are wished for ahead of all constants
    rename_i hreact
    rw [Import.localNames, List.mem_append] at hn
    obtain hwhole | hnamed := hn
    · refine Or.inr (Or.inl (hwishes ?_))
      rw [List.map_map]
      exact List.mem_map.mpr ⟨n, hwhole, rfl⟩
    · obtain ⟨field, hfield, rfl⟩ := List.mem_map.mp hnamed
      have hreacts : i ∈ imports.filter fun i => reactSources.contains i.source :=
        List.mem_filter.mpr ⟨hi, hreact⟩
      exact Or.inl (List.mem_map_of_mem
        (List.mem_append_right _ (List.mem_flatMap_of_mem hreacts hfield)))
  · split at hwishes
    · rename_i global hglobal
      rw [names_memberWishes, List.mem_filter] at hwishes
      by_cases heq : n = global
      · exact Or.inr (Or.inr (heq ▸ hglobal))
      · exact Or.inr (Or.inl (hwishes ⟨hn, by simpa using heq⟩))
    · exact Or.inr (Or.inl (hwishes (mem_names_stubWishes.mpr hn)))

end Prelude

/-! ### The statements of a prelude -/

/-- A statement that binds names. -/
structure Binding where
  pattern : Text
  names : List Text
  value : Text

namespace Binding

/-- The statement as it is written. -/
def text (b : Binding) : Text := "const ".toList ++ b.pattern ++ " = ".toList ++ b.value ++ [';']

/-- True of a statement whose value is the result of a call that makes a placeholder. -/
def callsStub (b : Binding) : Bool :=
  ["__previewStub(", "__previewStubModule("].any fun call => call.toList.isPrefixOf b.value

end Binding

/-- A field of an object pattern is written so, and it binds this name: to the property of that
name, or to the property in front of a colon. -/
inductive FieldText : Text → Text → Prop
  | short (n : Text) : FieldText n n
  | renamed (property n : Text) : FieldText (property ++ ": ".toList ++ n) n

/-- A pattern is written so, and it binds these names. -/
inductive PatternText : Text → List Text → Prop
  | name (n : Text) : PatternText n [n]
  | object {fields names : List Text} (h : List.Forall₂ FieldText fields names) :
      PatternText ("\x7b ".toList ++ Text.join ", ".toList fields ++ " \x7d".toList) names

/-- The statement for a constant. -/
def Constant.binding [Platform] (c : Constant) : Binding := ⟨c.name, [c.name], c.value⟩

/-- Nothing but a placeholder is made like one. -/
theorem Constant.callsStub_binding [Platform] (c : Constant) : c.binding.callsStub = c.isStub := by
  cases c <;> rfl

namespace Prelude

/-- The statement for the members of React. -/
def fieldsBinding (p : Prelude) : Binding :=
  ⟨"\x7b ".toList ++ Text.join ", ".toList (p.fields.map fieldText) ++ " \x7d".toList,
    p.fields.map Prod.snd, "React".toList⟩

/-- The statements of a prelude, in order. -/
def bindings [Platform] (p : Prelude) : List Binding :=
  (if p.fields.isEmpty then [] else [p.fieldsBinding]) ++ p.constants.map Constant.binding

/-- **A prelude is written as its statements.** -/
theorem render_eq_join [Platform] (p : Prelude) :
    p.render = Text.join ['\n'] (p.bindings.map Binding.text) := by
  have hfields : p.fieldsStatement = p.fieldsBinding.text := by
    have hsplit (x : Text) : "const \x7b ".toList ++ x ++ " \x7d = React;".toList =
        "const ".toList ++ ("\x7b ".toList ++ x ++ " \x7d".toList) ++ " = ".toList ++
          "React".toList ++ [';'] := by
      simp only [List.append_assoc]
      rfl
    exact hsplit _
  rw [render, bindings, List.map_append, List.map_map]
  by_cases hempty : p.fields.isEmpty = true
  · rw [if_pos hempty, if_pos hempty]
    rfl
  · rw [if_neg hempty, if_neg hempty, hfields]
    rfl

theorem flatMap_names_constants [Platform] (constants : List Constant) :
    (constants.map Constant.binding).flatMap Binding.names = constants.map Constant.name := by
  rw [List.flatMap_map]
  exact List.map_eq_flatMap.symm

theorem flatMap_names_bindings [Platform] (p : Prelude) :
    p.bindings.flatMap Binding.names = p.names := by
  rw [bindings, List.flatMap_append, flatMap_names_constants, names]
  by_cases hempty : p.fields.isEmpty = true
  · rw [if_pos hempty, List.isEmpty_iff.mp hempty]
    rfl
  · rw [if_neg hempty, List.flatMap_singleton]
    rfl

theorem fieldText_spec (field : Text × Text) : FieldText (fieldText field) field.2 := by
  unfold fieldText
  split
  · exact .short _
  · exact .renamed _ _

/-- Each statement of a prelude binds its names. -/
theorem patternText_of_mem_bindings [Platform] {p : Prelude} {b : Binding} (h : b ∈ p.bindings) :
    PatternText b.pattern b.names := by
  have hconstants : b ∈ p.constants.map Constant.binding → PatternText b.pattern b.names := by
    intro hb
    obtain ⟨c, -, rfl⟩ := List.mem_map.mp hb
    exact .name c.name
  rw [bindings] at h
  split at h
  · exact hconstants h
  · rw [List.singleton_append, List.mem_cons] at h
    obtain rfl | h := h
    · refine .object (List.forall₂_map_left_iff.mpr (List.forall₂_map_right_iff.mpr ?_))
      exact List.forall₂_same.mpr fun field _ => fieldText_spec field
    · exact hconstants h

/-- The placeholders are what the statements that make placeholders bind. -/
theorem stubs_eq [Platform] (p : Prelude) :
    p.stubs = (p.bindings.filter Binding.callsStub).flatMap Binding.names := by
  have hconstants : (p.constants.map Constant.binding).filter Binding.callsStub
      = (p.constants.filter Constant.isStub).map Constant.binding := by
    rw [List.filter_map]
    exact congrArg _ (List.filter_congr fun c _ => c.callsStub_binding)
  have hfields : (if p.fields.isEmpty then [] else [p.fieldsBinding]).filter Binding.callsStub
      = [] := by
    have hreact : p.fieldsBinding.callsStub = false := by
      show (["__previewStub(", "__previewStubModule("].any fun call =>
        call.toList.isPrefixOf "React".toList) = false
      decide
    split
    · rfl
    · rw [List.filter_singleton, hreact]
      rfl
  rw [bindings, List.filter_append, hfields, hconstants, List.nil_append, flatMap_names_constants,
    stubs]

/-! ### Preludes -/

/-- **A prelude binds each name once and leaves none out.**  It is written as a list of statements,
each of which binds its names.  None of these is bound twice or declared by the code.  If names that
cannot be imported stand for placeholders, then a local name of an import that has values is
declared, bound once, or the name of what it stands for: of React, of its renderer or of the
library.  The placeholders are what the statements bind that call for one. -/
theorem ofImports_binds [Platform]
    (imports : List Import) (declared : List Text) (libraries : List Library)
    (code : Text) (options : Options) :
    let p := ofImports imports declared libraries code options
    let bound := p.bindings.flatMap Binding.names
    p.render = Text.join ['\n'] (p.bindings.map Binding.text) ∧
    (∀ b ∈ p.bindings, PatternText b.pattern b.names) ∧
    bound.Nodup ∧ bound.Disjoint declared ∧
    (options.stubUnknownImports = true →
      ∀ i ∈ imports, i.typeOnly = false → ∀ n ∈ i.localNames,
        n ∈ declared ∨ bound.count n = 1 ∨ n ∈ groundNames ∨ globalOf? i.source = some n) ∧
    p.stubs = (p.bindings.filter Binding.callsStub).flatMap Binding.names := by
  intro p bound
  have hbound : bound = p.names := p.flatMap_names_bindings
  have hfields : ∀ n ∈ p.fields.map Prod.snd, n ∉ declared := by
    intro n hn
    obtain ⟨field, hfield, rfl⟩ := List.mem_map.mp hn
    exact name_notMem_of_mem_granted hfield
  have hconstants : ∀ n ∈ p.constants.map Constant.name,
      n ∉ groundNames ++ p.fields.map Prod.snd ++ declared := by
    intro n hn
    obtain ⟨c, hc, rfl⟩ := List.mem_map.mp hn
    exact name_notMem_of_mem_granted hc
  have hnodup : p.names.Nodup := by
    refine List.Nodup.append (nodup_granted _ _ _) (nodup_granted _ _ _) ?_
    intro n hfield hconstant
    exact hconstants n hconstant (List.mem_append_left _ (List.mem_append_right _ hfield))
  rw [hbound]
  refine ⟨p.render_eq_join, fun b => patternText_of_mem_bindings, hnodup, ?_, ?_, p.stubs_eq⟩
  · intro n hn hdeclared
    obtain hfield | hconstant := List.mem_append.mp hn
    · exact hfields n hfield hdeclared
    · exact hconstants n hconstant (List.mem_append_right _ hdeclared)
  · intro hstubs i hi hvalue n hn
    have honce : n ∈ p.names → p.names.count n = 1 := List.count_eq_one_of_mem hnodup
    obtain hreact | hconstant | hglobal := wished hi hvalue hn libraries code
    · obtain ⟨field, hfield, rfl⟩ := List.mem_map.mp hreact
      obtain hdeclared | hbound := taken_or_granted Prod.snd declared hfield
      · exact Or.inl hdeclared
      · exact Or.inr (Or.inl (honce (List.mem_append_left _ hbound)))
    · rw [← hstubs] at hconstant
      obtain ⟨c, hc, rfl⟩ := List.mem_map.mp hconstant
      obtain htaken | hbound := taken_or_granted Constant.name
        (groundNames ++ p.fields.map Prod.snd ++ declared) hc
      · rw [List.mem_append, List.mem_append] at htaken
        obtain (hground | hfield) | hdeclared := htaken
        · exact Or.inr (Or.inr (Or.inl hground))
        · exact Or.inr (Or.inl (honce (List.mem_append_left _ hfield)))
        · exact Or.inl hdeclared
      · exact Or.inr (Or.inl (honce (List.mem_append_right _ hbound)))
    · exact Or.inr (Or.inr (Or.inr hglobal))

section

open scoped Bundled

/-- An import from a source that nothing is known of: its name is bound once, to a placeholder,
unless the code declares it. -/
theorem ofImports_binds_placeholder :
    let i : Import := { source := "./card".toList, defaultName := some "Card".toList }
    let p := ofImports [i] ["memo".toList] [] [] {}
    (p.bindings.flatMap Binding.names).count "Card".toList = 1 ∧
      "memo".toList ∉ p.bindings.flatMap Binding.names ∧
      p.stubs = ["Card".toList] := by
  intro i p
  obtain ⟨-, -, -, hdeclared, hlocal, hstubs⟩ := ofImports_binds [i] ["memo".toList] [] [] {}
  refine ⟨?_, fun h => hdeclared h List.mem_cons_self, hstubs.trans (by decide +kernel)⟩
  obtain hfree | hbound | hground | hglobal :=
    hlocal rfl i List.mem_cons_self rfl "Card".toList (by decide)
  · exact absurd hfree (by decide)
  · exact hbound
  · exact absurd hground (by decide)
  · exact absurd hglobal (by decide +kernel)

end

end Prelude

end LivePreview
