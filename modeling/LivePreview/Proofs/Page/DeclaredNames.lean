/-
Names that code declares, and whether a page binds them again.

A name that a program binds occurs in it, once or more often.  Verification looks at most of these
occurrences but not at all: it passes over what stands in front of a default value, over what a
`var` inside of another statement binds around it, and over a declaration behind an `export` that
survived.  So each occurrence carries whether it is passed over, and one list gives both what is
bound and what is declared: the names of all occurrences, and the names of those that are seen, in
the order of the program.

A page binds a name if it is wished for and not declared.  Together this says exactly which names of
a program are bound a second time in front of it: those that are passed over wherever they stand.
-/
import LivePreview.Proofs.Bundled
import LivePreview.Proofs.Page.Bindings
import LivePreview.Proofs.Records
import LivePreview.Preview

namespace LivePreview

namespace Program

/-! ### Occurrences of names that are bound -/

/-- A name where it is bound. -/
structure Occurrence where
  name : Text
  /-- true if verification does not look at it -/
  passedOver : Bool
deriving DecidableEq, Repr

mutual

/-- The names that a pattern binds, where it binds them, in order.  What stands in front of a
default value is passed over. -/
def Pattern.occurrences : Pattern → List Occurrence
  | .name n => [⟨n, false⟩]
  | .object items => Pattern.occurrencesOfAll items
  | .array items => Pattern.occurrencesOfAll items
  | .hole => []
  | .rest p => p.occurrences
  | .withDefault p => p.bound.map (⟨·, true⟩)

/-- The names that several patterns bind, in order. -/
def Pattern.occurrencesOfAll : List Pattern → List Occurrence
  | [] => []
  | p :: ps => p.occurrences ++ Pattern.occurrencesOfAll ps

end

/-- The names that a statement binds, where it binds them, in order. -/
def Statement.occurrences : Statement → List Occurrence
  | .bindings _ declarators => declarators.flatMap fun (p, _) => p.occurrences
  | .function name => [⟨name, false⟩]
  | .classDecl name _ => [⟨name, false⟩]
  | .exported _ declared => declared.map (⟨·, true⟩)
  | .compound inside => (Statement.hoistedByAll inside).map (⟨·, true⟩)
  | .other => []

/-- The names of occurrences. -/
def namesOf (xs : List Occurrence) : List Text := xs.map Occurrence.name

/-- The names of the occurrences that are seen. -/
def namesSeen (xs : List Occurrence) : List Text := namesOf (xs.filter fun x => !x.passedOver)

section

variable (xs ys : List Occurrence)

@[simp] theorem namesOf_append : namesOf (xs ++ ys) = namesOf xs ++ namesOf ys := List.map_append

@[simp] theorem namesSeen_append : namesSeen (xs ++ ys) = namesSeen xs ++ namesSeen ys := by
  simp [namesSeen]

theorem namesOf_passedOver (names : List Text) : namesOf (names.map (⟨·, true⟩)) = names := by
  simp [namesOf, Function.comp_def]

theorem namesSeen_passedOver (names : List Text) : namesSeen (names.map (⟨·, true⟩)) = [] := by
  simp [namesSeen, namesOf, List.filter_map, Function.comp_def]

theorem mem_namesSeen {n : Text} : n ∈ namesSeen xs ↔ ∃ x ∈ xs, x.name = n ∧ x.passedOver = false := by
  simp only [namesSeen, namesOf, List.mem_map, List.mem_filter, Bool.not_eq_true', and_assoc]
  exact exists_congr fun x => and_congr_right fun _ => and_comm

/-- All names are seen only where no occurrence is passed over. -/
theorem namesSeen_eq_namesOf_iff : namesSeen xs = namesOf xs ↔ ∀ x ∈ xs, x.passedOver = false := by
  refine ⟨fun h => ?_, fun h => ?_⟩
  · have hlength := congrArg List.length h
    simp only [namesSeen, namesOf, List.length_map] at hlength
    intro x hx
    simpa using List.length_filter_eq_length_iff.mp hlength x hx
  · rw [namesSeen, List.filter_eq_self.mpr fun x hx => by simpa using h x hx]

end

/-! ### Patterns -/

mutual

theorem Pattern.namesOf_occurrences : ∀ q : Pattern, namesOf q.occurrences = q.bound
  | .name _ | .hole => rfl
  | .object items => Pattern.namesOf_occurrencesOfAll items
  | .array items => Pattern.namesOf_occurrencesOfAll items
  | .rest q => Pattern.namesOf_occurrences q
  | .withDefault q => namesOf_passedOver q.bound

theorem Pattern.namesOf_occurrencesOfAll :
    ∀ qs : List Pattern, namesOf (Pattern.occurrencesOfAll qs) = Pattern.boundByAll qs
  | [] => rfl
  | q :: qs => by
    rw [Pattern.occurrencesOfAll, namesOf_append, Pattern.namesOf_occurrences q,
      Pattern.namesOf_occurrencesOfAll qs, Pattern.boundByAll]

end

mutual

theorem Pattern.namesSeen_occurrences : ∀ q : Pattern, namesSeen q.occurrences = q.collected
  | .name _ | .hole => rfl
  | .object items => Pattern.namesSeen_occurrencesOfAll items
  | .array items => Pattern.namesSeen_occurrencesOfAll items
  | .rest q => Pattern.namesSeen_occurrences q
  | .withDefault q => namesSeen_passedOver q.bound

theorem Pattern.namesSeen_occurrencesOfAll :
    ∀ qs : List Pattern, namesSeen (Pattern.occurrencesOfAll qs) = Pattern.collectedAll qs
  | [] => rfl
  | q :: qs => by
    rw [Pattern.occurrencesOfAll, namesSeen_append, Pattern.namesSeen_occurrences q,
      Pattern.namesSeen_occurrencesOfAll qs, Pattern.collectedAll]

end

/-! ### Statements -/

theorem namesOf_flatMap {α : Type} (occurrences : α → List Occurrence) (names : α → List Text)
    (h : ∀ a, namesOf (occurrences a) = names a) (as : List α) :
    namesOf (as.flatMap occurrences) = as.flatMap names := by
  induction as with
  | nil => rfl
  | cons a as ih => rw [List.flatMap_cons, List.flatMap_cons, namesOf_append, h, ih]

theorem namesSeen_flatMap {α : Type} (occurrences : α → List Occurrence) (names : α → List Text)
    (h : ∀ a, namesSeen (occurrences a) = names a) (as : List α) :
    namesSeen (as.flatMap occurrences) = as.flatMap names := by
  induction as with
  | nil => rfl
  | cons a as ih => rw [List.flatMap_cons, List.flatMap_cons, namesSeen_append, h, ih]

theorem Statement.namesOf_occurrences (st : Statement) : namesOf st.occurrences = st.bound := by
  cases st with
  | bindings hoisted declarators => exact namesOf_flatMap _ _ (fun d => d.1.namesOf_occurrences) declarators
  | function name => rfl
  | classDecl name parent => rfl
  | exported names declared => exact namesOf_passedOver declared
  | compound inside => exact namesOf_passedOver (Statement.hoistedByAll inside)
  | other => rfl

/-- A variable is declared under the names that are collected from its pattern. -/
theorem map_name_ofDeclarator (d : Pattern × Option Expr) :
    (Declaration.ofDeclarator d).map Declaration.name = d.1.collected := by
  unfold Declaration.ofDeclarator
  split
  · rfl
  · rw [List.map_map]
    exact List.map_id _

theorem Statement.namesSeen_occurrences (st : Statement) :
    namesSeen st.occurrences = (Declaration.ofStatement st).map Declaration.name := by
  cases st with
  | bindings hoisted declarators =>
    refine (namesSeen_flatMap _ _ (fun d => d.1.namesSeen_occurrences) declarators).trans ?_
    rw [Declaration.ofStatement, List.map_flatMap]
    exact List.flatMap_congr fun d _ => (map_name_ofDeclarator d).symm
  | function name => rfl
  | classDecl name parent => rfl
  | exported names declared => exact namesSeen_passedOver declared
  | compound inside => exact namesSeen_passedOver (Statement.hoistedByAll inside)
  | other => rfl

/-- The names that a program binds, where it binds them, in order. -/
def occurrencesOf (program : List Statement) : List Occurrence := program.flatMap Statement.occurrences

theorem namesOf_occurrencesOf (program : List Statement) :
    namesOf (occurrencesOf program) = program.flatMap Statement.bound :=
  namesOf_flatMap _ _ Statement.namesOf_occurrences program

theorem namesSeen_occurrencesOf (program : List Statement) :
    namesSeen (occurrencesOf program) = (Declaration.ofProgram program).map Declaration.name := by
  rw [Declaration.ofProgram, List.map_flatMap]
  exact namesSeen_flatMap _ _ Statement.namesSeen_occurrences program

/-- What a program declares it binds. -/
theorem name_mem_bound_of_ofProgram {program : List Statement} {d : Declaration}
    (h : d ∈ Declaration.ofProgram program) : d.name ∈ program.flatMap Statement.bound := by
  have hseen : d.name ∈ namesSeen (occurrencesOf program) := by
    rw [namesSeen_occurrencesOf]
    exact List.mem_map_of_mem h
  obtain ⟨x, hx, hname, -⟩ := (mem_namesSeen _).mp hseen
  rw [← namesOf_occurrencesOf, ← hname]
  exact List.mem_map_of_mem hx

end Program

/-! ### Wishes -/

namespace Prelude

variable {α : Type} {n : Text}

/-- A name is granted if it is wished for and free. -/
theorem mem_names_granted (name : α → Text) (bound : List Text) (xs : List α) :
    n ∈ (granted name bound xs).map name ↔ n ∉ bound ∧ n ∈ xs.map name := by
  refine ⟨fun h => ?_, fun ⟨hfree, hwished⟩ => ?_⟩
  · obtain ⟨x, hx, rfl⟩ := List.mem_map.mp h
    exact ⟨name_notMem_of_mem_granted hx, List.mem_map_of_mem (mem_of_mem_granted hx)⟩
  · obtain ⟨x, hx, rfl⟩ := List.mem_map.mp hwished
    exact (taken_or_granted name bound hx).resolve_left hfree

/-- The names that a page would bind in front of code that declares nothing. -/
def wishedNames (imports : List Import) (libraries : List Library) (code : Text)
    (options : Options) : List Text :=
  (reactWishes imports).map Prod.snd ++
    ((wishes options.stubUnknownImports imports libraries code).map Constant.name).filter
      (!groundNames.contains ·)

/-- **A page binds a name if it is wished for and the code does not declare it.** -/
theorem mem_names_ofImports (imports : List Import) (declared : List Text)
    (libraries : List Library) (code : Text) (options : Options) :
    n ∈ (ofImports imports declared libraries code options).names ↔
      n ∉ declared ∧ n ∈ wishedNames imports libraries code options := by
  have hfields : n ∈ (ofImports imports declared libraries code options).fields.map Prod.snd ↔
      n ∉ declared ∧ n ∈ (reactWishes imports).map Prod.snd := mem_names_granted _ _ _
  have hconstants : n ∈ (ofImports imports declared libraries code options).constants.map
        Constant.name ↔
      n ∉ groundNames ++ (ofImports imports declared libraries code options).fields.map Prod.snd ++
          declared ∧
        n ∈ (wishes options.stubUnknownImports imports libraries code).map Constant.name :=
    mem_names_granted _ _ _
  rw [names, List.mem_append, hconstants, hfields, wishedNames]
  simp only [List.mem_append, List.mem_filter, not_or, hfields, List.contains_eq_mem,
    Bool.not_eq_true', decide_eq_false_iff_not]
  by_cases hdeclared : n ∈ declared
  · simp [hdeclared]
  -- what is a member of React already is no constant
  by_cases hreact : n ∈ (reactWishes imports).map Prod.snd
  · simp only [hdeclared, hreact, not_false_eq_true, and_self, true_or]
  · simp only [hdeclared, hreact, not_false_eq_true, and_false, and_true, true_and, false_or]
    exact and_comm

end Prelude

/-! ### Processed code -/

namespace Processed

open Program

variable {d : Draft} {options : Options} {p : Processed} {program : List Statement}

theorem PartsOf.of_ofDraft [Platform] (h : ofDraft d options = .ok p) : PartsOf d p := by
  have hends := ends_ofDraft d options
  rw [h] at hends
  cases hends
  assumption

/-- Code that parses declares what its program declares. -/
theorem declarations_eq [Platform]
    (h : ofDraft d options = .ok p) (hparse : Platform.parseScript p.code = .ok program) :
    p.verification.declarations = Declaration.ofProgram program := by
  rw [(PartsOf.of_ofDraft h).verification, verify, hparse]

theorem mem_symbols [Platform]
    (h : ofDraft d options = .ok p) (hparse : Platform.parseScript p.code = .ok program)
    {n : Text} : n ∈ p.verification.symbols ↔ n ∈ namesSeen (occurrencesOf program) := by
  rw [Verification.symbols, List.mem_eraseDups, declarations_eq h hparse, namesSeen_occurrencesOf]

/-- **Which names of processed code are declared, and which are bound again.**  The occurrences in a
pattern are those of the names that it binds, in order, and the names that are seen are the ones
that are collected; so all of them are only where nothing stands in front of a default value.  Of
code that parses, the names that are seen are the declared ones, in order.  A page binds a name in
front of the code if it wishes for the name and every occurrence in the code is passed over. -/
theorem binds_again_iff [Platform]
    (h : ofDraft d options = .ok p) (hparse : Platform.parseScript p.code = .ok program)
    (className : Option Text) (token : Nat) :
    (∀ q : Pattern, namesOf q.occurrences = q.bound ∧ namesSeen q.occurrences = q.collected ∧
      (q.collected = q.bound ↔ ∀ x ∈ q.occurrences, x.passedOver = false)) ∧
    namesOf (occurrencesOf program) = program.flatMap Statement.bound ∧
    p.verification.declarations.map Declaration.name = namesSeen (occurrencesOf program) ∧
    ∀ n, n ∈ ((p.content className token).prelude options).bindings.flatMap Binding.names ↔
      (∀ x ∈ occurrencesOf program, x.name = n → x.passedOver = true) ∧
        n ∈ Prelude.wishedNames p.imports (p.content className token).libraries p.code options := by
  refine ⟨fun q => ⟨q.namesOf_occurrences, q.namesSeen_occurrences, ?_⟩,
    namesOf_occurrencesOf program, ?_, ?_⟩
  · rw [← q.namesSeen_occurrences, ← q.namesOf_occurrences, namesSeen_eq_namesOf_iff]
  · rw [declarations_eq h hparse, namesSeen_occurrencesOf]
  · intro n
    have hdeclared : n ∉ p.verification.symbols ↔
        ∀ x ∈ occurrencesOf program, x.name = n → x.passedOver = true := by
      rw [mem_symbols h hparse, mem_namesSeen]
      simp
    rw [← hdeclared, Prelude.flatMap_names_bindings]
    exact Prelude.mem_names_ofImports p.imports p.verification.symbols _ p.code options

section

open scoped Bundled

/-- What stands in front of a default value or inside of a loop is passed over and bound again;
other names are not. -/
theorem binds_again_iff_default :
    let d : Draft := { code := "const { useRef = 1, memo } = x;\nfor (var lazy of x) \x7b\x7d\n".toList }
    ∃ p, ofDraft d {} = .ok p ∧
      let bound := ((p.content none 0).prelude {}).bindings.flatMap Binding.names
      "useRef".toList ∈ bound ∧ "lazy".toList ∈ bound ∧ "memo".toList ∉ bound := by
  intro d
  have hcode : codeOf? d = some d.code := by decide +kernel
  obtain ⟨p, hp⟩ : ∃ p, ofDraft d {} = .ok p := by
    have hends := ends_ofDraft d {}
    generalize ofDraft d {} = outcome at hends ⊢
    cases hends with
    | blank hblank => exact absurd hblank (by decide)
    | overflow _ hnone => rw [hcode] at hnone; cases hnone
    | refused _ _ hstrict => cases hstrict
    | done => exact ⟨_, rfl⟩
  have hcode : p.code = d.code :=
    Option.some.inj ((PartsOf.of_ofDraft hp).code.symm.trans hcode)
  have hoccurrences : (parse? p.code).map occurrencesOf
      = some [⟨"useRef".toList, true⟩, ⟨"memo".toList, false⟩, ⟨"lazy".toList, true⟩] := by
    rw [hcode]
    decide +kernel
  obtain ⟨program, hparse, hprogram⟩ := Option.map_eq_some_iff.mp hoccurrences
  have hagain := (binds_again_iff hp (Bundled.parseScript_eq_ok_iff.mpr hparse) none 0).2.2.2
  rw [hprogram] at hagain
  have hwished : ∀ n ∈ Prelude.reactMembers, n ∈ Prelude.wishedNames p.imports
      (p.content none 0).libraries p.code {} := by
    intro n hn
    refine List.mem_append_left _ ?_
    rw [Prelude.reactWishes, List.map_append, List.map_map]
    exact List.mem_append_left _ (List.mem_map.mpr ⟨n, hn, rfl⟩)
  refine ⟨p, hp, (hagain _).mpr ⟨by decide, hwished _ (by decide)⟩,
    (hagain _).mpr ⟨by decide, hwished _ (by decide)⟩, fun hmemo => ?_⟩
  exact absurd (((hagain _).mp hmemo).1 ⟨"memo".toList, false⟩ (by decide) rfl) (by decide)

end

end Processed

end LivePreview
