/-
Components that can be mounted.

A page mounts a component if its name is an identifier.  Default exports, the name of a file and the
given name are all asked for that, but a declared name only for a capital in front.  So the
component cannot be mounted exactly where a declared name is taken that starts with a capital and
has a character beyond ASCII.  Names of that kind come from code that parses only: where
declarations are found by going over the text, they are read over ASCII alone.
-/
import LivePreview.Proofs.Bundled
import LivePreview.Proofs.Page.DeclaredNames
import LivePreview.Proofs.Page.Outcome
import LivePreview.Proofs.SecondRun

namespace LivePreview

open Script Program

/-! ### Identifiers and names -/

/-- As far as the name is ASCII, it holds characters of identifiers only. -/
def Declaration.IsSpelled (d : Declaration) : Prop :=
  ∀ c ∈ d.name, c.toNat < 128 → isIdentChar c = true

theorem toNat_lt_of_isIdentChar {c : Char} (h : isIdentChar c = true) : c.toNat < 128 := by
  simp only [isIdentChar, isIdentStart, isAsciiLetter, isAsciiDigit, Bool.or_eq_true,
    Bool.and_eq_true, decide_eq_true_eq, beq_iff_eq, Char.le_def, UInt32.le_iff_toNat_le] at h
  have hcode : c.toNat = c.val.toNat := rfl
  rcases h with (((h | h) | rfl) | rfl) | h
  · have hz : 'z'.val.toNat = 122 := rfl
    omega
  · have hz : 'Z'.val.toNat = 90 := rfl
    omega
  · decide
  · decide
  · have hnine : '9'.val.toNat = 57 := rfl
    omega

theorem isIdentStart_of_capital {c : Char} (h : isAsciiCapital c = true) : isIdentStart c = true := by
  have hletter : isAsciiLetter c = true := by
    rw [isAsciiLetter, Bool.or_eq_true]
    exact Or.inr h
  rw [isIdentStart, hletter]
  rfl

/-- No reserved word starts with a capital. -/
theorem isReserved_of_capital {w : Text} (h : w.head?.any isAsciiCapital = true) :
    isReserved w = false := by
  have hall : ∀ v ∈ reservedWords, v.head?.any isAsciiCapital = false := by decide
  by_cases hreserved : isReserved w = true
  · rw [hall w (List.contains_iff_mem.mp hreserved)] at h
    cases h
  · simpa using hreserved

/-- With a capital in front, a name is an identifier where all of it is ASCII. -/
theorem isIdentifier_iff_of_capital {w : Text}
    (hw : ∀ c ∈ w, c.toNat < 128 → isIdentChar c = true) (h : w.head?.any isAsciiCapital = true) :
    isIdentifier w = true ↔ ∀ c ∈ w, c.toNat < 128 := by
  cases w with
  | nil => cases h
  | cons c t =>
    have hstart : isIdentStart c = true := isIdentStart_of_capital h
    rw [isIdentifier, isReserved_of_capital h, hstart, Bool.true_and, Bool.not_false, Bool.and_true,
      List.all_eq_true, List.forall_mem_cons]
    constructor
    · intro hall
      have hc : isIdentChar c = true := by
        rw [isIdentChar, hstart]
        rfl
      exact ⟨toNat_lt_of_isIdentChar hc, fun d hd => toNat_lt_of_isIdentChar (hall d hd)⟩
    · intro hall d hd
      exact hw d (List.mem_cons_of_mem c hd) (hall.2 d hd)

/-- A word that is read over ASCII is an identifier, if it starts with a capital. -/
theorem isIdentifier_of_word? {s w : Text} (h : word? s = some w)
    (hcapital : w.head?.any isAsciiCapital = true) : isIdentifier w = true := by
  have hw : w = ident s := by
    unfold word? at h
    split at h
    · cases h
    · exact (Option.some.inj h).symm
  rw [hw] at hcapital ⊢
  cases s with
  | nil => cases hcapital
  | cons c t =>
    by_cases hstart : isIdentStart c = true
    · have hident : ident (c :: t) = c :: t.takeWhile isIdentChar := if_pos hstart
      rw [hident] at hcapital ⊢
      rw [isIdentifier, hstart, isReserved_of_capital hcapital, List.all_takeWhile]
      rfl
    · have hident : ident (c :: t) = [] := if_neg hstart
      rw [hident] at hcapital
      cases hcapital

/-! ### Components -/

namespace Component

variable {ds : List Declaration} {es : List Text} {filename : Option Text} {fallback name : Text}

/-- The name that declarations give to a component: the last function binding, function or component
class with a capital in front, the first of these kinds that there is. -/
def declared? (ds : List Declaration) : Option Text :=
  (lastOf? .functionBinding ds).or ((lastOf? .function ds).or (lastOf? (.classDecl true) ds))

theorem lastOf?_spec {kind : DeclarationKind} (h : lastOf? kind ds = some name) :
    ∃ d ∈ ds, d.name = name ∧ name.head?.any isAsciiCapital = true := by
  obtain ⟨d, hfind, rfl⟩ := Option.map_eq_some_iff.mp h
  have hd := List.find?_some hfind
  rw [Bool.and_eq_true] at hd
  exact ⟨d, List.mem_reverse.mp (List.mem_of_find?_eq_some hfind), rfl, hd.2⟩

theorem declared?_spec (h : declared? ds = some name) :
    ∃ d ∈ ds, d.name = name ∧ name.head?.any isAsciiCapital = true := by
  rcases Option.or_eq_some_iff.mp h with hbinding | ⟨-, h⟩
  · exact lastOf?_spec hbinding
  rcases Option.or_eq_some_iff.mp h with hfunction | ⟨-, hclass⟩
  · exact lastOf?_spec hfunction
  · exact lastOf?_spec hclass

theorem isIdentifier_of_ofFilename? {path : Text} (h : ofFilename? path = some name) :
    isIdentifier name = true := by
  unfold ofFilename? at h
  dsimp only at h
  split at h
  · cases h
  · split at h
    · rename_i hname
      cases h
      exact hname
    · cases h

theorem isIdentifier_fallbackName (fallback : Text) : isIdentifier (fallbackName fallback) = true := by
  unfold fallbackName
  split
  · rename_i hname
    exact hname
  · decide

/-- The tiers are those for default exports, declarations, the name of the file and the given
name. -/
theorem name_resolve (ds : List Declaration) (es : List Text) (filename : Option Text)
    (fallback : Text) : (resolve ds es filename fallback).name = ((lastIdentifier? es).or
      ((declared? ds).or (filename.bind ofFilename?))).getD (fallbackName fallback) := by
  unfold resolve declared?
  cases lastIdentifier? es <;> cases lastOf? .functionBinding ds <;> cases lastOf? .function ds <;>
    cases lastOf? (.classDecl true) ds <;> cases filename.bind ofFilename? <;> rfl

/-- **Only a declared name can be none that is mounted.** -/
theorem unidentified_resolve_iff (ds : List Declaration) (es : List Text)
    (filename : Option Text) (fallback name : Text) :
    isIdentifier (resolve ds es filename fallback).name = false ∧
        (resolve ds es filename fallback).name = name ↔
      lastIdentifier? es = none ∧ declared? ds = some name ∧ isIdentifier name = false := by
  rw [name_resolve]
  cases hexport : lastIdentifier? es with
  | some n =>
    have hn : isIdentifier n = true := List.find?_some hexport
    simp [hn]
  | none =>
    cases hdeclared : declared? ds with
    | some n =>
      constructor
      · rintro ⟨hn, rfl⟩
        exact ⟨rfl, rfl, hn⟩
      · rintro ⟨-, hname, hn⟩
        cases hname
        exact ⟨hn, rfl⟩
    | none =>
      cases hfile : filename.bind ofFilename? with
      | some n =>
        obtain ⟨path, -, hpath⟩ := Option.bind_eq_some_iff.mp hfile
        simp [isIdentifier_of_ofFilename? hpath]
      | none => simp [isIdentifier_fallbackName]

end Component

/-! ### Declarations that are found without a parser -/

theorem exists_word?_of_startingAt? {s : Text} {d : Declaration}
    (h : Declaration.startingAt? s = some d) : ∃ t, word? t = some d.name := by
  unfold Declaration.startingAt? at h
  obtain ⟨keyword, -, h⟩ := Option.bind_eq_some_iff.mp h
  obtain ⟨name, hname, h⟩ := Option.bind_eq_some_iff.mp h
  refine ⟨_, hname.trans (congrArg some ?_)⟩
  by_cases hfunction : keyword = "function".toList
  · rw [if_pos hfunction] at h
    cases h
    rfl
  rw [if_neg hfunction] at h
  by_cases hclass : keyword = "class".toList
  · rw [if_pos hclass] at h
    cases h
    rfl
  rw [if_neg hclass] at h
  obtain ⟨-, h⟩ := Option.ite_none_right_eq_some.mp h
  cases h
  rfl

/-- Without a parser, the names that are found are read over ASCII. -/
theorem exists_word?_of_mem_scanFrom {fresh : Bool} {depth covered : Nat} {s : Text}
    {d : Declaration} (h : d ∈ Declaration.scanFrom fresh depth covered s) :
    ∃ t, word? t = some d.name := by
  induction s generalizing fresh depth covered with
  | nil =>
    unfold Declaration.scanFrom at h
    cases h
  | cons c s ih =>
    cases covered with
    | succ covered => exact ih h
    | zero =>
      rw [Declaration.scanFrom] at h
      split at h
      · exact ih h
      split at h
      · exact ih h
      split at h
      · exact ih h
      split at h
      · exact ih h
      split at h
      · rcases List.mem_append.mp h with hfound | hlater
        · split at hfound
          · exact exists_word?_of_startingAt? (Option.mem_toList.mp hfound)
          · cases hfound
        · exact ih hlater
      · exact ih h

/-- **Where declarations are found without a parser, the component can be mounted.** -/
theorem isIdentifier_of_declared?_scan {code name : Text}
    (h : Component.declared? (Declaration.scan code) = some name) : isIdentifier name = true := by
  obtain ⟨d, hd, rfl, hcapital⟩ := Component.declared?_spec h
  obtain ⟨t, ht⟩ := exists_word?_of_mem_scanFrom hd
  exact isIdentifier_of_word? ht hcapital

/-- **The names that a program declares are spelled as the language spells names.** -/
theorem isSpelled_of_parseScript [Platform] [Platform.SpellsNames] {code : Text}
    {program : List Statement} (h : Platform.parseScript code = .ok program) :
    ∀ d ∈ Declaration.ofProgram program, d.IsSpelled := by
  intro d hd c hc hascii
  exact Platform.SpellsNames.isIdentChar_of_bound h (name_mem_bound_of_ofProgram hd) hc hascii

/-- A declared name that is spelled so is an identifier where all of it is ASCII. -/
theorem isIdentifier_of_declared?_iff {ds : List Declaration} {name : Text}
    (hnames : ∀ d ∈ ds, d.IsSpelled) (h : Component.declared? ds = some name) :
    isIdentifier name = false ↔ ∃ c ∈ name, 128 ≤ c.toNat := by
  obtain ⟨d, hd, rfl, hcapital⟩ := Component.declared?_spec h
  rw [← Bool.not_eq_true, isIdentifier_iff_of_capital (hnames d hd) hcapital]
  simp only [not_forall, Nat.not_lt, exists_prop]

/-! ### Drafts -/

namespace Draft

variable {d : Draft} {options : Options}

/-- The code of a draft in front of the eraser, with what was taken out of it. -/
def stripped (d : Draft) : Module.Stripped := Module.strip (Processed.mergedCode d.code)

/-- The code that is verified declares a component by this name, and no default export comes before
it; but the name goes beyond ASCII. -/
def Unmountable [Platform] (d : Draft) (name : Text) : Prop :=
  ∃ erased program, Erasure.eraseTypes d.stripped.code = .ok erased ∧
    Platform.parseScript (Answer.trimBlankLines erased.code) = .ok program ∧
    Component.lastIdentifier? d.stripped.defaultExports = none ∧
    Component.declared? (Declaration.ofProgram program) = some name ∧ ∃ c ∈ name, 128 ≤ c.toNat

theorem ofDraft_of_overflow [Platform] (hblank : d.isBlank = false)
    (h : Erasure.eraseTypes d.stripped.code = .error .overflow) :
    Processed.ofDraft d options = .error .enumOverflow := by
  unfold stripped Processed.mergedCode at h
  unfold Processed.ofDraft
  simp only [hblank, h]
  rfl

/-- The component of a draft that is not asked to parse. -/
theorem exists_component [Platform]
    (hblank : d.isBlank = false) (hlenient : options.strictSyntaxCheck = false)
    {erased : Erasure.Erased} (h : Erasure.eraseTypes d.stripped.code = .ok erased) :
    ∃ p, Processed.ofDraft d options = .ok p ∧ p.component = Component.resolve
      (verify (Answer.trimBlankLines erased.code)).declarations d.stripped.defaultExports
      (Processed.filenameHint d (Answer.normalize d.code)) options.fallbackComponent := by
  unfold stripped Processed.mergedCode at h ⊢
  unfold Processed.ofDraft
  simp only [hblank, h, hlenient, Bool.false_and, Bool.false_eq_true, if_false]
  refine ⟨_, rfl, ?_⟩
  dsimp only

/-- The component of a draft has a name that is not mounted where the draft is unmountable. -/
theorem unmountable_iff [Platform] [Platform.SpellsNames] {erased : Erasure.Erased}
    (h : Erasure.eraseTypes d.stripped.code = .ok erased) (filename : Option Text)
    (fallback name : Text) :
    isIdentifier (Component.resolve (verify (Answer.trimBlankLines erased.code)).declarations
        d.stripped.defaultExports filename fallback).name = false ∧
      (Component.resolve (verify (Answer.trimBlankLines erased.code)).declarations
        d.stripped.defaultExports filename fallback).name = name ↔ d.Unmountable name := by
  rw [Component.unidentified_resolve_iff]
  unfold verify
  cases hparse : Platform.parseScript (Answer.trimBlankLines erased.code) with
  | ok program =>
    have hnames := isSpelled_of_parseScript hparse
    constructor
    · rintro ⟨hexports, hdeclared, hname⟩
      exact ⟨erased, program, h, hparse, hexports, hdeclared,
        (isIdentifier_of_declared?_iff hnames hdeclared).mp hname⟩
    · rintro ⟨erased', program', h', hparse', hexports, hdeclared, hfar⟩
      rw [h] at h'
      cases h'
      rw [hparse] at hparse'
      cases hparse'
      exact ⟨hexports, hdeclared, (isIdentifier_of_declared?_iff hnames hdeclared).mpr hfar⟩
  | error messages =>
    constructor
    · rintro ⟨-, hdeclared, hname⟩
      rw [isIdentifier_of_declared?_scan hdeclared] at hname
      cases hname
    · rintro ⟨erased', program', h', hparse', -⟩
      rw [h] at h'
      cases h'
      rw [hparse] at hparse'
      cases hparse'

/-- **A draft with something in it fails for an enum that overflows or for the name of its
component.** -/
theorem tryPage_eq_error_iff [Platform] [Platform.SpellsNames] (hblank : d.isBlank = false)
    (hlenient : options.strictSyntaxCheck = false) (token : Nat) (failure : Failure) :
    d.tryPage options token = .error failure ↔
      Erasure.eraseTypes d.stripped.code = .error .overflow ∧ failure = .enumOverflow ∨
        ∃ name, d.Unmountable name ∧ failure = .invalidComponent name := by
  cases herased : Erasure.eraseTypes d.stripped.code with
  | error o =>
    have hmountable : ¬∃ name, d.Unmountable name ∧ failure = .invalidComponent name := by
      rintro ⟨name, ⟨erased, program, h, -⟩, -⟩
      rw [herased] at h
      cases h
    rw [tryPage_of_unprocessed (ofDraft_of_overflow hblank herased), or_iff_left hmountable]
    constructor
    · intro h
      exact ⟨rfl, (Except.error.inj h).symm⟩
    · rintro ⟨-, rfl⟩
      rfl
  | ok erased =>
    obtain ⟨p, hdraft, hcomponent⟩ := exists_component hblank hlenient herased
    have hname := unmountable_iff herased (Processed.filenameHint d (Answer.normalize d.code))
      options.fallbackComponent
    rw [← hcomponent] at hname
    rw [tryPage_of_processed hdraft]
    by_cases hidentifier : isIdentifier p.component.name = true
    · rw [if_pos hidentifier]
      constructor
      · intro h
        cases h
      · rintro (⟨h, -⟩ | ⟨name, hunmountable, -⟩)
        · cases h
        · rw [((hname name).mpr hunmountable).1] at hidentifier
          cases hidentifier
    · rw [if_neg hidentifier]
      have hfalse : isIdentifier p.component.name = false := by simpa using hidentifier
      constructor
      · intro h
        exact Or.inr ⟨_, (hname _).mp ⟨hfalse, rfl⟩, (Except.error.inj h).symm⟩
      · rintro (⟨h, -⟩ | ⟨name, hunmountable, rfl⟩)
        · cases h
        · rw [((hname name).mpr hunmountable).2]

/-- **A component can be mounted unless its name is declared and goes beyond ASCII.**  So says the
choice among names that are as a program gives them, and so does the page of every draft. -/
theorem unmountable_beyond_ascii [Platform] [Platform.SpellsNames]
    (ds : List Declaration) (es : List Text) (filename : Option Text)
    (fallback : Text) (d : Draft) (options : Options) (token : Nat) :
    ((∀ decl ∈ ds, decl.IsSpelled) →
      (isIdentifier (Component.resolve ds es filename fallback).name = false ↔
        Component.lastIdentifier? es = none ∧
          ∃ name, Component.declared? ds = some name ∧ ∃ c ∈ name, 128 ≤ c.toNat)) ∧
    (d.isBlank = false → options.strictSyntaxCheck = false →
      (∀ failure, d.tryPage options token = .error failure ↔
        Erasure.eraseTypes d.stripped.code = .error .overflow ∧ failure = .enumOverflow ∨
          ∃ name, d.Unmountable name ∧ failure = .invalidComponent name) ∧
      ((d.page options token).isError = true ↔
        Erasure.eraseTypes d.stripped.code = .error .overflow ∨ ∃ name, d.Unmountable name)) := by
  refine ⟨?_, ?_⟩
  · intro hnames
    have hname := Component.unidentified_resolve_iff ds es filename fallback
    constructor
    · intro h
      obtain ⟨hexports, hdeclared, hname⟩ := (hname _).mp ⟨h, rfl⟩
      exact ⟨hexports, _, hdeclared, (isIdentifier_of_declared?_iff hnames hdeclared).mp hname⟩
    · rintro ⟨hexports, name, hdeclared, hfar⟩
      exact ((hname name).mpr ⟨hexports, hdeclared,
        (isIdentifier_of_declared?_iff hnames hdeclared).mpr hfar⟩).1
  · intro hblank hlenient
    have hfails := tryPage_eq_error_iff hblank hlenient token
    refine ⟨hfails, ?_⟩
    rw [isError_page_iff]
    constructor
    · rintro ⟨failure, h⟩
      rcases (hfails failure).mp h with ⟨hoverflow, -⟩ | ⟨name, hname, -⟩
      · exact Or.inl hoverflow
      · exact Or.inr ⟨name, hname⟩
    · rintro (hoverflow | ⟨name, hname⟩)
      · exact ⟨_, (hfails _).mpr (Or.inl ⟨hoverflow, rfl⟩)⟩
      · exact ⟨_, (hfails _).mpr (Or.inr ⟨name, hname, rfl⟩)⟩

section

open scoped Bundled

/-- A component by the name of `Café` is found, and no page mounts it. -/
theorem unmountable_cafe :
    isIdentifier (Component.resolve [⟨"Café".toList, .function⟩] [] none "App".toList).name = false ∧
      (({ code := "const Café = () => 1".toList } : Draft).page {} 1).isError = true := by
  have hfar : ∃ c ∈ "Café".toList, 128 ≤ c.toNat := ⟨'é', by decide, by decide⟩
  have hcafe := unmountable_beyond_ascii [⟨"Café".toList, .function⟩] [] none "App".toList
    { code := "const Café = () => 1".toList } {} 1
  constructor
  · refine (hcafe.1 ?_).mpr ⟨rfl, "Café".toList, rfl, hfar⟩
    intro decl hdecl c hc hascii
    rw [List.mem_singleton.mp hdecl] at hc
    have hall : ("Café".toList.all fun c => 128 ≤ c.toNat || isIdentChar c) = true := by decide
    have hchar := List.all_eq_true.mp hall c hc
    rw [Bool.or_eq_true, decide_eq_true_eq] at hchar
    exact hchar.resolve_left (Nat.not_le.mpr hascii)
  · refine (hcafe.2 (by decide +kernel) rfl).2.mpr (Or.inr ⟨"Café".toList, ?_⟩)
    have hcode : ({ code := "const Café = () => 1".toList } : Draft).stripped
        = ⟨"const Café = () => 1\n".toList, [], []⟩ := by decide +kernel
    have hdeclares : (Program.parse? "const Café = () => 1\n".toList).map Declaration.ofProgram
        = some [⟨"Café".toList, .functionBinding⟩] := by decide +kernel
    obtain ⟨program, hparse, hdeclared⟩ := Option.map_eq_some_iff.mp hdeclares
    have htrim : Answer.trimBlankLines "const Café = () => 1\n".toList
        = "const Café = () => 1\n".toList := by decide +kernel
    unfold Unmountable
    rw [hcode]
    refine ⟨⟨"const Café = () => 1\n".toList, ⟨[]⟩⟩, program, by decide +kernel, ?_, rfl, ?_, hfar⟩
    · dsimp only
      rw [htrim]
      exact Bundled.parseScript_eq_ok_iff.mpr hparse
    · rw [hdeclared]
      rfl

end

end Draft

end LivePreview
