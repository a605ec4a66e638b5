/-
Where declarations are found as the syntax tree has them.

Code that parses is known by its tree, other code by a scan for declarations.  On a program that is
made of declarations, one to a line, the scan finds each of them by its name, and nothing else, as
long as it counts its way through all of them: a bracket that it counts open at the end of a
declaration hides all that come behind, and a line inside of one that starts with the words of a
declaration is found in addition.  What it finds it takes for what the head says: a class counts as
one of a component if the name of its parent ends that way, a wrapper counts whatever it is called
with, and brackets around a function hide it.  So the two agree exactly where each declaration is
counted through and is of a form that its head tells right.
-/
import LivePreview.Proofs.Bundled
import LivePreview.Proofs.Declaration.Brackets
import LivePreview.Proofs.Declaration.Forms
import LivePreview.Verification

namespace LivePreview.Declaration

open Program Script
open Text (LineEnds Stops)

variable {s t code rest : Text}

/-! ### Programs of declarations -/

/-- A declaration of a program: how many brackets the scan counts open in front of it, its form, and
the declarations that lines inside of it look like. -/
structure Listed where
  depth : Nat
  form : Form
  inside : List Declaration := []

/-- What the scan finds of a declaration of a program. -/
def Listed.found (l : Listed) : List Declaration :=
  (if l.depth = 0 then [l.form.found] else []) ++ l.inside

variable {ls : List Listed} {d : Nat}

/-- The text consists of declarations, at most one to a line; `d` brackets are counted open in
front. -/
inductive Lists : Nat → Text → List Listed → Prop
  | nil {d : Nat} : Lists d [] []
  | blank {d : Nat} {c : Char} {s : Text} {ls : List Listed} (hc : c = '\n' ∨ isInline c = true)
      (h : Lists d s ls) : Lists d (c :: s) ls
  | form {d n : Nat} {form : Form} {s u t rest : Text} {inside : List Declaration} {ls : List Listed}
      (hform : form.At s u) (hu : u = t ++ rest) (hcounts : Counts d t inside n)
      (hend : LineEnds rest) (h : Lists n rest ls) : Lists d s (⟨d, form, inside⟩ :: ls)

/-- **At the start of a line a declaration is found, where no bracket is counted open**, and from
there the scan comes to its end. -/
theorem Form.At.reaches {form : Form} {u : Text} {inside : List Declaration} {n : Nat}
    (h : form.At s u) (hu : u = t ++ rest) (hcounts : Counts d t inside n) (hend : LineEnds rest) :
    ∃ fresh, Place.Reaches ⟨true, d, s⟩ (Listed.found ⟨d, form, inside⟩) ⟨fresh, n, rest⟩ := by
  obtain ⟨w, hword⟩ := h.exists_word
  obtain ⟨fresh, hreach⟩ := hcounts.runsTo hend false (quiet_of_not_fresh d (t ++ rest))
  have hne : s ≠ [] := by
    obtain ⟨c, v, rfl, -⟩ := hword.exists_cons
    exact List.cons_ne_nil c v
  have hnext : Place.next ⟨true, d, s⟩ = ⟨false, d, t ++ rest⟩ := by
    rw [← hu, hword.text]
    exact Place.next_word hword.isWord hword.stops
  rw [← hnext] at hreach
  have hfound : (Place.found? ⟨true, d, s⟩).toList = if d = 0 then [form.found] else [] := by
    by_cases hd : d = 0
    · have hstart : startsIdent s = true := by
        rw [hword.text]
        exact hword.isWord.startsIdent
      rw [if_pos hd, Place.found?, if_pos (by simp [hd, hstart]), h.startingAt?]
      rfl
    · rw [if_neg hd, Place.found?_of_depth hd]
      rfl
  refine ⟨fresh, ?_⟩
  rw [Listed.found, ← hfound]
  exact .next hne hreach

/-- **What the scan finds of a program of declarations.** -/
theorem Lists.scan (h : Lists d s ls) {fresh : Bool}
    (hfresh : fresh = true ∨ s = [] ∨ s.head? = some '\n') :
    Place.scan ⟨fresh, d, s⟩ = ls.flatMap Listed.found := by
  induction h generalizing fresh with
  | nil => rw [Place.scan, scanFrom, List.flatMap_nil]
  | @blank d c s ls hc h ih =>
    have hblank : c = '\n' ∨ fresh = true ∧ (c = ' ' ∨ c = '\t') := by
      rw [isInline, Bool.or_eq_true, beq_iff_eq, beq_iff_eq] at hc
      rcases hc with hline | hinline
      · exact Or.inl hline
      · rcases hfresh with hfresh | hnil | hline
        · exact Or.inr ⟨hfresh, hinline⟩
        · cases hnil
        · exact Or.inl (Option.some.inj hline)
    have hfound : Place.found? ⟨fresh, d, c :: s⟩ = none := by
      refine Place.found?_of_stops (Text.stops_cons.mpr ?_)
      obtain rfl | ⟨-, rfl | rfl⟩ := hblank <;> rfl
    have hnext : Place.next ⟨fresh, d, c :: s⟩ = ⟨true, d, s⟩ := by
      obtain rfl | ⟨rfl, rfl | rfl⟩ := hblank <;> rfl
    rw [Place.scan_next, hfound, hnext, ih (Or.inl rfl)]
    rfl
  | @form d n form s u t rest inside ls hform hu hcounts hend h ih =>
    have hfresh : fresh = true := by
      obtain ⟨w, hword⟩ := hform.exists_word
      obtain ⟨c, v, rfl, hc⟩ := hword.exists_cons
      obtain hfresh | hnil | hline := hfresh
      · exact hfresh
      · cases hnil
      · obtain rfl : c = '\n' := Option.some.inj hline
        cases hc
    obtain ⟨fresh', hreach⟩ := hform.reaches hu hcounts hend
    have hlater : fresh' = true ∨ rest = [] ∨ rest.head? = some '\n' := by
      cases hend with
      | nil => exact Or.inr (Or.inl rfl)
      | newline rest => exact Or.inr (Or.inr rfl)
    rw [hfresh, hreach.scan, ih hlater, List.flatMap_cons]

/-! ### Agreement -/

/-- True if an expression is a component inside of a wrapper. -/
def isWrappable : Expr → Bool
  | .name _ => true
  | e => e.isComponent

/-- A call of a wrapper is a component if its first argument may be wrapped. -/
theorem isComponent_wrapped {path : TypePath} (h : path.last ∈ componentWrappers)
    (values : List Expr) :
    (Expr.call (pathExpr path) values).isComponent = values.head?.any isWrappable := by
  have hknown : (pathExpr path).isKnownAs componentWrappers = true := by
    rw [isKnownAs_pathExpr, List.contains_iff_mem.mpr h]
  cases values with
  | nil => rfl
  | cons e values => cases e <;> simp [Expr.isComponent, hknown, isWrappable]

namespace Form

/-- The head of the declaration tells what it is. -/
def Agrees : Form → Prop
  | .function _ => True
  | .classDecl _ parent =>
    ∀ path ∈ parent, hasEnding "Component".toList path.last = true → path.last ∈ componentClasses
  | .binding _ _ .arrow => True
  | .binding _ _ .function => True
  | .binding _ _ (.parens e) => e.isComponent = false
  | .binding _ _ (.wrapped _ _ values) => values.head?.any isWrappable = true
  | .binding _ _ (.other text e) => startsFunction text = e.isComponent

theorem name_found (form : Form) : form.found.name = form.name := by
  cases form <;> rfl

theorem name_declared (form : Form) : form.declared.name = form.name := by
  cases form <;> rfl

theorem kind_eq_iff (name : Text) (p q : Bool) :
    (⟨name, if p then .functionBinding else .binding⟩ : Declaration)
      = ⟨name, if q then .functionBinding else .binding⟩ ↔ p = q := by
  cases p <;> cases q <;> simp

/-- **What is found is what is declared exactly where the head tells it.** -/
theorem found_eq_declared_iff (form : Form) : form.found = form.declared ↔ form.Agrees := by
  cases form with
  | function name => exact iff_of_true rfl trivial
  | classDecl name parent =>
    cases parent with
    | none => exact iff_of_true rfl (fun _ hpath => by cases hpath)
    | some path =>
      have hending : ∀ w ∈ componentClasses, hasEnding "Component".toList w = true := by decide
      have hiff : hasEnding "Component".toList path.last = componentClasses.contains path.last ↔
          (hasEnding "Component".toList path.last = true → path.last ∈ componentClasses) := by
        rw [Bool.eq_iff_iff, List.contains_iff_mem]
        exact ⟨Iff.mp, fun h => ⟨h, hending path.last⟩⟩
      simp only [found, declared, Agrees, Option.any_some, Declaration.mk.injEq, true_and,
        DeclarationKind.classDecl.injEq, Option.mem_def, Option.some.injEq, forall_eq', hiff]
  | binding name hoisted value =>
    refine (kind_eq_iff name _ _).trans ?_
    cases value with
    | arrow => exact iff_of_true rfl trivial
    | function => exact iff_of_true rfl trivial
    | parens e => exact eq_comm
    | wrapped path hwrapper values =>
      rw [Value.looksLikeFunction, Value.expr, isComponent_wrapped hwrapper]
      exact eq_comm
    | other text e => exact Iff.rfl

end Form

/-! ### Names -/

/-- Where each element gives at most one, as many are given as there are elements only if each gives
one. -/
theorem length_eq_one_of_le {α β : Type} {f : α → List β} {as : List α}
    (hle : ∀ a ∈ as, (f a).length ≤ 1) (h : (as.flatMap f).length = as.length) :
    ∀ a ∈ as, (f a).length = 1 := by
  induction as with
  | nil => exact List.forall_mem_nil _
  | cons a as ih =>
    obtain ⟨ha, has⟩ := List.forall_mem_cons.mp hle
    have hbound : (as.flatMap f).length ≤ as.length := by
      rw [List.length_flatMap]
      simpa using List.sum_le_card_nsmul (as.map fun a => (f a).length) 1 (by simpa using has)
    rw [List.flatMap_cons, List.length_append, List.length_cons] at h
    exact List.forall_mem_cons.mpr ⟨by omega, ih has (by omega)⟩

/-- The same where each element gives at least one. -/
theorem length_eq_one_of_ge {α β : Type} {f : α → List β} {as : List α}
    (hge : ∀ a ∈ as, 1 ≤ (f a).length) (h : (as.flatMap f).length = as.length) :
    ∀ a ∈ as, (f a).length = 1 := by
  induction as with
  | nil => exact List.forall_mem_nil _
  | cons a as ih =>
    obtain ⟨ha, has⟩ := List.forall_mem_cons.mp hge
    have hbound : as.length ≤ (as.flatMap f).length := by
      rw [List.length_flatMap]
      simpa using List.card_nsmul_le_sum (as.map fun a => (f a).length) 1 (by simpa using has)
    rw [List.flatMap_cons, List.length_append, List.length_cons] at h
    exact List.forall_mem_cons.mpr ⟨by omega, ih has (by omega)⟩

/-- A declaration that is counted through is found by its form, and nothing else is. -/
theorem flatMap_found_eq (h : ∀ l ∈ ls, l.depth = 0 ∧ l.inside = []) :
    ls.flatMap Listed.found = ls.map fun l => l.form.found := by
  rw [List.map_eq_flatMap]
  refine List.flatMap_congr fun l hl => ?_
  obtain ⟨hdepth, hinside⟩ := h l hl
  rw [Listed.found, if_pos hdepth, hinside, List.append_nil]

/-- The names are those of the declarations only if one is found of each. -/
theorem length_found_of_names
    (h : (ls.flatMap Listed.found).map Declaration.name
      = ls.map fun l => l.form.declared.name) :
    (ls.flatMap Listed.found).length = ls.length := by
  have hlength := congrArg List.length h
  rwa [List.length_map, List.length_map] at hlength

theorem names_eq (h : ∀ l ∈ ls, l.depth = 0 ∧ l.inside = []) :
    (ls.flatMap Listed.found).map Declaration.name = ls.map fun l => l.form.declared.name := by
  rw [flatMap_found_eq h, List.map_map]
  exact List.map_congr_left fun l _ => l.form.name_found.trans l.form.name_declared.symm

/-! ### Programs by their names -/

/-- The names of a function, or of a class that extends a name. -/
def headOf : Statement → Option (Text × Option Text)
  | .function name => some (name, none)
  | .classDecl name (some (.name parent)) => some (name, some parent)
  | _ => none

/-- The statement with such names. -/
def statementOf : Text × Option Text → Statement
  | (name, none) => .function name
  | (name, some parent) => .classDecl name (some (.name parent))

theorem eq_statementOf {st : Statement} {head : Text × Option Text} (h : headOf st = some head) :
    st = statementOf head := by
  unfold headOf at h
  split at h <;> cases h <;> rfl

theorem eq_map_statementOf {program : List Statement} {heads : List (Text × Option Text)}
    (h : program.mapM headOf = some heads) : program = heads.map statementOf := by
  induction program generalizing heads with
  | nil =>
    cases h
    rfl
  | cons st program ih =>
    simp only [List.mapM_cons, Option.bind_eq_bind, Option.bind_eq_some_iff] at h
    obtain ⟨head, hhead, heads, hheads, h⟩ := h
    cases h
    rw [List.map_cons, eq_statementOf hhead, ih hheads]

open scoped Bundled in
/-- A program of functions and derived classes is known by its names. -/
theorem parseScript_of_heads {heads : List (Text × Option Text)}
    (h : (Program.parse? code).bind (·.mapM headOf) = some heads) :
    Platform.parseScript code = .ok (heads.map statementOf) := by
  obtain ⟨program, hparse, hheads⟩ := Option.bind_eq_some_iff.mp h
  rw [Bundled.parseScript_eq_ok_iff, hparse, eq_map_statementOf hheads]

/-! ### The two readers -/

/-- **The scan agrees with the syntax tree on names and their order where it counts its way through,
and on kinds where heads tell them.**  A declaration is lost exactly if a bracket in front of it is
counted open, and one is found in addition exactly if a line inside of a declaration looks like one.
Where neither happens the kind of a function is the same.  That of a class is, unless the last word
of its parent ends with `Component` and is none of the base classes.  A variable set to an arrow
function or a function is a function for both; in brackets it is one for the tree alone, and a call
of a wrapper is one for the scan whatever the first argument is. -/
theorem scan_eq_declarations_iff [Platform] (h : Lists 0 code ls)
    (hparse : Platform.parseScript code = .ok (ls.map fun l => l.form.statement)) :
    (verify code).declarations = ls.map (fun l => l.form.declared) ∧
      scan code = ls.flatMap Listed.found ∧
      ((∀ l ∈ ls, l.inside = []) →
        ((scan code).map Declaration.name = (verify code).declarations.map Declaration.name ↔
          ∀ l ∈ ls, l.depth = 0)) ∧
      ((∀ l ∈ ls, l.depth = 0) →
        ((scan code).map Declaration.name = (verify code).declarations.map Declaration.name ↔
          ∀ l ∈ ls, l.inside = [])) ∧
      ((∀ l ∈ ls, l.depth = 0 ∧ l.inside = []) →
        (scan code = (verify code).declarations ↔ ∀ l ∈ ls, l.form.Agrees)) := by
  have hscan : scan code = ls.flatMap Listed.found := h.scan (Or.inl rfl)
  have hprogram : ofProgram (ls.map fun l => l.form.statement) = ls.map fun l => l.form.declared := by
    rw [ofProgram, List.flatMap_map, List.map_eq_flatMap]
    exact List.flatMap_congr fun l _ => l.form.ofStatement_statement
  have hdeclarations : (verify code).declarations = ls.map fun l => l.form.declared := by
    rw [verify, hparse]
    exact hprogram
  have hnames : (verify code).declarations.map Declaration.name
      = ls.map fun l => l.form.declared.name := by
    rw [hdeclarations, List.map_map]
    rfl
  refine ⟨hdeclarations, hscan, fun hinside => ?_, fun hdepth => ?_, fun hthrough => ?_⟩
  · rw [hscan, hnames]
    refine ⟨fun heq => ?_, fun hdepth => names_eq fun l hl => ⟨hdepth l hl, hinside l hl⟩⟩
    have hle : ∀ l ∈ ls, l.found.length ≤ 1 := by
      intro l hl
      rw [Listed.found, hinside l hl]
      split <;> simp
    intro l hl
    by_contra hne
    have hone := length_eq_one_of_le hle (length_found_of_names heq) l hl
    rw [Listed.found, if_neg hne, hinside l hl] at hone
    cases hone
  · rw [hscan, hnames]
    refine ⟨fun heq => ?_, fun hinside => names_eq fun l hl => ⟨hdepth l hl, hinside l hl⟩⟩
    have hge : ∀ l ∈ ls, 1 ≤ l.found.length := by
      intro l hl
      rw [Listed.found, if_pos (hdepth l hl)]
      simp
    intro l hl
    have hone := length_eq_one_of_ge hge (length_found_of_names heq) l hl
    rw [Listed.found, if_pos (hdepth l hl), List.length_append, List.length_singleton] at hone
    exact List.length_eq_zero_iff.mp (by omega)
  · rw [hscan, flatMap_found_eq hthrough, hdeclarations, List.map_inj_left]
    exact forall₂_congr fun l _ => l.form.found_eq_declared_iff

open scoped Bundled in
/-- The name of `MyComponent` ends as those of the base classes do, but it is none of them.  A quote
in the text of markup hides the brackets behind it, and with these the next function. -/
theorem scan_ne_declarations_myComponent :
    let derived : Text := "class A extends MyComponent {}\n".toList
    let lost : Text := "function A() \x7b return <p>it's</p>; \x7d\nfunction B() {}\n".toList
    let parent : TypePath := ⟨"MyComponent".toList, [], isWord_of_all rfl rfl, List.forall_mem_nil _⟩
    (Lists 0 derived [⟨0, .classDecl "A".toList (some parent), []⟩] ∧
        scan derived ≠ (verify derived).declarations) ∧
      Lists 0 lost [⟨0, .function "A".toList, []⟩, ⟨1, .function "B".toList, []⟩] ∧
        (scan lost).map Declaration.name ≠ (verify lost).declarations.map Declaration.name := by
  intro derived lost parent
  have hword : ∀ {w s t : Text}, startsIdent w = true → w.all isIdentChar = true → s = w ++ t →
      Stops isIdentChar t → WordAt w s t :=
    fun hstart hall hs ht => ⟨isWord_of_all hstart hall, hs, ht⟩
  have hname : ∀ {k n : Nat} {w s : Text}, startsIdent w = true → w.all isIdentChar = true →
      Stops isIdentChar s → Counts k s [] n → Counts k (w ++ s) [] n :=
    fun hstart hall hs h => .word (isWord_of_all hstart hall) hs h
  have hchar : ∀ {k n : Nat} {s : Text} (c : Char), isTokenChar c = true ∧ isIdentStart c = false ∧
      c ≠ '\n' → Counts k s [] n → Counts k (c :: s) [] n :=
    fun c hc h => .char (Or.inl hc.1) hc.2.1 hc.2.2 h
  have hpair : ∀ {k n : Nat} {s : Text} (b : Bracket), Counts k s [] n →
      Counts k (b.opening :: b.closing :: s) [] n :=
    fun b h => .group ⟨b, [], by cases b <;> rfl⟩ h
  have hderived : Lists 0 derived [⟨0, .classDecl "A".toList (some parent), []⟩] := by
    have hform : Form.At derived " A extends MyComponent {}\n".toList
        (.classDecl "A".toList (some parent)) :=
      .derived (t := " extends MyComponent {}\n".toList) (v := " MyComponent {}\n".toList)
        (w := " {}\n".toList) (hword rfl rfl rfl (by decide)) (hword rfl rfl rfl (by decide))
        (hword rfl rfl rfl (by decide)) rfl (by decide) rfl
    have hcounts : Counts 0 " A extends MyComponent {}".toList [] 0 :=
      hchar ' ' (by decide) (hname (w := "A".toList) rfl rfl (by decide)
        (hchar ' ' (by decide) (hname (w := "extends".toList) rfl rfl (by decide)
          (hchar ' ' (by decide) (hname (w := "MyComponent".toList) rfl rfl (by decide)
            (hchar ' ' (by decide) (hpair .curly .nil)))))))
    exact .form hform rfl hcounts (.newline _) (.blank (Or.inl rfl) .nil)
  have hlost : Lists 0 lost [⟨0, .function "A".toList, []⟩, ⟨1, .function "B".toList, []⟩] := by
    have hfirst : Form.At lost
        " A() \x7b return <p>it's</p>; \x7d\nfunction B() {}\n".toList (.function "A".toList) :=
      .function (t := "() \x7b return <p>it's</p>; \x7d\nfunction B() {}\n".toList)
        (hword rfl rfl rfl (by decide)) (hword rfl rfl rfl (by decide)) rfl
    have hbody : ∀ c ∈ "s</p>; \x7d".toList, c ∉ ['\'', '\\', '\n'] := by simp
    have hquote : Counts 1 ('\'' :: ("s</p>; \x7d".toList ++ [])) [] 1 := .cut rfl hbody .nil .nil
    have hopen : Counts 0 " A() \x7b return <p>it's</p>; \x7d".toList [] 1 :=
      hchar ' ' (by decide) (hname (w := "A".toList) rfl rfl (by decide) (hpair .round
        (hchar ' ' (by decide) (.opened .curly
          (hchar ' ' (by decide) (hname (w := "return".toList) rfl rfl (by decide)
            (hchar ' ' (by decide) (hchar '<' (by decide)
              (hname (w := "p".toList) rfl rfl (by decide) (hchar '>' (by decide)
                (hname (w := "it".toList) rfl rfl (by decide) hquote)))))))))))
    have hsecond : Form.At "function B() {}\n".toList " B() {}\n".toList (.function "B".toList) :=
      .function (t := "() {}\n".toList) (hword rfl rfl rfl (by decide))
        (hword rfl rfl rfl (by decide)) rfl
    have hclosed : Counts 1 " B() {}".toList [] 1 :=
      hchar ' ' (by decide) (hname (w := "B".toList) rfl rfl (by decide)
        (hpair .round (hchar ' ' (by decide) (hpair .curly .nil))))
    exact .form hfirst rfl hopen (.newline _) (.blank (Or.inl rfl)
      (.form hsecond rfl hclosed (.newline _) (.blank (Or.inl rfl) .nil)))
  have hparsed : (Program.parse? derived).bind (·.mapM headOf)
      = some [("A".toList, some "MyComponent".toList)] := by decide +kernel
  have hboth : (Program.parse? lost).bind (·.mapM headOf)
      = some [("A".toList, none), ("B".toList, none)] := by decide +kernel
  obtain ⟨-, -, -, -, hkinds⟩ := scan_eq_declarations_iff hderived (parseScript_of_heads hparsed)
  obtain ⟨-, -, hnames, -⟩ := scan_eq_declarations_iff hlost (parseScript_of_heads hboth)
  refine ⟨⟨hderived, fun heq => ?_⟩, hlost, fun heq => ?_⟩
  · have hagrees := (hkinds (by simp)).mp heq _ (List.mem_cons_self ..)
    exact absurd (hagrees _ rfl (by decide)) (by decide)
  · have hdepth := (hnames (by simp)).mp heq ⟨1, .function "B".toList, []⟩ (by simp)
    cases hdepth

end LivePreview.Declaration
