/-
The tiers from which a component takes its name.

Each source offers a name or none: the default exports and the declarations of a kind offer the last
one that fits, the name of a file what it comes to in capitals, and the given name always something.
The component has the name that the first of these offers.  So what is put in front of the lists, as
the files that come before the root are, changes nothing unless it belongs to an earlier source.
-/
import LivePreview.Proofs.Page.Mountable

namespace LivePreview

/-- The place of a source in the order in which sources are asked. -/
def ComponentSource.rank : ComponentSource → Nat
  | exportDefault => 0
  | declaredConst => 1
  | declaredFunction => 2
  | declaredClass => 3
  | filename => 4
  | fallback => 5

theorem ComponentSource.rank_inj {a b : ComponentSource} (h : a.rank = b.rank) : a = b := by
  cases a <;> cases b <;> first | rfl | cases h

namespace Component

open Script

variable {α : Type} {P : α → Prop} {xs more : List α} {x : α}

/-! ### The last one of its kind -/

/-- The last element for which `P` holds. -/
def IsLast (P : α → Prop) (xs : List α) (x : α) : Prop :=
  ∃ front back, xs = front ++ x :: back ∧ P x ∧ ∀ y ∈ back, ¬P y

theorem find?_reverse_eq_some_iff {p : α → Bool} :
    xs.reverse.find? p = some x ↔ IsLast (p · = true) xs x := by
  rw [List.find?_eq_some_iff_append]
  constructor
  · rintro ⟨hx, back, front, hxs, hback⟩
    refine ⟨front.reverse, back.reverse, ?_, hx, fun y hy => ?_⟩
    · rw [← List.reverse_reverse xs, hxs, List.reverse_append, List.reverse_cons,
        List.append_assoc, List.singleton_append]
    · simpa using hback y (List.mem_reverse.mp hy)
  · rintro ⟨front, back, rfl, hx, hback⟩
    refine ⟨hx, back.reverse, front.reverse, by simp, fun y hy => ?_⟩
    simpa using hback y (List.mem_reverse.mp hy)

theorem IsLast.holds (h : IsLast P xs x) : P x := by
  obtain ⟨-, -, -, hx, -⟩ := h
  exact hx

/-- What stands in front of the last element does not matter. -/
theorem IsLast.append_left (more : List α) (h : IsLast P xs x) : IsLast P (more ++ xs) x := by
  obtain ⟨front, back, rfl, hx, hback⟩ := h
  exact ⟨more ++ front, back, (List.append_assoc _ _ _).symm, hx, hback⟩

/-- The last element of two lists is in the second one unless nothing there fits. -/
theorem IsLast.of_append (h : IsLast P (more ++ xs) x) : x ∈ more ∨ IsLast P xs x := by
  obtain ⟨front, back, heq, hx, hback⟩ := h
  obtain ⟨between, rfl, hxs⟩ | ⟨between, rfl, hxs⟩ := List.append_eq_append_iff.mp heq
  · exact Or.inr ⟨between, back, hxs, hx, hback⟩
  · cases between with
    | nil => exact Or.inr ⟨[], back, by simpa using hxs.symm, hx, hback⟩
    | cons z between =>
      obtain ⟨rfl, -⟩ := List.cons.inj hxs
      exact Or.inl (List.mem_append_right front List.mem_cons_self)

/-! ### Names of files -/

/-- Characters without the separators between words, where `opens` tells that a word starts here. -/
def pascalFrom : Bool → Text → Text
  | _, [] => []
  | opens, c :: s =>
    if separatesWords c then pascalFrom true s
    else (if opens then Text.capital c else [c]) ++ pascalFrom false s

/-- The words of a text put together, each with a capital in front. -/
def pascalCase (s : Text) : Text := pascalFrom true s

/-- The first field goes on with the word that stands in front of it. -/
theorem pascalFrom_eq (s : Text) : pascalFrom true s
      = (Text.splitBy separatesWords s).flatMap capitalize ∧
    ∃ field fields, Text.splitBy separatesWords s = field :: fields ∧
      pascalFrom false s = field ++ fields.flatMap capitalize := by
  induction s with
  | nil => exact ⟨rfl, [], [], rfl, rfl⟩
  | cons c s ih =>
    obtain ⟨htrue, field, fields, hsplit, hfalse⟩ := ih
    by_cases hc : separatesWords c = true
    · have hcut : Text.splitBy separatesWords (c :: s) = [] :: Text.splitBy separatesWords s := by
        rw [Text.splitBy, if_pos hc]
      rw [hcut]
      refine ⟨?_, [], _, rfl, ?_⟩
      · rw [pascalFrom, if_pos hc, htrue, List.flatMap_cons]
        rfl
      · rw [pascalFrom, if_pos hc, htrue, List.nil_append]
    · have hcut : Text.splitBy separatesWords (c :: s) = (c :: field) :: fields := by
        rw [Text.splitBy, if_neg hc, hsplit]
      rw [hcut]
      refine ⟨?_, c :: field, fields, rfl, ?_⟩
      · rw [pascalFrom, if_neg hc, if_pos rfl, hfalse, List.flatMap_cons, capitalize,
          List.append_assoc]
      · rw [pascalFrom, if_neg hc, hfalse]
        rfl

/-- **A file gives its name in capitals, if that is an identifier and says something.** -/
theorem ofFilename?_eq_some_iff {path name : Text} : ofFilename? path = some name ↔
    Text.lowerAscii (stemOf path) ∉ ignoredStems ∧ name = pascalCase (stemOf path) ∧
      isIdentifier name = true := by
  unfold ofFilename? pascalCase
  rw [(pascalFrom_eq (stemOf path)).1]
  simp only [List.contains_eq_mem, decide_eq_true_eq]
  split
  · simp [*]
  · rw [Option.ite_none_right_eq_some, Option.some_inj]
    constructor
    · rintro ⟨hname, rfl⟩
      exact ⟨‹_›, rfl, hname⟩
    · rintro ⟨-, rfl, hname⟩
      exact ⟨hname, rfl⟩

/-! ### Offers -/

/-- A declaration of this kind whose name has a capital in front. -/
def Fits (kind : DeclarationKind) (d : Declaration) : Prop :=
  d.kind = kind ∧ d.name.head?.any isAsciiCapital = true

/-- The name that a source offers. -/
def Offers (ds : List Declaration) (es : List Text) (filename : Option Text) (fallback : Text) :
    ComponentSource → Text → Prop
  | .exportDefault, name => IsLast (isIdentifier · = true) es name
  | .declaredConst, name => ∃ d, IsLast (Fits .functionBinding) ds d ∧ d.name = name
  | .declaredFunction, name => ∃ d, IsLast (Fits .function) ds d ∧ d.name = name
  | .declaredClass, name => ∃ d, IsLast (Fits (.classDecl true)) ds d ∧ d.name = name
  | .filename, name => ∃ path, filename = some path ∧
      Text.lowerAscii (stemOf path) ∉ ignoredStems ∧ name = pascalCase (stemOf path) ∧
        isIdentifier name = true
  | .fallback, name => isIdentifier (Text.trim fallback) = true ∧ name = Text.trim fallback ∨
      isIdentifier (Text.trim fallback) = false ∧ name = "App".toList

/-- The source that a declaration belongs to, if it belongs to one. -/
def sourceOf? (d : Declaration) : Option ComponentSource :=
  if d.name.head?.any isAsciiCapital then
    match d.kind with
    | .functionBinding => some .declaredConst
    | .function => some .declaredFunction
    | .classDecl true => some .declaredClass
    | .classDecl false | .binding => none
  else none

/-- The source that a default export belongs to, if it belongs to one. -/
def sourceOfExport? (e : Text) : Option ComponentSource :=
  if isIdentifier e then some .exportDefault else none

section

variable {ds moreDs : List Declaration} {es moreEs : List Text} {filename : Option Text}
  {fallback name : Text} {source : ComponentSource} {kind : DeclarationKind} {c : Component}

theorem lastOf?_eq_some_iff : lastOf? kind ds = some name ↔
    ∃ d, IsLast (Fits kind) ds d ∧ d.name = name := by
  rw [lastOf?, Option.map_eq_some_iff]
  refine exists_congr fun d => and_congr_left fun _ => ?_
  rw [find?_reverse_eq_some_iff]
  unfold Fits
  simp only [Bool.and_eq_true, beq_iff_eq]

/-- What a source offers, if anything. -/
def offer? (ds : List Declaration) (es : List Text) (filename : Option Text) (fallback : Text) :
    ComponentSource → Option Text
  | .exportDefault => lastIdentifier? es
  | .declaredConst => lastOf? .functionBinding ds
  | .declaredFunction => lastOf? .function ds
  | .declaredClass => lastOf? (.classDecl true) ds
  | .filename => filename.bind ofFilename?
  | .fallback => some (fallbackName fallback)

theorem offer?_eq_some_iff (source : ComponentSource) :
    offer? ds es filename fallback source = some name ↔
      Offers ds es filename fallback source name := by
  cases source with
  | exportDefault => exact find?_reverse_eq_some_iff
  | declaredConst | declaredFunction | declaredClass => exact lastOf?_eq_some_iff
  | filename =>
    rw [offer?, Option.bind_eq_some_iff]
    exact exists_congr fun path => and_congr_right fun _ => ofFilename?_eq_some_iff
  | fallback =>
    have hdefault : defaultName = "App".toList := rfl
    rw [offer?, Option.some_inj, fallbackName, hdefault, Offers]
    by_cases hname : isIdentifier (Text.trim fallback) = true
    · simp [hname, eq_comm]
    · simp [hname, eq_comm]

/-- The sources in the order in which they are asked. -/
def sources : List ComponentSource :=
  [.exportDefault, .declaredConst, .declaredFunction, .declaredClass, .filename, .fallback]

/-- What stands in front of a source are the sources that are asked earlier. -/
theorem mem_of_rank_lt {front back : List ComponentSource} {a b : ComponentSource}
    (h : sources = front ++ a :: back) (hrank : b.rank < a.rank) : b ∈ front := by
  have hsorted : sources.Pairwise (·.rank < ·.rank) := by decide
  have hall : ∀ b : ComponentSource, b ∈ sources := by intro b; cases b <;> decide
  have hb := hall b
  rw [h] at hb hsorted
  obtain hfront | hback := List.mem_append.mp hb
  · exact hfront
  · have hlater := (List.pairwise_append.mp hsorted).2.1
    obtain rfl | hback := List.mem_cons.mp hback
    · exact absurd hrank (Nat.lt_irrefl _)
    · have hlt := (List.pairwise_cons.mp hlater).1 b hback
      omega

theorem findSome?_sources (ds : List Declaration) (es : List Text) (filename : Option Text)
    (fallback : Text) : sources.findSome? (fun source =>
      (offer? ds es filename fallback source).map (Component.mk · source))
    = some (resolve ds es filename fallback) := by
  unfold resolve sources
  simp only [List.findSome?_cons, offer?]
  cases lastIdentifier? es <;> cases lastOf? .functionBinding ds <;> cases lastOf? .function ds <;>
    cases lastOf? (.classDecl true) ds <;> cases filename.bind ofFilename? <;> rfl

/-- The component is what the first source offers that offers something. -/
theorem offer?_resolve (ds : List Declaration) (es : List Text) (filename : Option Text)
    (fallback : Text) :
    offer? ds es filename fallback (resolve ds es filename fallback).source
        = some (resolve ds es filename fallback).name ∧
      ∀ source, source.rank < (resolve ds es filename fallback).source.rank →
        offer? ds es filename fallback source = none := by
  obtain ⟨front, source, back, hsources, hfound, hnone⟩ :=
    List.findSome?_eq_some_iff.mp (findSome?_sources ds es filename fallback)
  obtain ⟨name, hname, hresolve⟩ := Option.map_eq_some_iff.mp hfound
  rw [← hresolve]
  refine ⟨hname, fun earlier h => ?_⟩
  simpa using hnone earlier (mem_of_rank_lt hsources h)

theorem resolve_eq_iff : resolve ds es filename fallback = c ↔
    Offers ds es filename fallback c.source c.name ∧
      ∀ source, source.rank < c.source.rank →
        ∀ name, ¬Offers ds es filename fallback source name := by
  obtain ⟨hoffer, hearlier⟩ := offer?_resolve ds es filename fallback
  simp only [← offer?_eq_some_iff]
  constructor
  · rintro rfl
    exact ⟨hoffer, fun source h name => by rw [hearlier source h]; exact nofun⟩
  · rintro ⟨hc, hfirst⟩
    have hrank : (resolve ds es filename fallback).source.rank = c.source.rank := by
      refine Nat.le_antisymm (Nat.le_of_not_lt fun h => ?_) (Nat.le_of_not_lt fun h => ?_)
      · rw [hearlier _ h] at hc
        cases hc
      · exact hfirst _ h _ hoffer
    have hsource := ComponentSource.rank_inj hrank
    rw [hsource, hc, Option.some_inj] at hoffer
    calc resolve ds es filename fallback
        = ⟨(resolve ds es filename fallback).name, (resolve ds es filename fallback).source⟩ := rfl
      _ = ⟨c.name, c.source⟩ := by rw [hsource, hoffer]
      _ = c := rfl

/-! ### What is put in front -/

theorem sourceOf?_of_const {d : Declaration} (h : Fits .functionBinding d) :
    sourceOf? d = some .declaredConst := by
  rw [sourceOf?, if_pos h.2, h.1]

theorem sourceOf?_of_function {d : Declaration} (h : Fits .function d) :
    sourceOf? d = some .declaredFunction := by
  rw [sourceOf?, if_pos h.2, h.1]

theorem sourceOf?_of_class {d : Declaration} (h : Fits (.classDecl true) d) :
    sourceOf? d = some .declaredClass := by
  rw [sourceOf?, if_pos h.2, h.1]

/-- Whatever stands in front of the lists, a source offers what it offered. -/
theorem Offers.append_left (moreDs : List Declaration) (moreEs : List Text)
    (h : Offers ds es filename fallback source name) :
    Offers (moreDs ++ ds) (moreEs ++ es) filename fallback source name := by
  cases source with
  | exportDefault =>
    have hlast : IsLast (isIdentifier · = true) es name := h
    exact hlast.append_left moreEs
  | declaredConst | declaredFunction | declaredClass =>
    obtain ⟨d, hlast, hname⟩ := h
    exact ⟨d, hlast.append_left moreDs, hname⟩
  | filename => exact h
  | fallback => exact h

/-- A source offers nothing new unless something that belongs to it stands in front. -/
theorem Offers.of_append (h : Offers (moreDs ++ ds) (moreEs ++ es) filename fallback source name)
    (hds : ∀ d ∈ moreDs, sourceOf? d ≠ some source)
    (hes : ∀ e ∈ moreEs, sourceOfExport? e ≠ some source) :
    Offers ds es filename fallback source name := by
  have hdeclared : ∀ {kind}, (∀ d, Fits kind d → sourceOf? d = some source) →
      (∃ d, IsLast (Fits kind) (moreDs ++ ds) d ∧ d.name = name) →
      ∃ d, IsLast (Fits kind) ds d ∧ d.name = name := by
    rintro kind hkind ⟨d, hlast, hname⟩
    obtain hmore | hds' := hlast.of_append
    · exact absurd (hkind d hlast.holds) (hds d hmore)
    · exact ⟨d, hds', hname⟩
  cases source with
  | exportDefault =>
    have hlast : IsLast (isIdentifier · = true) (moreEs ++ es) name := h
    obtain hmore | hes' := hlast.of_append
    · exact absurd (if_pos hlast.holds) (hes name hmore)
    · exact hes'
  | declaredConst => exact hdeclared (fun _ => sourceOf?_of_const) h
  | declaredFunction => exact hdeclared (fun _ => sourceOf?_of_function) h
  | declaredClass => exact hdeclared (fun _ => sourceOf?_of_class) h
  | filename => exact h
  | fallback => exact h

theorem resolve_append
    (hds : ∀ d ∈ moreDs, ∀ source ∈ sourceOf? d,
      (resolve ds es filename fallback).source.rank ≤ source.rank)
    (hes : ∀ e ∈ moreEs, ∀ source ∈ sourceOfExport? e,
      (resolve ds es filename fallback).source.rank ≤ source.rank) :
    resolve (moreDs ++ ds) (moreEs ++ es) filename fallback = resolve ds es filename fallback := by
  obtain ⟨hoffer, hearlier⟩ := resolve_eq_iff.mp (rfl : resolve ds es filename fallback = _)
  refine resolve_eq_iff.mpr ⟨hoffer.append_left moreDs moreEs, fun source h name hmore => ?_⟩
  refine hearlier source h name (hmore.of_append (fun d hd hsource => ?_) fun e he hsource => ?_)
  · exact absurd h (Nat.not_lt.mpr (hds d hd source hsource))
  · exact absurd h (Nat.not_lt.mpr (hes e he source hsource))

/-! ### Names that come out -/

theorem isIdentifier_resolve (h : ∀ d ∈ ds, isIdentifier d.name = true) :
    isIdentifier (resolve ds es filename fallback).name = true := by
  by_contra hname
  obtain ⟨-, hdeclared, -⟩ :=
    (unidentified_resolve_iff ds es filename fallback _).mp ⟨by simpa using hname, rfl⟩
  obtain ⟨d, hd, hd', -⟩ := declared?_spec hdeclared
  rw [← hd', h d hd] at hname
  exact hname rfl

theorem name_resolve_ne_nil (ds : List Declaration) (es : List Text) (filename : Option Text)
    (fallback : Text) : (resolve ds es filename fallback).name ≠ [] := by
  intro hempty
  have hnil : isIdentifier [] = false := rfl
  obtain ⟨-, hdeclared, -⟩ :=
    (unidentified_resolve_iff ds es filename fallback []).mp ⟨by rw [hempty, hnil], hempty⟩
  obtain ⟨-, -, -, hcapital⟩ := declared?_spec hdeclared
  cases hcapital

/-- **The component has the name that the first source offers, and its source is that one.**
Default exports and declarations of a kind offer the last one that fits; so putting in front of the
lists what belongs to no earlier source changes nothing.  The name is never empty, and an identifier
if all declared names are. -/
theorem resolve_tiers (ds : List Declaration) (es : List Text) (filename : Option Text)
    (fallback : Text) :
    (∀ c, resolve ds es filename fallback = c ↔
      Offers ds es filename fallback c.source c.name ∧
        ∀ source, source.rank < c.source.rank →
          ∀ name, ¬Offers ds es filename fallback source name) ∧
    (resolve ds es filename fallback).name ≠ [] ∧
    ((∀ d ∈ ds, isIdentifier d.name = true) →
      isIdentifier (resolve ds es filename fallback).name = true) ∧
    ∀ moreDs moreEs,
      (∀ d ∈ moreDs, ∀ source ∈ sourceOf? d,
        (resolve ds es filename fallback).source.rank ≤ source.rank) →
      (∀ e ∈ moreEs, ∀ source ∈ sourceOfExport? e,
        (resolve ds es filename fallback).source.rank ≤ source.rank) →
      resolve (moreDs ++ ds) (moreEs ++ es) filename fallback
        = resolve ds es filename fallback :=
  ⟨fun _ => resolve_eq_iff, name_resolve_ne_nil ds es filename fallback, isIdentifier_resolve,
    fun _ _ => resolve_append⟩

/-- Functions and default exports that are no identifiers do not come before a function binding. -/
theorem resolve_tiers_binding :
    let ds : List Declaration := [⟨"Row".toList, .functionBinding⟩, ⟨"App".toList, .binding⟩]
    resolve ([⟨"Page".toList, .function⟩] ++ ds) (["not one".toList] ++ []) none "Main".toList
        = ⟨"Row".toList, .declaredConst⟩ ∧
      isIdentifier (resolve ds [] none "Main".toList).name = true := by
  intro ds
  have hresolve : resolve ds [] none "Main".toList = ⟨"Row".toList, .declaredConst⟩ := by decide
  obtain ⟨-, -, hidentifier, hmore⟩ := resolve_tiers ds [] none "Main".toList
  rw [hresolve] at hmore
  exact ⟨hmore _ _ (by decide) (by decide), hidentifier (by decide)⟩

end

end Component

end LivePreview
