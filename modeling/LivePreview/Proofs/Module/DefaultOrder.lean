/-
The order of default exports, and the component that is mounted for it.

The names of default exports are collected form by form, so they stand in the order of the
statements only as far as the forms do: names in lists come first and those of values last,
wherever they stand in the code.  The last of them is mounted.  Of files put together this is
the default export of the last file among those whose form is collected last, which need not be
the root file.
-/
import LivePreview.Component
import LivePreview.Proofs.Module.MergedCode

namespace LivePreview.Module

open Script

/-! ### The order of the names -/

/-- All forms, in the order of their passes. -/
def forms : List Form := [.list, .assignment, .declaration, .value]

/-- Default exports sorted by form; those of one form stay in their order. -/
def byForm (ds : List DefaultExport) : List DefaultExport := forms.flatMap (ofForm · ds)

/-- True if the forms come in the order of their passes. -/
def InFormOrder (ds : List DefaultExport) : Prop :=
  ds.Pairwise fun d e => d.form.stage ≤ e.form.stage

instance : DecidablePred InFormOrder := fun ds =>
  inferInstanceAs (Decidable (ds.Pairwise fun d e => d.form.stage ≤ e.form.stage))

theorem byForm_eq (ds : List DefaultExport) :
    byForm ds = ofForm .list ds ++ (ofForm .assignment ds ++ (ofForm .declaration ds ++
      ofForm .value ds)) := by
  simp [byForm, forms]

/-- The passes that names come from, each over what the ones before it left. -/
theorem defaultExports_eq (s : Text) :
    let imported := (remove importSource? (remove importFrom? (remove importRequire? s).1).1).1
    let listed := (remove exportStar? (remove exportList? imported).1).1
    let assigned := (remove exportAssign? listed).1
    (strip s).defaultExports = (remove exportList? imported).2.flatten ++
      (remove exportAssign? listed).2 ++ (declare 0 assigned).names ++
      express (missing assigned) (declare 0 assigned).code := by
  simp only [strip, declare, missing, express, Text.findings]

/-- The names are those of the default exports sorted by form, numbered in that order where there
is none. -/
theorem defaultExports_text (c : Code) :
    (strip c.text).defaultExports = named 0 (byForm c.defaultExports) := by
  have hrequire : (remove importRequire? c.text).1 = (c.unread 1).text := by
    have hread := reads_importRequire.remove_unread c
    rwa [Code.unread_zero] at hread
  obtain ⟨hlisted, hnolisted⟩ := listed_names c 0
  obtain ⟨hassigned, hnoassigned⟩ := assigned_names c 0
  obtain ⟨hlater, hvalues, hdeclare, hmissing⟩ :=
    declare_text (c.unread 6) Code.le_stage_of_mem_unread 0
  rw [Code.ofForm_unread (Nat.le_refl 6)] at hdeclare hmissing
  rw [Code.ofForm_unread (Nat.le_succ 6)] at hvalues
  have hexpress := express_text _ hlater (unnamed (ofForm .declaration c.defaultExports))
  rw [defaultExports_eq, hrequire, reads_importFrom.remove_unread,
    reads_importSource.remove_unread, hlisted, reads_exportList.remove_unread,
    reads_exportStar.remove_unread, hassigned, reads_exportAssign.remove_unread, hdeclare, hmissing,
    hexpress, hvalues, byForm_eq, named_append, named_append, named_append, hnolisted, hnoassigned]
  simp only [Nat.zero_add, List.append_assoc]

/-! ### Sorting by form -/

theorem mem_ofForm {f : Form} {ds : List DefaultExport} {d : DefaultExport} :
    d ∈ ofForm f ds ↔ d ∈ ds ∧ d.form = f := by
  rw [ofForm, List.mem_filter, beq_iff_eq]

theorem exists_forms_split (f : Form) :
    ∃ fs gs, forms = fs ++ f :: gs ∧ (∀ g ∈ fs, g.stage < f.stage) ∧ ∀ g ∈ gs, f.stage < g.stage := by
  cases f with
  | list => exact ⟨[], [.assignment, .declaration, .value], rfl, by decide, by decide⟩
  | assignment => exact ⟨[.list], [.declaration, .value], rfl, by decide, by decide⟩
  | declaration => exact ⟨[.list, .assignment], [.value], rfl, by decide, by decide⟩
  | value => exact ⟨[.list, .assignment, .declaration], [], rfl, by decide, by decide⟩

theorem ofForm_cons_of_ne {f : Form} {d : DefaultExport} (h : d.form.stage ≠ f.stage)
    (ds : List DefaultExport) : ofForm f (d :: ds) = ofForm f ds := by
  refine List.filter_cons_of_neg fun hform => h ?_
  rw [eq_of_beq hform]

/-- One more default export in front comes behind those of the forms before its own. -/
theorem exists_byForm_cons (d : DefaultExport) (ds : List DefaultExport) :
    ∃ xs ys, byForm ds = xs ++ ys ∧ byForm (d :: ds) = xs ++ d :: ys ∧
      (∀ x ∈ xs, x ∈ ds ∧ x.form.stage < d.form.stage) ∧
      ∀ y ∈ ys, y ∈ ds ∧ d.form.stage ≤ y.form.stage := by
  obtain ⟨fs, gs, hforms, hfs, hgs⟩ := exists_forms_split d.form
  have hfront : fs.flatMap (ofForm · (d :: ds)) = fs.flatMap (ofForm · ds) :=
    List.flatMap_congr fun f hf => ofForm_cons_of_ne (Nat.ne_of_gt (hfs f hf)) ds
  have hback : gs.flatMap (ofForm · (d :: ds)) = gs.flatMap (ofForm · ds) :=
    List.flatMap_congr fun g hg => ofForm_cons_of_ne (Nat.ne_of_lt (hgs g hg)) ds
  have hown : ofForm d.form (d :: ds) = d :: ofForm d.form ds :=
    List.filter_cons_of_pos (beq_self_eq_true d.form)
  refine ⟨fs.flatMap (ofForm · ds), ofForm d.form ds ++ gs.flatMap (ofForm · ds), ?_, ?_, ?_, ?_⟩
  · rw [byForm, hforms, List.flatMap_append, List.flatMap_cons]
  · rw [byForm, hforms, List.flatMap_append, List.flatMap_cons, hfront, hback, hown]
    rfl
  · intro x hx
    obtain ⟨f, hf, hx⟩ := List.mem_flatMap.mp hx
    obtain ⟨hmem, rfl⟩ := mem_ofForm.mp hx
    exact ⟨hmem, hfs _ hf⟩
  · intro y hy
    rcases List.mem_append.mp hy with hy | hy
    · obtain ⟨hmem, hform⟩ := mem_ofForm.mp hy
      exact ⟨hmem, by rw [hform]⟩
    · obtain ⟨g, hg, hy⟩ := List.mem_flatMap.mp hy
      obtain ⟨hmem, rfl⟩ := mem_ofForm.mp hy
      exact ⟨hmem, Nat.le_of_lt (hgs _ hg)⟩

/-- No default export is lost, and none is listed twice. -/
theorem byForm_perm (ds : List DefaultExport) : (byForm ds).Perm ds := by
  induction ds with
  | nil => exact List.Perm.nil
  | cons d ds ih =>
    obtain ⟨xs, ys, hds, hcons, -, -⟩ := exists_byForm_cons d ds
    rw [hcons]
    rw [hds] at ih
    exact List.perm_middle.trans (ih.cons d)

theorem inFormOrder_byForm (ds : List DefaultExport) : InFormOrder (byForm ds) := by
  induction ds with
  | nil => exact List.Pairwise.nil
  | cons d ds ih =>
    obtain ⟨xs, ys, hds, hcons, hxs, hys⟩ := exists_byForm_cons d ds
    rw [InFormOrder, hds] at ih
    obtain ⟨hfront, hback, hacross⟩ := List.pairwise_append.mp ih
    rw [InFormOrder, hcons]
    refine List.pairwise_append.mpr
      ⟨hfront, List.pairwise_cons.mpr ⟨fun y hy => (hys y hy).2, hback⟩, ?_⟩
    intro x hx y hy
    rcases List.mem_cons.mp hy with rfl | hy
    · exact Nat.le_of_lt (hxs x hx).2
    · exact hacross x hx y hy

/-- The order stays where the forms come in the order in which they are collected. -/
theorem byForm_of_inFormOrder {ds : List DefaultExport} (h : InFormOrder ds) :
    byForm ds = ds := by
  induction ds with
  | nil => rfl
  | cons d ds ih =>
    obtain ⟨hd, hds⟩ := List.pairwise_cons.mp h
    obtain ⟨xs, ys, hsplit, hcons, hxs, -⟩ := exists_byForm_cons d ds
    have hnil : xs = [] := by
      refine List.eq_nil_iff_forall_not_mem.mpr fun x hx => ?_
      obtain ⟨hmem, hlt⟩ := hxs x hx
      exact absurd (hd x hmem) (Nat.not_le.mpr hlt)
    rw [hcons, hnil, List.nil_append, ← ih hds, hsplit, hnil, List.nil_append]

/-- The last default export of the form that is collected last comes last. -/
theorem exists_byForm_append (before : List DefaultExport) (d : DefaultExport)
    (after : List DefaultExport) (hbefore : ∀ x ∈ before, x.form.stage ≤ d.form.stage)
    (hafter : ∀ x ∈ after, x.form.stage < d.form.stage) :
    ∃ front, byForm (before ++ d :: after) = front ++ [d] := by
  induction before with
  | nil =>
    obtain ⟨xs, ys, -, hcons, -, hys⟩ := exists_byForm_cons d after
    have hnil : ys = [] := by
      refine List.eq_nil_iff_forall_not_mem.mpr fun y hy => ?_
      obtain ⟨hmem, hle⟩ := hys y hy
      exact absurd (hafter y hmem) (Nat.not_lt.mpr hle)
    rw [hnil] at hcons
    exact ⟨xs, hcons⟩
  | cons b before ih =>
    obtain ⟨front, hfront⟩ := ih fun x hx => hbefore x (List.mem_cons_of_mem b hx)
    obtain ⟨xs, ys, hsplit, hcons, hxs, -⟩ := exists_byForm_cons b (before ++ d :: after)
    rw [hfront] at hsplit
    -- `b` can only come last if its form is collected behind that of `d`
    rcases List.eq_nil_or_concat ys with rfl | ⟨zs, z, rfl⟩
    · have hmem : d ∈ xs := by
        rw [List.append_nil] at hsplit
        rw [← hsplit]
        exact List.mem_append_right front List.mem_cons_self
      exact absurd (hbefore b List.mem_cons_self) (Nat.not_le.mpr (hxs d hmem).2)
    · have hlast : d = z := by
        rw [List.concat_eq_append, ← List.append_assoc] at hsplit
        exact (List.append_singleton_inj.mp hsplit).2
      refine ⟨xs ++ b :: zs, ?_⟩
      rw [List.cons_append, hcons, hlast]
      simp

theorem length_named (count : Nat) (ds : List DefaultExport) :
    (named count ds).length = ds.length := by
  induction ds generalizing count with
  | nil => rfl
  | cons d ds ih =>
    obtain ⟨form, name⟩ := d
    cases name with
    | none => exact congrArg Nat.succ (ih (count + 1))
    | some name => exact congrArg Nat.succ (ih count)

theorem map_some_named (count : Nat) {ds : List DefaultExport}
    (h : ∀ d ∈ ds, d.name? ≠ none) : (named count ds).map some = ds.map DefaultExport.name? := by
  induction ds generalizing count with
  | nil => rfl
  | cons d ds ih =>
    obtain ⟨hd, hds⟩ := List.forall_mem_cons.mp h
    obtain ⟨form, name⟩ := d
    cases name with
    | none => exact absurd rfl hd
    | some name => exact congrArg (some name :: ·) (ih count hds)

/-- Different names can only stand in the order of the code if the forms do. -/
theorem inFormOrder_of_named_eq {ds : List DefaultExport} (hall : ∀ d ∈ ds, d.name? ≠ none)
    (hnodup : (named 0 ds).Nodup) (h : named 0 (byForm ds) = named 0 ds) : InFormOrder ds := by
  have hperm := byForm_perm ds
  have hall' : ∀ d ∈ byForm ds, d.name? ≠ none := fun d hd => hall d (hperm.mem_iff.mp hd)
  have hmap : (byForm ds).map DefaultExport.name? = ds.map DefaultExport.name? := by
    rw [← map_some_named 0 hall', ← map_some_named 0 hall, h]
  have hnames : (ds.map DefaultExport.name?).Nodup := by
    rw [← map_some_named 0 hall]
    exact hnodup.map (Option.some_injective _)
  have hsame : byForm ds = ds := by
    refine List.ext_getElem hperm.length_eq fun i hi hi' => ?_
    have hname : (byForm ds)[i].name? = ds[i].name? := by
      simpa [hi, hi'] using congrArg (·[i]?) hmap
    exact List.inj_on_of_nodup_map hnames (hperm.mem_iff.mp (List.getElem_mem hi))
      (List.getElem_mem hi') hname
  rw [← hsame]
  exact inFormOrder_byForm ds

/-! ### The component that is mounted -/

/-- The name of a default export, where `count` without one came before. -/
def DefaultExport.nameBehind (count : Nat) (d : DefaultExport) : Text :=
  d.name?.getD (anonymousName (count + 1))

theorem named_singleton (count : Nat) (d : DefaultExport) :
    named count [d] = [d.nameBehind count] := by
  obtain ⟨form, name⟩ := d
  cases name <;> rfl

theorem lastIdentifier?_append (names : List Text) {name : Text} (h : isIdentifier name = true) :
    Component.lastIdentifier? (names ++ [name]) = some name := by
  simp [Component.lastIdentifier?, h]

theorem resolve_of_lastIdentifier? {names : List Text} {name : Text}
    (h : Component.lastIdentifier? names = some name) (declarations : List Declaration)
    (filename : Option Text) (fallback : Text) :
    Component.resolve declarations names filename fallback = ⟨name, .exportDefault⟩ := by
  simp [Component.resolve, h]

section

variable {before after : List DefaultExport} {d : DefaultExport}
variable (hbefore : ∀ x ∈ before, x.form.stage ≤ d.form.stage)
variable (hafter : ∀ x ∈ after, x.form.stage < d.form.stage)

include hbefore hafter

/-- The last default export of the form that is collected last has the last name. -/
theorem exists_named_byForm : ∃ names,
    named 0 (byForm (before ++ d :: after)) = names ++ [d.nameBehind (unnamed (before ++ after))] := by
  obtain ⟨front, hfront⟩ := exists_byForm_append before d after hbefore hafter
  have hperm : (d :: front).Perm (d :: (before ++ after)) := by
    have hsorted := byForm_perm (before ++ d :: after)
    rw [hfront] at hsorted
    exact (List.perm_append_singleton d front).symm.trans (hsorted.trans List.perm_middle)
  have hcount : unnamed front = unnamed (before ++ after) := hperm.cons_inv.countP_eq _
  refine ⟨named 0 front, ?_⟩
  rw [hfront, named_append, named_singleton, Nat.zero_add, hcount]

/-- Of the default exports of code, the last one of the form that is collected last is
mounted. -/
theorem resolve_text {c : Code} (hc : c.defaultExports = before ++ d :: after)
    (hname : isIdentifier (d.nameBehind (unnamed (before ++ after))) = true)
    (declarations : List Declaration) (filename : Option Text) (fallback : Text) :
    Component.resolve declarations (strip c.text).defaultExports filename fallback
      = ⟨d.nameBehind (unnamed (before ++ after)), .exportDefault⟩ := by
  obtain ⟨names, hnames⟩ := exists_named_byForm hbefore hafter
  refine resolve_of_lastIdentifier? ?_ declarations filename fallback
  rw [defaultExports_text, hc, hnames]
  exact lastIdentifier?_append names hname

end

/-- **Default exports are collected form by form.**  Each yields one name.  Lists come first, then
assignments, then functions and classes, and values last; where the forms stand in this order the
names have the order of the code, and different names have it nowhere else.  Of files with one
default export each, the one is mounted that is last among those of the form that is collected
last. -/
theorem defaultExports_by_form (c : Code) :
    (strip c.text).defaultExports = named 0 (byForm c.defaultExports) ∧
    (strip c.text).defaultExports.length = c.defaultExports.length ∧
    (InFormOrder c.defaultExports → (strip c.text).defaultExports = named 0 c.defaultExports) ∧
    ((∀ d ∈ c.defaultExports, d.name? ≠ none) → (named 0 c.defaultExports).Nodup →
      (strip c.text).defaultExports = named 0 c.defaultExports → InFormOrder c.defaultExports) ∧
    ∀ (answer : Text) (before : List CodeFile) (f : CodeFile) (after : List CodeFile)
      (d : DefaultExport) (count : Nat) (declarations : List Declaration) (filename : Option Text)
      (fallback : Text),
      c = CodeFile.merged (before ++ f :: after) →
      SourceFile.retained answer = (before ++ f :: after).map CodeFile.file →
      f.code.defaultExports = [d] →
      (∀ g ∈ before, ∀ x ∈ g.code.defaultExports, x.form.stage ≤ d.form.stage) →
      (∀ g ∈ after, ∀ x ∈ g.code.defaultExports, x.form.stage < d.form.stage) →
      count = unnamed ((before ++ after).flatMap fun g => g.code.defaultExports) →
      isIdentifier (d.nameBehind count) = true →
      (SourceFile.merge answer true).code = c.text ∧
      Component.resolve declarations (strip c.text).defaultExports filename fallback
        = ⟨d.nameBehind count, .exportDefault⟩ := by
  have hnames := defaultExports_text c
  refine ⟨hnames, ?_, ?_, ?_, ?_⟩
  · rw [hnames, length_named, (byForm_perm c.defaultExports).length_eq]
  · intro horder
    rw [hnames, byForm_of_inFormOrder horder]
  · intro hall hnodup hsource
    rw [hnames] at hsource
    exact inFormOrder_of_named_eq hall hnodup hsource
  · rintro answer before f after d count declarations filename fallback rfl hretained hd hbefore
      hafter rfl hname
    have hmerged : (CodeFile.merged (before ++ f :: after)).defaultExports
        = before.flatMap (fun g => g.code.defaultExports)
          ++ d :: after.flatMap (fun g => g.code.defaultExports) := by
      rw [CodeFile.defaultExports_merged, List.flatMap_append, List.flatMap_cons, hd]
      rfl
    rw [List.flatMap_append] at hname ⊢
    refine ⟨SourceFile.code_merge (by simp) hretained,
      resolve_text ?_ ?_ hmerged hname declarations filename fallback⟩
    · intro x hx
      obtain ⟨g, hg, hx⟩ := List.mem_flatMap.mp hx
      exact hbefore g hg x hx
    · intro x hx
      obtain ⟨g, hg, hx⟩ := List.mem_flatMap.mp hx
      exact hafter g hg x hx

/-- A file with a value as its default export. -/
def cardFile : CodeFile where
  file := ⟨"Card.tsx".toList, "const Card = 1;\nexport default Card;\n\n".toList⟩
  code :=
    { closed := [.plain ⟨"const Card = 1;".toList, by decide, by decide⟩]
      last := some (.defaultValue
        { text := "Card;".toList
          starts := by decide
          avoids := by decide
          notDeclaration := by
            intro e he
            cases he <;> rfl }) }
  oneLine := by decide
  content := by decide

/-- A root file with its default export in a list. -/
def rootFile : CodeFile where
  file :=
    ⟨"App.tsx".toList, "function App() \x7b\x7d\nexport \x7b App as default \x7d;\n".toList⟩
  code :=
    { closed := [.plain ⟨"function App() \x7b\x7d".toList, by decide, by decide⟩]
      last := some (.exportList [.default ⟨"App".toList, by decide⟩] none true) }
  oneLine := by decide
  content := by decide

/-- An answer of the two files, the root file last. -/
def rootLast : Text :=
  ("// Card.tsx\nconst Card = 1;\nexport default Card;\n\n// App.tsx\n" ++
    "function App() \x7b\x7d\nexport \x7b App as default \x7d;\n").toList

/-- The root file comes last and its default export is not mounted; with the files in the other
order, the names have the order of the code. -/
theorem value_mounted_before_root_list :
    SourceFile.retained rootLast = [cardFile.file, rootFile.file] ∧
    (SourceFile.merge rootLast true).code = (CodeFile.merged [cardFile, rootFile]).text ∧
    Component.resolve [] (strip (CodeFile.merged [cardFile, rootFile]).text).defaultExports none []
      = ⟨"Card".toList, .exportDefault⟩ ∧
    (strip (CodeFile.merged [rootFile, cardFile]).text).defaultExports
      = ["App".toList, "Card".toList] ∧
    InFormOrder (CodeFile.merged [rootFile, cardFile]).defaultExports := by
  have hretained : SourceFile.retained rootLast = [cardFile.file, rootFile.file] := by
    decide +kernel
  have hmounted := (defaultExports_by_form (CodeFile.merged [cardFile, rootFile])).2.2.2.2 rootLast
    [] cardFile [rootFile] ⟨.value, some "Card".toList⟩ 0 [] none [] rfl hretained (by decide)
    (by simp) (by decide) (by decide) (by decide)
  obtain ⟨-, -, hsource, horder, -⟩ :=
    defaultExports_by_form (CodeFile.merged [rootFile, cardFile])
  have hnames := hsource (by decide)
  refine ⟨hretained, hmounted.1, hmounted.2, ?_, horder (by decide) (by decide) hnames⟩
  rw [hnames]
  decide

/-- The list is collected first, though it stands behind the value. -/
example : (strip "export default A;\nexport \x7b B as default \x7d;\n".toList).defaultExports
    = ["B".toList, "A".toList] := by
  decide +kernel

end LivePreview.Module
