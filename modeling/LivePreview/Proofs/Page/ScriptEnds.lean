/-
How many script elements a page has.

Each row of a page is fixed but for some texts that are written into it, and each of these meets
what is in front of it and what is behind it in characters that stand in no end of a script element.
So the ends in a page are those of its fixed rows, one for each element, and those of the texts.
Texts with entities and code have none.  But a JSON string has those of its text, and a name that
the prelude binds is written as it is: the name of the root element, and names of imports, can end a
script.
-/
import LivePreview.Page.Build
import LivePreview.Proofs.Bundled
import LivePreview.Proofs.Page.Closings
import LivePreview.Proofs.Page.RunId
import LivePreview.Proofs.Script.Word
import LivePreview.Proofs.Text.Lines

namespace LivePreview

open Page Script

/-! ### Preludes -/

/-- The texts of a field of a prelude. -/
def Prelude.fieldTexts (field : Text × Text) : List Text :=
  if field.1 = field.2 then [field.2] else [field.1, field.2]

/-- The texts that are written for a constant. -/
def Constant.texts : Constant → List Text
  | react n => [n]
  | member n global part => [n, global, part]
  | stub n => [n, n]
  | stubModule n => [n, n]

/-- The texts that are written for a prelude. -/
def Prelude.texts (p : Prelude) : List Text :=
  p.fields.flatMap fieldTexts ++ p.constants.flatMap Constant.texts

theorem Prelude.closings_fieldText (field : Text × Text) :
    closings (fieldText field) = ((fieldTexts field).map closings).sum := by
  unfold fieldText fieldTexts
  by_cases heq : field.1 = field.2
  · rw [if_pos heq, if_pos heq]
    simp
  · rw [if_neg heq, if_neg heq, List.append_assoc, closings_joint (by decide)]
    simp

theorem Constant.closings_value [Platform] [Platform.WritesStrings] (c : Constant) :
    c.name :: (c.texts.tail) = c.texts ∧ closings c.value = (c.texts.tail.map closings).sum := by
  cases c with
  | react n =>
    refine ⟨rfl, ?_⟩
    show closings "React".toList = 0
    decide
  | member n global part =>
    refine ⟨rfl, ?_⟩
    show closings ("__previewImport(".toList ++ Platform.jsonString global ++ ", ".toList ++
      Platform.jsonString part ++ [')']) = _
    rw [closings_append_joint (by decide), List.append_assoc, closings_joint (by decide),
      closings_append_right (by decide), closings_jsonString, closings_jsonString]
    simp [texts]
  | stub n =>
    refine ⟨rfl, ?_⟩
    show closings ("__previewStub(".toList ++ Platform.jsonString n ++ [')']) = _
    rw [closings_append_joint (by decide), closings_append_right (by decide), closings_jsonString]
    simp [texts]
  | stubModule n =>
    refine ⟨rfl, ?_⟩
    show closings ("__previewStubModule(".toList ++ Platform.jsonString n ++ [')']) = _
    rw [closings_append_joint (by decide), closings_append_right (by decide), closings_jsonString]
    simp [texts]

theorem Constant.closings_statement [Platform] [Platform.WritesStrings] (c : Constant) :
    closings c.statement = (c.texts.map closings).sum := by
  obtain ⟨htexts, hvalue⟩ := c.closings_value
  have hsplit : c.statement
      = "const ".toList ++ (c.name ++ (" = ".toList ++ (c.value ++ [';']))) := by
    unfold statement
    simp only [List.append_assoc]
  rw [hsplit, closings_append_right (by decide), closings_joint (s := " = ".toList) (by decide),
    closings_append_joint (s := [';']) (by decide), hvalue, ← htexts, List.map_cons, List.sum_cons,
    List.tail_cons]

theorem Prelude.closings_fieldsStatement (p : Prelude) :
    closings p.fieldsStatement = ((p.fields.flatMap fieldTexts).map closings).sum := by
  have hsplit : p.fieldsStatement = "const \x7b ".toList ++
      (Text.join ", ".toList (p.fields.map fieldText) ++ " \x7d = React;".toList) := by
    unfold fieldsStatement
    simp only [List.append_assoc]
  rw [hsplit, closings_append_right (by decide),
    closings_append_joint (s := " \x7d = React;".toList) (by decide), closings_join (by decide),
    sum_closings_map closings_fieldText]

/-- **A prelude has the ends of the texts that are written into it.** -/
theorem Prelude.closings_render [Platform] [Platform.WritesStrings] (p : Prelude) :
    closings p.render = (p.texts.map closings).sum := by
  have hconstants := sum_closings_map Constant.closings_statement p.constants
  unfold render texts
  dsimp only
  rw [closings_join (by decide), List.map_append, List.sum_append, hconstants, List.map_append,
    List.sum_append]
  by_cases hempty : p.fields.isEmpty = true
  · rw [if_pos hempty, List.isEmpty_iff.mp hempty]
    rfl
  · rw [if_neg hempty, List.map_singleton, List.sum_singleton, p.closings_fieldsStatement]

/-! ### Fixed texts

The characters of a literal are read off by matching it with `String.ofList`; to compute them from
its bytes would take long. -/

namespace Page

set_option maxRecDepth 2000

theorem lt_notMem_ofList {l : Text} (h : (l.all (· != '<')) = true) :
    '<' ∉ (String.ofList l).toList := by
  rw [String.toList_ofList]
  exact fun hmem => absurd (List.all_eq_true.mp h _ hmem) (by decide)

theorem lt_notMem_broken {s t : String} (hs : '<' ∉ s.toList) (ht : '<' ∉ t.toList) :
    '<' ∉ (s ++ t).toList := by
  rw [String.toList_append, List.mem_append, not_or]
  exact ⟨hs, ht⟩

theorem closings_ofList {l : Text} {n : Nat} (h : closings l = n) :
    closings (String.ofList l).toList = n := by
  rw [String.toList_ofList, h]

/-- True of rows none of which has a `<`. -/
def Plain (strings : List String) : Prop := ∀ s ∈ strings, '<' ∉ s.toList

theorem plain_nil : Plain [] := List.forall_mem_nil _

theorem plain_cons {s : String} {strings : List String} (hs : '<' ∉ s.toList)
    (h : Plain strings) : Plain (s :: strings) :=
  List.forall_mem_cons.mpr ⟨hs, h⟩

theorem sum_closings_rows {strings : List String} (h : Plain strings) :
    ((rows strings).map closings).sum = 0 := by
  refine sum_closings_eq_zero ?_
  intro row hrow
  obtain ⟨s, hs, rfl⟩ := List.mem_map.mp hrow
  exact h s hs

/-! ### Rows -/

theorem lt_notMem_attributeText {name : String} (h : '<' ∉ name.toList) (value : Text) :
    '<' ∉ attributeText name value := by
  unfold attributeText
  simp only [List.cons_append, List.mem_cons, List.mem_append, not_or]
  exact ⟨by decide, ⟨⟨h, by decide⟩, lt_notMem_escapeText value⟩, by decide⟩

theorem lt_notMem_runIdOf [Platform] [Platform.WritesDigests] (token : Nat) (code : Text) :
    '<' ∉ runIdOf token code := by
  have hmark : '<' ∉ codeMark code := by
    intro hmem
    exact absurd (Platform.WritesDigests.digits (List.mem_of_mem_take hmem)) (by decide)
  have htoken : '<' ∉ Text.ofNat token := by
    intro hmem
    exact absurd (Text.isDigit_of_mem_ofNat hmem) (by decide)
  rw [runIdOf, List.mem_append, List.mem_cons, not_or, not_or]
  exact ⟨htoken, by decide, hmark⟩

/-- Rows around one other. -/
theorem sum_closings_around {before behind : List String} {rows' : List Text}
    (hbefore : Plain before) (hbehind : Plain behind) :
    ((rows before ++ rows' ++ rows behind).map closings).sum = (rows'.map closings).sum := by
  rw [List.map_append, List.map_append, List.sum_append, List.sum_append, sum_closings_rows hbefore,
    sum_closings_rows hbehind, Nat.zero_add, Nat.add_zero]

theorem closings_settings [Platform] [Platform.WritesStrings] (run : Text) (stubs : Bool) :
    ((settings run stubs).map closings).sum = closings run := by
  have hrun : closings ("  window.__PREVIEW_RUN_ID__ = ".toList ++ Platform.jsonString run ++ [';'])
      = closings run := by
    rw [closings_append_joint (s := [';']) (by decide),
      closings_append_right (lt_notMem_ofList (by decide)), closings_jsonString]
  have hstubs : closings ("  var __PREVIEW_STUBS__ = ".toList ++ (toString stubs).toList ++ [';'])
      = 0 := by
    rw [closings_append_joint (s := [';']) (by decide),
      closings_append_right (lt_notMem_ofList (by decide))]
    cases stubs <;> decide
  have hfailed : closings "  var __previewFailed = false;".toList = 0 := closings_ofList (by decide)
  unfold settings
  simp only [List.map_cons, List.map_nil, List.sum_cons, List.sum_nil, hrun, hstubs, hfailed,
    Nat.add_zero]

theorem closings_report [Platform] [Platform.WritesStrings] :
    closings ("      window.parent.postMessage(\x7b source: ".toList ++
      Platform.jsonString messageSource ++
      (", type: \"error\", runId: window.__PREVIEW_RUN_ID__, message: message, " ++
        "stack: stack \x7d, \"*\");").toList) = 0 := by
  have hsource : closings messageSource = 0 := closings_ofList (by decide)
  have hbehind : '<' ∉ (", type: \"error\", runId: window.__PREVIEW_RUN_ID__, message: message, " ++
      "stack: stack \x7d, \"*\");").toList := by
    refine lt_notMem_broken ?_ ?_
    all_goals exact lt_notMem_ofList (by decide)
  rw [closings_append (by rw [String.toList_append]; rfl), closings_append_right (lt_notMem_ofList (by decide)),
    closings_jsonString, hsource, closings_of_notMem hbehind]

theorem closings_reportFunction [Platform] [Platform.WritesStrings] :
    (reportFunction.map closings).sum = 0 := by
  unfold reportFunction
  refine (sum_closings_around ?_ ?_).trans ?_
  · refine plain_cons ?_ (plain_cons ?_ (plain_cons ?_ (plain_cons (lt_notMem_broken ?_ ?_)
      (plain_cons ?_ plain_nil))))
    all_goals exact lt_notMem_ofList (by decide)
  · refine plain_cons ?_ (plain_cons ?_ (plain_cons ?_ plain_nil))
    all_goals exact lt_notMem_ofList (by decide)
  · rw [List.map_singleton, List.sum_singleton, closings_report]

theorem closings_showFunction [Platform] [Platform.WritesStrings] (rootId : Text) :
    ((showFunction rootId).map closings).sum = closings rootId := by
  unfold showFunction
  refine (sum_closings_around ?_ ?_).trans ?_
  · repeat refine plain_cons (lt_notMem_ofList (by decide)) ?_
    exact plain_nil
  · repeat refine plain_cons (lt_notMem_ofList (by decide)) ?_
    exact plain_nil
  · rw [List.map_singleton, List.sum_singleton, closings_append_joint (s := ");".toList) (by decide),
      closings_append_right (lt_notMem_ofList (by decide)), closings_jsonString]

theorem closings_listeners : (listeners.map closings).sum = 0 := by
  refine sum_closings_rows ?_
  repeat refine plain_cons (lt_notMem_ofList (by decide)) ?_
  exact plain_nil

theorem closings_stubFunction : (stubFunction.map closings).sum = 0 := by
  refine sum_closings_rows (plain_cons ?_ (plain_cons ?_ (plain_cons (lt_notMem_broken ?_ ?_) ?_)))
  · exact lt_notMem_ofList (by decide)
  · exact lt_notMem_ofList (by decide)
  · exact lt_notMem_ofList (by decide)
  · exact lt_notMem_ofList (by decide)
  · repeat refine plain_cons (lt_notMem_ofList (by decide)) ?_
    exact plain_nil

theorem closings_stubModuleFunction : (stubModuleFunction.map closings).sum = 0 := by
  refine sum_closings_rows (plain_cons ?_ (plain_cons (lt_notMem_broken ?_ ?_) (plain_cons ?_ plain_nil)))
  all_goals exact lt_notMem_ofList (by decide)

theorem closings_importFunction : (importFunction.map closings).sum = 0 := by
  refine sum_closings_rows
    (plain_cons ?_ (plain_cons ?_ (plain_cons (lt_notMem_broken ?_ ?_) ?_)))
  · exact lt_notMem_ofList (by decide)
  · exact lt_notMem_ofList (by decide)
  · exact lt_notMem_ofList (by decide)
  · exact lt_notMem_ofList (by decide)
  · repeat refine plain_cons (lt_notMem_ofList (by decide)) ?_
    exact plain_nil

theorem closings_boundaryClass : (boundaryClass.map closings).sum = 0 := by
  refine sum_closings_rows ?_
  repeat refine plain_cons (lt_notMem_ofList (by decide)) ?_
  exact plain_nil

/-- The script that runs before the code has the ends of the names in it. -/
theorem closings_runtime [Platform] [Platform.WritesStrings] (run rootId : Text) (stubs : Bool) :
    closings (runtime run rootId stubs) = closings run + closings rootId := by
  unfold runtime
  dsimp only
  rw [closings_cons_of_ne (by decide), closings_join (by decide)]
  simp only [List.map_cons, List.map_nil, List.sum_cons, List.sum_nil, closings_unlines,
    closings_settings, closings_reportFunction, closings_showFunction, closings_listeners,
    closings_stubFunction, closings_stubModuleFunction, closings_importFunction,
    closings_boundaryClass, Nat.zero_add, Nat.add_zero]

/-- The statement that mounts a component has the ends of the names in it. -/
theorem closings_mountStatement [Platform] [Platform.WritesStrings] (component rootId : Text) :
    closings (mountStatement component rootId) = closings rootId + closings component := by
  have hcreate : '<' ∉
      ("  const __previewElement = React.createElement(__PreviewErrorBoundary, null, " ++
        "React.createElement(").toList := by
    refine lt_notMem_broken ?_ ?_
    all_goals exact lt_notMem_ofList (by decide)
  unfold mountStatement
  rw [closings_cons_of_ne (by decide), closings_unlines]
  refine (sum_closings_around ?_ ?_).trans ?_
  · exact plain_cons (lt_notMem_ofList (by decide)) plain_nil
  · repeat refine plain_cons (lt_notMem_ofList (by decide)) ?_
    exact plain_nil
  · rw [List.map_cons, List.map_singleton, List.sum_cons, List.sum_singleton,
      closings_append_joint (s := ");".toList) (by decide),
      closings_append_right (lt_notMem_ofList (by decide)), closings_jsonString,
      closings_append_joint (s := "));".toList) (by decide), closings_append_right hcreate]

/-- A tag of a script ends one, whatever its address. -/
theorem closings_scriptTag {opening field : Text} (hopening : closings opening = 0)
    (hfield : '<' ∉ field) (hmeets : (field ++ "></script>".toList).head?.all meets = true) :
    closings (opening ++ field ++ "></script>".toList) = 1 := by
  have hend : closings "></script>".toList = 1 := by decide
  rw [List.append_assoc, closings_append hmeets, closings_append_right hfield, hopening, hend]

theorem closings_charsetRow : closings charsetRow = 0 := closings_ofList (by decide)

theorem closings_titleRow : closings titleRow = 0 := closings_ofList (by decide)

theorem closings_viewportRow : closings
    "<meta name=\"viewport\" content=\"width=device-width, initial-scale=1.0\" />".toList = 0 :=
  closings_ofList (by decide)

theorem closings_styleRules : (styleRules.map closings).sum = 0 := by
  refine sum_closings_rows (plain_cons ?_ (plain_cons ?_ (plain_cons (lt_notMem_broken ?_ ?_)
    (plain_cons ?_ (plain_cons (lt_notMem_broken ?_ ?_) (plain_cons (lt_notMem_broken ?_ ?_)
      (plain_cons (lt_notMem_broken ?_ ?_) plain_nil)))))))
  all_goals exact lt_notMem_ofList (by decide)

/-- The tags around rules end no script. -/
theorem closings_style {rules : Text} (hrules : closings rules = 0) :
    closings ("<style>\n".toList ++ rules ++ "</style>".toList) = 0 := by
  have hopening : "<style>\n".toList = "<style>".toList ++ ['\n'] := by decide
  have hstyle : closings "<style>".toList = 0 := by decide
  have hend : closings "</style>".toList = 0 := by decide
  rw [closings_append (by decide), hend, hopening, List.append_assoc, closings_joint (by decide),
    hrules, hstyle]

theorem closings_styleRow : closings styleRow = 0 :=
  closings_style ((closings_unlines styleRules).trans closings_styleRules)

theorem closings_cardRow : closings
    "<div id=\"preview-error\" class=\"preview-error\" role=\"alert\" hidden></div>".toList = 0 :=
  closings_ofList (by decide)

/-- The rows around the head and the body end no script. -/
theorem closings_document (head body : List Text) :
    closings (document head body) = (head.map closings).sum + (body.map closings).sum := by
  have hdoctype : closings "<!DOCTYPE html>".toList = 0 := closings_ofList (by decide)
  have hhtml : closings "<html lang=\"en\">".toList = 0 := closings_ofList (by decide)
  have hhead : closings "<head>".toList = 0 := closings_ofList (by decide)
  have hheadEnd : closings "</head>".toList = 0 := closings_ofList (by decide)
  have hbody : closings "<body>".toList = 0 := closings_ofList (by decide)
  have hbodyEnd : closings "</body>".toList = 0 := closings_ofList (by decide)
  have hhtmlEnd : closings "</html>".toList = 0 := closings_ofList (by decide)
  unfold document
  rw [closings_unlines]
  simp only [rows, List.map_append, List.sum_append, List.map_cons, List.map_nil, List.sum_cons,
    List.sum_nil, hdoctype, hhtml, hhead, hheadEnd, hbody, hbodyEnd, hhtmlEnd, Nat.zero_add,
    Nat.add_zero]

end Page

namespace PageContent

open Page

/-- The number of script elements of a page: for React, its renderer and the compiler, for the style
sheets if they are loaded, for each script of a library, and for the two scripts of the page. -/
def scriptElements (c : PageContent) (options : Options) : Nat :=
  3 + (if options.tailwind then 1 else 0) + (c.libraries.flatMap Library.scripts).length + 2

theorem closings_scriptRow (url : Text) : closings (scriptRow url) = 1 :=
  closings_scriptTag (by decide) (lt_notMem_attributeText (by decide) url) rfl

theorem closings_crossoriginRow (url : Text) : closings (crossoriginRow url) = 1 :=
  closings_scriptTag (by decide) (lt_notMem_attributeText (by decide) url) rfl

theorem sum_closings_crossoriginRows (urls : List Text) :
    ((urls.map crossoriginRow).map closings).sum = urls.length := by
  induction urls with
  | nil => rfl
  | cons url urls ih =>
    rw [List.map_cons, List.map_cons, List.sum_cons, closings_crossoriginRow, ih, List.length_cons,
      Nat.add_comm]

/-- The head ends one script for each that it loads. -/
theorem sum_closings_headRows (c : PageContent) (options : Options) :
    ((c.headRows options).map closings).sum
      = 3 + (if options.tailwind then 1 else 0) + (c.libraries.flatMap Library.scripts).length := by
  have htailwind : ((if options.tailwind then [scriptRow options.hosts.tailwind] else []).map
      closings).sum = if options.tailwind then 1 else 0 := by
    by_cases htail : options.tailwind = true
    · rw [if_pos htail, if_pos htail, List.map_singleton, List.sum_singleton, closings_scriptRow]
    · rw [if_neg htail, if_neg htail]
      rfl
  unfold headRows
  simp only [List.map_append, List.map_cons, List.map_nil, List.sum_append, List.sum_cons,
    List.sum_nil, closings_charsetRow, closings_viewportRow, closings_titleRow, closings_styleRow,
    closings_scriptRow, closings_crossoriginRow, sum_closings_crossoriginRows, htailwind,
    Nat.zero_add, Nat.add_zero]

theorem closings_rootRow (c : PageContent) (options : Options) :
    closings ("<div".toList ++ attributeText "id" options.rootElementId ++ c.classAttribute ++
      "></div>".toList) = 0 := by
  have hid : ('<' : Char) ∉ "id".toList := by decide
  have hroot := lt_notMem_attributeText hid options.rootElementId
  have hclass : '<' ∉ c.classAttribute := by
    unfold classAttribute
    split
    · exact lt_notMem_attributeText (by decide) _
    · exact List.not_mem_nil
  have hopening : closings "<div".toList = 0 := by decide
  have hend : closings "></div>".toList = 0 := by decide
  have hmeets : (attributeText "id" options.rootElementId ++
      (c.classAttribute ++ "></div>".toList)).head?.all meets = true := rfl
  rw [List.append_assoc, List.append_assoc, closings_append hmeets, closings_append_right hroot,
    closings_append_right hclass, hopening, hend]

theorem closings_runtimeRow [Platform] [Platform.WritesStrings] (run rootId : Text) (stubs : Bool) :
    closings ("<script>".toList ++ runtime run rootId stubs ++ "</script>".toList)
      = closings run + closings rootId + 1 := by
  have hopening : closings "<script>".toList = 0 := by decide
  have hend : closings "</script>".toList = 1 := by decide
  have hmeets : (runtime run rootId stubs).head?.all meets = true := rfl
  rw [closings_append (by decide), closings_append hmeets, closings_runtime, hopening, hend,
    Nat.zero_add]

/-- The script with the code ends where a name in it does. -/
theorem closings_script [Platform] [Platform.WritesStrings] (c : PageContent) (options : Options) :
    closings (c.script options) = ((c.prelude options).texts.map closings).sum
      + (closings options.rootElementId + closings c.component.name) := by
  have hmount : (['\n'] ++ mountStatement c.component.name options.rootElementId).head?.all meets
      = true := rfl
  unfold script
  rw [List.append_assoc, List.append_assoc, List.append_assoc, closings_joint (by decide),
    closings_append hmount, closings_escapeCode, Prelude.closings_render, Nat.zero_add,
    List.singleton_append, closings_cons_of_ne (by decide), closings_mountStatement]

/-- The body ends its two scripts, and where a name in one of them does. -/
theorem sum_closings_bodyRows [Platform] [Platform.WritesStrings] [Platform.WritesDigests]
    (c : PageContent) (options : Options) :
    ((c.bodyRows options).map closings).sum = 2 + ((c.prelude options).texts.map closings).sum
      + 2 * closings options.rootElementId + closings c.component.name := by
  have hrun : closings c.run = 0 := closings_of_notMem (lt_notMem_runIdOf c.token c.code)
  have htag : closings "<script type=\"text/babel\" data-presets=\"react\">".toList = 0 :=
    closings_ofList (by decide)
  have hend : closings "</script>".toList = 1 := by decide
  unfold bodyRows
  simp only [List.map_cons, List.map_nil, List.sum_cons, List.sum_nil, closings_rootRow,
    closings_cardRow, closings_runtimeRow, htag, hrun]
  rw [closings_append (by decide), closings_script, hend]
  omega

/-- The script with the code, and the page around it. -/
theorem html_page [Platform] (c : PageContent) (options : Options) : ∃ front behind : Text,
    (c.page options).html = front ++ "<script type=\"text/babel\" data-presets=\"react\">".toList ++
      '\n' :: (c.script options ++ "</script>".toList ++ behind) := by
  obtain ⟨before, hbody⟩ : ∃ before, c.bodyRows options = before ++
      ["<script type=\"text/babel\" data-presets=\"react\">".toList,
        c.script options ++ "</script>".toList] := ⟨[_, _, _], rfl⟩
  refine ⟨Text.unlines (rows ["<!DOCTYPE html>", "<html lang=\"en\">", "<head>"] ++
    c.headRows options ++ rows ["</head>", "<body>"] ++ before),
    '\n' :: Text.unlines (rows ["</body>", "</html>"]), ?_⟩
  unfold page document
  dsimp only
  rw [hbody, ← List.append_assoc, Text.unlines_append, Text.unlines_append, Text.unlines_cons,
    Text.unlines_cons]
  simp only [List.append_assoc, List.cons_append]
  rfl

/-- A page ends its scripts, and one wherever a name in it does. -/
theorem closings_page [Platform] [Platform.WritesStrings] [Platform.WritesDigests]
    {c : PageContent} (hname : isIdentifier c.component.name = true)
    (options : Options) : closings (c.page options).html = c.scriptElements options
      + ((c.prelude options).texts.map closings).sum + 2 * closings options.rootElementId := by
  have hcomponent : closings c.component.name = 0 := by
    refine closings_of_notMem fun hmem => ?_
    exact absurd ((isWord_of_isIdentifier hname).identChars _ hmem) (by decide)
  have hhtml : (c.page options).html = document (c.headRows options) (c.bodyRows options) := rfl
  rw [hhtml, closings_document, sum_closings_headRows, sum_closings_bodyRows, hcomponent,
    scriptElements]
  omega

/-- **Where a page ends a script.**  The elements of a page end one each.  Beyond these, each name
that the prelude binds ends one where it has such an end itself, and the name of the root element
does so twice; the code does not, nor does anything else.  So an end that is none of the page stands
in one of these names.  The script with the code has the prelude, the code as it is written and the
statement that mounts the component, in this order. -/
theorem closings_build [Platform] [Platform.WritesStrings] [Platform.WritesDigests]
    {c : PageContent} {options : Options} {page : Page} {records : Diagnostics}
    (h : c.build options = .ok (page, records)) :
    closings page.html = c.scriptElements options + ((c.prelude options).texts.map closings).sum
      + 2 * closings options.rootElementId ∧
    (closings page.html = c.scriptElements options ↔
      closings options.rootElementId = 0 ∧ ∀ text ∈ (c.prelude options).texts, closings text = 0) ∧
    ∃ front behind, page.html =
      front ++ "<script type=\"text/babel\" data-presets=\"react\">".toList ++
        '\n' :: ((c.prelude options).render ++ "\n\n".toList ++ escapeCode c.code ++ ['\n'] ++
          mountStatement c.component.name options.rootElementId ++ "</script>".toList ++ behind) := by
  have hname : isIdentifier c.component.name = true := by
    by_contra hname
    rw [build, if_neg hname] at h
    cases h
  rw [build, if_pos hname] at h
  cases h
  have hcount := closings_page hname options
  refine ⟨hcount, ?_, c.html_page options⟩
  have hsum : ((c.prelude options).texts.map closings).sum = 0 ↔
      ∀ text ∈ (c.prelude options).texts, closings text = 0 := by
    rw [List.sum_eq_zero_iff_forall_eq_nat, List.forall_mem_map]
  rw [hcount, ← hsum]
  omega

section

open scoped Bundled

/-- A page whose root element is named for the end of a script has an end too many. -/
theorem closings_build_scriptEnd :
    let c : PageContent :=
      { code := [], component := ⟨"App".toList, .fallback⟩, imports := [], declared := [],
        className := none, token := 0 }
    let options : Options := { rootElementId := "</script>".toList }
    c.build options = .ok (c.page options, c.records options) ∧
      closings (c.page options).html ≠ c.scriptElements options := by
  intro c options
  have hbuild : c.build options = .ok (c.page options, c.records options) :=
    if_pos (by decide)
  have hroot : closings options.rootElementId = 1 := by decide
  refine ⟨hbuild, fun hall => ?_⟩
  have hnone := ((closings_build hbuild).2.1.mp hall).1
  rw [hroot] at hnone
  cases hnone

end

end PageContent

end LivePreview
