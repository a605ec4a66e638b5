/-
The tags of a page that shows a failure.

What such a page says comes from outside: a title, a message and the name of an element.  Each is
written with entities, so none of its characters is an angle bracket, a quotation mark or an
ampersand that could be taken for another.  `tags` reads off a page all that a reader of markup
takes for structure, and `elementTexts` the text of an element; `decodeText` reads the entities
back.  The first of them looks at angle brackets alone and at the names behind them, so it goes over
a text without any as if it were not there.  So the tags of the page are those of its fixed rows,
and the texts between them are all that differs.
-/
import LivePreview.Page.Notice
import LivePreview.Proofs.Page.ScriptEnds
import LivePreview.Proofs.Text.Reading

namespace LivePreview.Page

open Text (Stops)

variable {c : Char} {s t w name : Text}

/-! ### Entities -/

/-- What the five characters are written as that mean something in markup. -/
def entities : List Text := ["&amp;", "&lt;", "&gt;", "&quot;", "&#39;"].map String.toList

/-- The characters that mean something in markup, but for the one that entities start with. -/
def marks : List Char := ['<', '>', '"', '\'']

/-- The text that is written with entities. -/
def decodeText : Text → Text
  | '&' :: 'a' :: 'm' :: 'p' :: ';' :: s => '&' :: decodeText s
  | '&' :: 'l' :: 't' :: ';' :: s => '<' :: decodeText s
  | '&' :: 'g' :: 't' :: ';' :: s => '>' :: decodeText s
  | '&' :: 'q' :: 'u' :: 'o' :: 't' :: ';' :: s => '"' :: decodeText s
  | '&' :: '#' :: '3' :: '9' :: ';' :: s => '\'' :: decodeText s
  | c :: s => c :: decodeText s
  | [] => []

theorem decodeText_cons (h : c ≠ '&') (s : Text) : decodeText (c :: s) = c :: decodeText s := by
  rw [decodeText]
  all_goals
    intro t hc
    exact absurd hc h

/-- A character is written as itself or as an entity. -/
theorem entity_cases (c : Char) :
    (entity c = [c] ∧ c ≠ '&' ∧ c ∉ marks) ∨
    ∃ letters, entity c = '&' :: letters ∧ entity c ∈ entities ∧ '&' ∉ letters ∧
      ∀ s, decodeText (entity c ++ s) = c :: decodeText s := by
  unfold entity
  split
  · exact Or.inr ⟨_, rfl, by decide, by decide, fun _ => rfl⟩
  · exact Or.inr ⟨_, rfl, by decide, by decide, fun _ => rfl⟩
  · exact Or.inr ⟨_, rfl, by decide, by decide, fun _ => rfl⟩
  · exact Or.inr ⟨_, rfl, by decide, by decide, fun _ => rfl⟩
  · exact Or.inr ⟨_, rfl, by decide, by decide, fun _ => rfl⟩
  · rename_i hamp hlt hgt hquote happ
    refine Or.inl ⟨rfl, hamp, ?_⟩
    simp only [marks, List.mem_cons, List.not_mem_nil, or_false, not_or]
    exact ⟨hlt, hgt, hquote, happ⟩

/-- **Text is read back from its entities.** -/
theorem decodeText_escapeText (s : Text) : decodeText (escapeText s) = s := by
  induction s with
  | nil => rfl
  | cons c s ih =>
    rw [escapeText, List.flatMap_cons, ← escapeText]
    obtain ⟨hself, hc, -⟩ | ⟨_, -, -, -, hdecode⟩ := entity_cases c
    · rw [hself, List.singleton_append, decodeText_cons hc, ih]
    · rw [hdecode, ih]

theorem escapeText_injective : Function.Injective escapeText :=
  Function.LeftInverse.injective decodeText_escapeText

theorem notMem_escapeText (hc : c ∈ marks) (s : Text) : c ∉ escapeText s := by
  have hentities : entities.all (·.all (!marks.contains ·)) = true := by decide
  intro hmem
  obtain ⟨d, -, hd⟩ := List.mem_flatMap.mp hmem
  obtain ⟨hself, -, hmark⟩ | ⟨_, -, hentity, -, -⟩ := entity_cases d
  · rw [hself, List.mem_singleton] at hd
    exact hmark (hd ▸ hc)
  · have hplain := List.all_eq_true.mp (List.all_eq_true.mp hentities _ hentity) c hd
    rw [Bool.not_eq_true', List.contains_eq_mem, decide_eq_false_iff_not] at hplain
    exact hplain hc

theorem suffix_of_notMem {u v : Text} (hu : c ∉ u) (h : c :: t <:+ u ++ v) : c :: t <:+ v := by
  induction u with
  | nil => exact h
  | cons d u ih =>
    rw [List.mem_cons, not_or] at hu
    rw [List.cons_append, List.suffix_cons_iff] at h
    obtain heq | h := h
    · exact absurd (List.cons.inj heq).1 hu.1
    · exact ih hu.2 h

/-- An ampersand in written text starts an entity. -/
theorem exists_entity_of_suffix (h : '&' :: t <:+ escapeText s) : ∃ e ∈ entities, e <+: '&' :: t := by
  induction s with
  | nil => exact absurd (List.suffix_nil.mp h) (List.cons_ne_nil _ _)
  | cons c s ih =>
    rw [escapeText, List.flatMap_cons, ← escapeText] at h
    obtain ⟨hself, hc, -⟩ | ⟨letters, hletters, hentity, hlater, -⟩ := entity_cases c
    · rw [hself, List.singleton_append, List.suffix_cons_iff] at h
      obtain heq | h := h
      · exact absurd (List.cons.inj heq).1.symm hc
      · exact ih h
    · rw [hletters, List.cons_append, List.suffix_cons_iff] at h
      obtain heq | h := h
      · refine ⟨entity c, hentity, ?_⟩
        rw [heq, hletters]
        exact List.prefix_append _ (escapeText s)
      · exact ih (suffix_of_notMem hlater h)

/-! ### Tags -/

/-- A character of the name of a tag. -/
def isTagChar (c : Char) : Bool := c.isAlphanum || c == '/' || c == '!'

theorem isTagChar_of_toLower (h : isTagChar c.toLower = true) : isTagChar c = true := by
  unfold Char.toLower at h
  split at h
  · rename_i hcapital
    have hupper : c.isUpper = true := by simpa [Char.isUpper] using hcapital
    simp only [isTagChar, Char.isAlphanum, Char.isAlpha, hupper, Bool.true_or]
  · exact h

/-- The tags of a page: all its angle brackets in order, an opening one with the name behind it. -/
def tags : Text → List Text
  | [] => []
  | c :: s =>
    if c = '<' then ('<' :: s.takeWhile isTagChar) :: tags s
    else if c = '>' then [c] :: tags s
    else tags s

/-- True of a text without angle brackets. -/
def isUntagged (s : Text) : Bool := s.all fun c => c != '<' && c != '>'

theorem isUntagged_append (hs : isUntagged s = true) (ht : isUntagged t = true) :
    isUntagged (s ++ t) = true := by
  rw [isUntagged, List.all_append, Bool.and_eq_true]
  exact ⟨hs, ht⟩

theorem isUntagged_unlines {rows : List Text} (h : ∀ row ∈ rows, isUntagged row = true) :
    isUntagged (Text.unlines rows) = true := by
  induction rows with
  | nil => rfl
  | cons row rows ih =>
    rw [List.forall_mem_cons] at h
    rw [Text.unlines_cons]
    exact isUntagged_append h.1 (ih h.2)

theorem isUntagged_escapeText (s : Text) : isUntagged (escapeText s) = true := by
  rw [isUntagged, List.all_eq_true]
  intro c hc
  rw [Bool.and_eq_true, bne_iff_ne, bne_iff_ne]
  constructor
  · rintro rfl
    exact notMem_escapeText (by decide) s hc
  · rintro rfl
    exact notMem_escapeText (by decide) s hc

/-- A text without angle brackets adds no tags. -/
theorem tags_append_right (h : isUntagged s = true) (t : Text) : tags (s ++ t) = tags t := by
  induction s with
  | nil => rfl
  | cons c s ih =>
    rw [isUntagged, List.all_cons, Bool.and_eq_true, Bool.and_eq_true, bne_iff_ne, bne_iff_ne] at h
    rw [List.cons_append, tags, if_neg h.1.1, if_neg h.1.2, ih h.2]

theorem tags_of_isUntagged (h : isUntagged s = true) : tags s = [] := by
  have happend := tags_append_right h []
  rwa [List.append_nil] at happend

/-- Texts have the tags of both, if the second one goes on with no name. -/
theorem tags_append (h : Stops isTagChar t) (s : Text) : tags (s ++ t) = tags s ++ tags t := by
  induction s with
  | nil => rfl
  | cons c s ih =>
    rw [List.cons_append, tags, tags, Text.takeWhile_append_of_stops h, ih]
    split
    · rfl
    · split <;> rfl

/-- A text without angle brackets can stand behind a tag. -/
theorem tags_around (h : isUntagged t = true) (s closing : Text) :
    tags (s ++ '>' :: (t ++ closing)) = tags s ++ ['>'] :: tags closing := by
  rw [tags_append (Text.stops_cons.mpr rfl), tags, if_neg (by decide), if_pos rfl, tags_append_right h]

theorem tags_newline (t : Text) : tags ('\n' :: t) = tags t := rfl

theorem tags_unlines (rows : List Text) : tags (Text.unlines rows) = rows.flatMap tags := by
  induction rows with
  | nil => rfl
  | cons row rows ih =>
    have hnewline : Stops isTagChar ('\n' :: Text.unlines rows) := Text.stops_cons.mpr rfl
    rw [Text.unlines_cons, tags_append hnewline, tags_newline, List.flatMap_cons, ih]

theorem tags_subset_cons (c : Char) (s : Text) : tags s ⊆ tags (c :: s) := by
  rw [tags]
  split
  · exact List.subset_cons_self _ _
  · split
    · exact List.subset_cons_self _ _
    · exact List.Subset.refl _

/-- Each `<` of a page is one of its tags, with the name behind it. -/
theorem mem_tags_of_suffix (h : '<' :: t <:+ s) : '<' :: t.takeWhile isTagChar ∈ tags s := by
  induction s with
  | nil => exact absurd (List.suffix_nil.mp h) (List.cons_ne_nil _ _)
  | cons c s ih =>
    rw [List.suffix_cons_iff] at h
    obtain heq | h := h
    · obtain ⟨rfl, rfl⟩ := List.cons.inj heq
      rw [tags, if_pos rfl]
      exact List.mem_cons_self
    · exact tags_subset_cons c s (ih h)

/-- What starts with a `<` and goes on with a name stands in front of a tag's name. -/
theorem exists_tag_of_infix (hw : w.all isTagChar = true) (h : '<' :: w <:+: s) :
    ∃ tag ∈ tags s, '<' :: w <+: tag := by
  obtain ⟨front, behind, rfl⟩ := h
  refine ⟨_, mem_tags_of_suffix (t := w ++ behind) ⟨front, by simp⟩, ?_⟩
  rw [List.takeWhile_append_of_pos (List.all_eq_true.mp hw)]
  exact List.prefix_append ('<' :: w) _

/-! ### Elements -/

/-- The texts of the elements of a name: what stands between a tag `<name …>` and the next tag. -/
def elementTexts (name : Text) : Text → List Text
  | [] => []
  | c :: s =>
    if c = '<' ∧ s.takeWhile isTagChar = name then
      ((s.dropWhile (· != '>')).drop 1).takeWhile (· != '<') :: elementTexts name s
    else elementTexts name s

/-- There is no element without its tag. -/
theorem elementTexts_append (h : '<' :: name ∉ tags s) (hstop : Stops isTagChar t) :
    elementTexts name (s ++ t) = elementTexts name t := by
  induction s with
  | nil => rfl
  | cons c s ih =>
    rw [List.cons_append, elementTexts, if_neg, ih fun hmem => h (tags_subset_cons c s hmem)]
    rintro ⟨rfl, hname⟩
    rw [Text.takeWhile_append_of_stops hstop] at hname
    rw [tags, if_pos rfl, hname] at h
    exact h List.mem_cons_self

theorem elementTexts_of_notMem (h : '<' :: name ∉ tags s) : elementTexts name s = [] := by
  have happend := elementTexts_append h (Text.stops_nil isTagChar)
  rwa [List.append_nil] at happend

/-- The row of an element: its name, what else is in its tag, and its text. -/
def elementRow (name field content : Text) : Text :=
  '<' :: (name ++ field ++ '>' :: (content ++ '<' :: '/' :: (name ++ ['>'])))

/-- A name of an element, and what can stand behind it in a tag. -/
structure Opens (name field : Text) : Prop where
  tagChars : name.all isTagChar = true
  stops : Stops isTagChar (field ++ ['>'])
  untagged : isUntagged (name ++ field) = true

section Opens

variable {field content : Text} (h : Opens name field)

include h

theorem Opens.stops_append (rest : Text) : Stops isTagChar (field ++ '>' :: rest) := by
  have hstop := h.stops
  cases field with
  | nil => exact hstop
  | cons c field => exact hstop

theorem Opens.takeWhile (rest : Text) :
    (name ++ field ++ '>' :: rest).takeWhile isTagChar = name := by
  rw [List.append_assoc, Text.takeWhile_append (List.all_eq_true.mp h.tagChars) (h.stops_append rest)]

theorem Opens.dropWhile (rest : Text) :
    (name ++ field ++ '>' :: rest).dropWhile (· != '>') = '>' :: rest := by
  refine Text.dropWhile_append (fun c hc => ?_) (Text.stops_cons.mpr rfl)
  exact (Bool.and_eq_true_iff.mp (List.all_eq_true.mp h.untagged c hc)).2

theorem Opens.isUntagged_name : isUntagged name = true := by
  have huntagged := h.untagged
  rw [isUntagged, List.all_append, Bool.and_eq_true] at huntagged
  exact huntagged.1

theorem Opens.tags_closing :
    tags ('<' :: '/' :: (name ++ ['>'])) = ['<' :: '/' :: name, ['>']] := by
  have hread : ('/' :: (name ++ ['>'])).takeWhile isTagChar = '/' :: name :=
    Text.takeWhile_append (List.forall_mem_cons.mpr ⟨rfl, List.all_eq_true.mp h.tagChars⟩)
      (Text.stops_cons.mpr rfl)
  have hslash : isUntagged ('/' :: name) = true := h.isUntagged_name
  have hrest : tags ('/' :: (name ++ ['>'])) = [['>']] := tags_append_right hslash ['>']
  rw [tags, if_pos rfl, hread, hrest]

theorem Opens.tags_elementRow (hcontent : isUntagged content = true) :
    tags (elementRow name field content) = ['<' :: name, ['>'], '<' :: '/' :: name, ['>']] := by
  rw [elementRow, tags, if_pos rfl, h.takeWhile, tags_around hcontent, tags_of_isUntagged h.untagged,
    h.tags_closing]
  rfl

/-- **The text of an element.**  If one row of a page has the tag of a name, what stands behind it
up to the next tag is all that the elements of the name say. -/
theorem Opens.elementTexts_unlines {before behind : List Text} (hcontent : isUntagged content = true)
    (hbefore : '<' :: name ∉ tags (Text.unlines before))
    (hbehind : '<' :: name ∉ tags (Text.unlines behind)) :
    elementTexts name (Text.unlines (before ++ elementRow name field content :: behind))
      = [content] := by
  have hnewline : Stops isTagChar ('\n' :: Text.unlines behind) := Text.stops_cons.mpr rfl
  have htext (rest : Text) : (content ++ '<' :: rest).takeWhile (· != '<') = content := by
    refine Text.takeWhile_append (fun c hc => ?_) (Text.stops_cons.mpr rfl)
    exact (Bool.and_eq_true_iff.mp (List.all_eq_true.mp hcontent c hc)).1
  obtain ⟨rest, hrow, hrest⟩ : ∃ rest, elementRow name field content ++ '\n' :: Text.unlines behind
      = '<' :: (name ++ field ++ '>' :: (content ++ '<' :: rest)) ∧
      tags ('<' :: rest) = ['<' :: '/' :: name, ['>']] ++ tags (Text.unlines behind) := by
    refine ⟨'/' :: (name ++ ['>']) ++ '\n' :: Text.unlines behind, ?_, ?_⟩
    · rw [elementRow]
      simp only [List.cons_append, List.append_assoc]
    · rw [← List.cons_append, tags_append hnewline, h.tags_closing, tags_newline]
  have hlater : elementTexts name (name ++ field ++ '>' :: (content ++ '<' :: rest)) = [] := by
    refine elementTexts_of_notMem ?_
    rw [tags_around hcontent, tags_of_isUntagged h.untagged, hrest]
    simp only [List.nil_append, List.cons_append, List.mem_cons, not_or]
    refine ⟨by simp, fun heq => ?_, by simp, hbehind⟩
    exact List.cons_ne_self '/' name (List.cons.inj heq).2.symm
  rw [Text.unlines_append, Text.unlines_cons, hrow, elementTexts_append hbefore (Text.stops_cons.mpr rfl),
    elementTexts, if_pos ⟨rfl, h.takeWhile _⟩, hlater, h.dropWhile, List.drop_one, List.tail_cons, htext]

end Opens

/-! ### The page of a failure -/

theorem isUntagged_attributeText {name : String} (h : isUntagged name.toList = true) (value : Text) :
    isUntagged (attributeText name value) = true := by
  unfold attributeText
  refine isUntagged_append (isUntagged_append (isUntagged_append ?_ (by decide))
    (isUntagged_escapeText value)) (by decide)
  exact h

section Rows

-- long literals
set_option maxRecDepth 2000

theorem tags_ofList {l : Text} {names : List Text} (h : tags l = names) :
    tags (String.ofList l).toList = names := by
  rw [String.toList_ofList, h]

theorem isUntagged_ofList {l : Text} (h : isUntagged l = true) :
    isUntagged (String.ofList l).toList = true := by
  rw [String.toList_ofList, h]

theorem isUntagged_broken {a b : String} (ha : isUntagged a.toList = true)
    (hb : isUntagged b.toList = true) : isUntagged (a ++ b).toList = true := by
  rw [String.toList_append]
  exact isUntagged_append ha hb

theorem isUntagged_styleRules : isUntagged (Text.unlines styleRules) = true := by
  refine isUntagged_unlines ?_
  unfold styleRules rows
  simp only [List.map_cons, List.map_nil, List.forall_mem_cons]
  refine ⟨?_, ?_, isUntagged_broken ?_ ?_, ?_, isUntagged_broken ?_ ?_, isUntagged_broken ?_ ?_,
    isUntagged_broken ?_ ?_, List.forall_mem_nil _⟩
  all_goals exact isUntagged_ofList (by decide)

theorem tags_styleRow : tags styleRow = ["<style", ">", "</style", ">"].map String.toList := by
  -- the rules are long: what is said of the row holds of any
  have hrow : ∀ rules, isUntagged rules = true →
      tags ("<style>\n".toList ++ rules ++ "</style>".toList)
        = ["<style", ">", "</style", ">"].map String.toList := by
    intro rules hrules
    have hopening : "<style>\n".toList = "<style".toList ++ ['>', '\n'] := by decide
    have hcontent : isUntagged ('\n' :: rules) = true := hrules
    rw [hopening, List.append_assoc, List.append_assoc]
    refine (tags_around hcontent "<style".toList "</style>".toList).trans ?_
    decide
  exact hrow _ isUntagged_styleRules

end Rows

/-- The rows in front of the title of a failure. -/
def noticeFront (options : Options) : List Text :=
  rows ["<!DOCTYPE html>", "<html lang=\"en\">", "<head>"] ++ [charsetRow, titleRow, styleRow] ++
    rows ["</head>", "<body>"] ++ ["<div".toList ++ attributeText "id" options.rootElementId ++ ['>'],
      "<div class=\"preview-error\" role=\"alert\">".toList]

/-- The rows behind the message of a failure. -/
def noticeBehind : List Text := rows ["</div>", "</div>", "</body>", "</html>"]

/-- The tags of a page that shows a failure. -/
def noticeTags : List Text :=
  ["<!DOCTYPE", ">", "<html", ">", "<head", ">", "<meta", ">", "<title", ">", "</title", ">",
    "<style", ">", "</style", ">", "</head", ">", "<body", ">", "<div", ">", "<div", ">",
    "<h2", ">", "</h2", ">", "<pre", ">", "</pre", ">", "</div", ">", "</div", ">",
    "</body", ">", "</html", ">"].map String.toList

theorem html_notice (title message run : Text) (options : Options) :
    (notice title message run options).html = Text.unlines (noticeFront options ++
      elementRow "h2".toList [] (escapeText title) ::
      elementRow "pre".toList " class=\"preview-error-message\"".toList (escapeText message) ::
      noticeBehind) := by
  have htitle : "<h2>".toList ++ escapeText title ++ "</h2>".toList
      = elementRow "h2".toList [] (escapeText title) := by
    rw [List.append_assoc]
    rfl
  have hmessage : "<pre class=\"preview-error-message\">".toList ++ escapeText message ++
      "</pre>".toList
      = elementRow "pre".toList " class=\"preview-error-message\"".toList (escapeText message) := by
    rw [List.append_assoc]
    rfl
  rw [← htitle, ← hmessage]
  rfl

theorem tags_noticeFront (options : Options) :
    tags (Text.unlines (noticeFront options)) = noticeTags.take 24 := by
  have hfield : isUntagged (attributeText "id" options.rootElementId) = true :=
    isUntagged_attributeText (by decide) _
  have hdoctype : tags "<!DOCTYPE html>".toList = ["<!DOCTYPE", ">"].map String.toList :=
    tags_ofList (by decide)
  have hhtml : tags "<html lang=\"en\">".toList = ["<html", ">"].map String.toList :=
    tags_ofList (by decide)
  have hhead : tags "<head>".toList = ["<head", ">"].map String.toList := tags_ofList (by decide)
  have hcharset : tags charsetRow = ["<meta", ">"].map String.toList := tags_ofList (by decide)
  have htitle : tags titleRow = ["<title", ">", "</title", ">"].map String.toList :=
    tags_ofList (by decide)
  have hheadEnd : tags "</head>".toList = ["</head", ">"].map String.toList := tags_ofList (by decide)
  have hbody : tags "<body>".toList = ["<body", ">"].map String.toList := tags_ofList (by decide)
  have hroot : tags ("<div".toList ++ attributeText "id" options.rootElementId ++ ['>'])
      = ["<div", ">"].map String.toList := by
    have hstop : Stops isTagChar (attributeText "id" options.rootElementId ++ ['>']) :=
      Text.stops_cons.mpr rfl
    rw [List.append_assoc, tags_append hstop, tags_append_right hfield]
    decide
  have hcard : tags "<div class=\"preview-error\" role=\"alert\">".toList
      = ["<div", ">"].map String.toList := tags_ofList (by decide)
  rw [tags_unlines, noticeFront]
  simp only [rows, List.flatMap_append, List.map_cons, List.map_nil, List.flatMap_cons, List.flatMap_nil,
    hdoctype, hhtml, hhead, hcharset, htitle, tags_styleRow, hheadEnd, hbody, hroot, hcard]
  rfl

theorem tags_noticeBehind : tags (Text.unlines noticeBehind) = noticeTags.drop 32 := by
  have hdivEnd : tags "</div>".toList = ["</div", ">"].map String.toList := tags_ofList (by decide)
  have hbodyEnd : tags "</body>".toList = ["</body", ">"].map String.toList := tags_ofList (by decide)
  have hhtmlEnd : tags "</html>".toList = ["</html", ">"].map String.toList := tags_ofList (by decide)
  rw [tags_unlines, noticeBehind]
  simp only [rows, List.map_cons, List.map_nil, List.flatMap_cons, List.flatMap_nil, hdivEnd, hbodyEnd,
    hhtmlEnd]
  rfl

theorem opens_title : Opens "h2".toList [] := ⟨by decide, by decide, by decide⟩

theorem opens_message : Opens "pre".toList " class=\"preview-error-message\"".toList :=
  ⟨by decide, by decide, by decide⟩

/-- **The tags of such a page are the same whatever it says.** -/
theorem tags_notice (title message run : Text) (options : Options) :
    tags (notice title message run options).html = noticeTags := by
  have hfront := tags_noticeFront options
  have hbehind := tags_noticeBehind
  rw [tags_unlines] at hfront hbehind
  rw [html_notice, tags_unlines, List.flatMap_append, List.flatMap_cons, List.flatMap_cons, hfront,
    hbehind, opens_title.tags_elementRow (isUntagged_escapeText title),
    opens_message.tags_elementRow (isUntagged_escapeText message)]
  decide

/-- The one headline of such a page is its title. -/
theorem elementTexts_title (title message run : Text) (options : Options) :
    elementTexts "h2".toList (notice title message run options).html = [escapeText title] := by
  rw [html_notice]
  refine opens_title.elementTexts_unlines (isUntagged_escapeText title) ?_ ?_
  · rw [tags_noticeFront]
    decide
  · have hbehind := tags_noticeBehind
    rw [tags_unlines] at hbehind
    rw [tags_unlines, List.flatMap_cons, hbehind,
      opens_message.tags_elementRow (isUntagged_escapeText message)]
    decide

/-- What such a page shows as it is written is its message. -/
theorem elementTexts_message (title message run : Text) (options : Options) :
    elementTexts "pre".toList (notice title message run options).html = [escapeText message] := by
  rw [html_notice, List.append_cons]
  refine opens_message.elementTexts_unlines (isUntagged_escapeText message) ?_ ?_
  · have hfront := tags_noticeFront options
    rw [tags_unlines] at hfront
    rw [tags_unlines, List.flatMap_append, hfront, List.flatMap_singleton,
      opens_title.tags_elementRow (isUntagged_escapeText title)]
    decide
  · rw [tags_noticeBehind]
    decide

/-- No tag of such a page starts a script, in letters of any case. -/
theorem scriptTag_notInfix_notice (title message run : Text) (options : Options)
    (h : w.map Char.toLower = "<script".toList) :
    ¬w <:+: (notice title message run options).html := by
  have hplain : noticeTags.all
      (fun tag => !"<script".toList.isPrefixOf (tag.map Char.toLower)) = true := by decide
  obtain ⟨lt, letters, rfl, hlt, hletters⟩ := List.map_eq_cons_iff.mp h
  have hname : letters.all isTagChar = true := by
    rw [List.all_eq_true]
    intro c hc
    have hall : (letters.map Char.toLower).all isTagChar = true := by
      rw [hletters]
      decide
    exact isTagChar_of_toLower (List.all_eq_true.mp hall _ (List.mem_map_of_mem hc))
  rw [eq_of_toLower (by decide) hlt] at h ⊢
  intro hinfix
  obtain ⟨tag, htag, hfront⟩ := exists_tag_of_infix hname hinfix
  rw [tags_notice] at htag
  have hno := List.all_eq_true.mp hplain tag htag
  rw [Bool.not_eq_true', Bool.eq_false_iff, ne_eq, List.isPrefixOf_iff_prefix, ← h] at hno
  exact hno (hfront.map Char.toLower)

/-- **A page that shows a failure says no more than its title and its message.**  What is written
with entities is read back from them, so no two texts are written the same; it has no angle brackets
and no quotation marks, and an ampersand of it starts an entity.  So whatever the title, the
message, the run and the options are, the tags of the page are the fixed ones, none of them starts a
script, and the title and the message are what is read back from its headline and from the element
behind that. -/
theorem notice_inert :
    (∀ s, decodeText (escapeText s) = s) ∧ Function.Injective escapeText ∧
    (∀ s, ∀ c ∈ marks, c ∉ escapeText s) ∧
    (∀ s t, '&' :: t <:+ escapeText s → ∃ e ∈ entities, e <+: '&' :: t) ∧
    ∀ title message run options,
      tags (notice title message run options).html = noticeTags ∧
      (∀ w : Text, w.map Char.toLower = "<script".toList →
        ¬w <:+: (notice title message run options).html) ∧
      (elementTexts "h2".toList (notice title message run options).html).map decodeText = [title] ∧
      (elementTexts "pre".toList (notice title message run options).html).map decodeText
        = [message] := by
  refine ⟨decodeText_escapeText, escapeText_injective, fun s c hc => notMem_escapeText hc s,
    fun s t => exists_entity_of_suffix, fun title message run options => ?_⟩
  refine ⟨tags_notice title message run options,
    fun w => scriptTag_notInfix_notice title message run options, ?_, ?_⟩
  · rw [elementTexts_title, List.map_singleton, decodeText_escapeText]
  · rw [elementTexts_message, List.map_singleton, decodeText_escapeText]

end LivePreview.Page
