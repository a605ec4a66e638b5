/-
Answers made of prose and fenced blocks.

Such an answer is read line by line, and the only thing that is kept from one line to the next is
the block that is open, since its prose names no file.  So a line of prose leaves the reading as it
is, and a block with its closing fence adds itself to the blocks, unless its tag names a language
that is no script.  What is left of the answer are the bodies of the blocks that were kept, one
behind the other, and nothing in them is a marker.

Prose that looks like code is only told from code by what stands in front of it: as long as no block
was kept, the whole answer is taken for code where such a line comes.
-/
import LivePreview.Proofs.Answer.MarkerPath
import LivePreview.Proofs.Answer.Plain

namespace LivePreview.Answer

open Text (isBlankText join lines unifyNewlines unlines)

variable {line : Text} {r : Reading} {c : Char}

/-! ### Fences -/

/-- A character of a tag.  Letters and digits of any script are such, and more. -/
def isTagChar (c : Char) : Bool :=
  !isSpace c && !(['\x60', '~', '.', '{', ','].contains c)

/-- The line that opens a block: three or more backticks or tildes, and a tag that may be empty. -/
structure Opening where
  indent : Text
  sign : Char
  length : Nat
  gap : Text
  tag : Text
  behind : Text
  isSign : sign = '\x60' ∨ sign = '~'
  three_le : 3 ≤ length
  isTag : ∀ c ∈ tag, isTagChar c = true
  inlineIndent : ∀ c ∈ indent, isInline c = true
  inlineGap : ∀ c ∈ gap, isInline c = true
  inlineBehind : ∀ c ∈ behind, isInline c = true

theorem isTagChar_iff : isTagChar c = true ↔
    isSpace c = false ∧ c ≠ '\x60' ∧ c ≠ '~' ∧ c ≠ '.' ∧ c ≠ '{' ∧ c ≠ ',' := by
  simp [isTagChar]

/-- The letters and digits of ASCII are characters of tags. -/
theorem isTagChar_of_isAlphanum (h : c.isAlphanum = true) : isTagChar c = true := by
  have hrange : 48 ≤ c.toNat ∧ c.toNat ≤ 57 ∨ 65 ≤ c.toNat ∧ c.toNat ≤ 90 ∨
      97 ≤ c.toNat ∧ c.toNat ≤ 122 := by
    have hval : c.val.toNat = c.toNat := rfl
    simp only [Char.isAlphanum, Char.isAlpha, Char.isUpper, Char.isLower, Char.isDigit,
      Bool.or_eq_true, Bool.and_eq_true, decide_eq_true_eq, UInt32.le_iff_toNat_le] at h
    simp [hval] at h
    omega
  have hspace : isSpace c = false := by
    simp only [isSpace, Bool.or_eq_false_iff, Bool.and_eq_false_iff, decide_eq_false_iff_not,
      beq_eq_false_iff_ne]
    omega
  have hne : ∀ d : Char, d.toNat < 48 ∨ 122 < d.toNat ∨ d.toNat = 96 → c ≠ d := by
    rintro d hd rfl
    omega
  refine isTagChar_iff.mpr ⟨hspace, ?_, ?_, ?_, ?_, ?_⟩ <;> exact hne _ (by decide)

theorem isInline_of_isTagChar (h : isTagChar c = true) : isInline c = false := by
  by_contra hinline
  have hspace := Text.isSpace_of_isInline (Bool.eq_true_of_not_eq_false hinline)
  rw [(isTagChar_iff.mp h).1] at hspace
  exact Bool.noConfusion hspace

namespace Opening

variable (o : Opening)

/-- The text of the line. -/
def text : Text := o.indent ++ (List.replicate o.length o.sign ++ (o.gap ++ (o.tag ++ o.behind)))

/-- The fence that the line is. -/
def fence : Fence := ⟨o.sign, o.length, o.tag⟩

/-- True if the tag names a language that is no script. -/
def isOther : Bool := otherLanguages.contains (Text.lowerAscii o.tag)

theorem isInline_sign : isInline o.sign = false := by
  obtain h | h := o.isSign <;> rw [h] <;> rfl

/-- No sign stands behind the signs, and no backtick. -/
theorem ne_of_mem_behind {d : Char} (hd : d = '\x60' ∨ d = '~')
    (hc : c ∈ o.gap ++ (o.tag ++ o.behind)) : c ≠ d := by
  have hinline : isInline c = true → c ≠ d := by
    rintro h rfl
    obtain rfl | rfl := hd <;> exact absurd h (by decide)
  obtain hc | hc := List.mem_append.mp hc
  · exact hinline (o.inlineGap c hc)
  · obtain hc | hc := List.mem_append.mp hc
    · obtain ⟨-, hbacktick, htilde, -⟩ := isTagChar_iff.mp (o.isTag c hc)
      obtain rfl | rfl := hd
      · exact hbacktick
      · exact htilde
    · exact hinline (o.inlineBehind c hc)

theorem trimBy_behind : Text.trimBy isInline (o.gap ++ (o.tag ++ o.behind)) = o.tag := by
  have htag : ∀ s : Text, (∀ c ∈ s, c ∈ o.tag) → Text.Stops isInline s := by
    intro s hs d hd
    exact isInline_of_isTagChar (o.isTag d (hs d (List.mem_of_mem_head? hd)))
  refine Text.trimBy_append o.inlineGap o.inlineBehind (htag _ fun _ => id) (htag _ fun c hc => ?_)
  exact List.mem_reverse.mp hc

theorem fence?_text : fence? o.text = some o.fence := by
  obtain ⟨n, hn⟩ : ∃ n, o.length = n + 1 := ⟨o.length - 1, by have := o.three_le; omega⟩
  have hsigns : List.replicate o.length o.sign ++ (o.gap ++ (o.tag ++ o.behind))
      = o.sign :: (List.replicate n o.sign ++ (o.gap ++ (o.tag ++ o.behind))) := by
    rw [hn, List.replicate_succ, List.cons_append]
  have hskip : Text.skipInline o.text
      = o.sign :: (List.replicate n o.sign ++ (o.gap ++ (o.tag ++ o.behind))) := by
    rw [text, hsigns]
    exact Text.dropWhile_append o.inlineIndent (Text.stops_cons.mpr o.isInline_sign)
  have hrest : (List.replicate n o.sign ++ (o.gap ++ (o.tag ++ o.behind))).dropWhile (· == o.sign)
      = o.gap ++ (o.tag ++ o.behind) := by
    refine Text.dropWhile_append (fun c hc => beq_iff_eq.mpr (List.eq_of_mem_replicate hc)) ?_
    intro c hc
    exact beq_eq_false_iff_ne.mpr (o.ne_of_mem_behind o.isSign (List.mem_of_mem_head? hc))
  have hbacktick : (o.gap ++ (o.tag ++ o.behind)).contains '\x60' = false := by
    rw [List.contains_eq_mem, decide_eq_false_iff_not]
    exact fun hmem => o.ne_of_mem_behind (Or.inl rfl) hmem rfl
  have hlength : (List.replicate n o.sign ++ (o.gap ++ (o.tag ++ o.behind))).length -
      (o.gap ++ (o.tag ++ o.behind)).length + 1 = o.length := by
    rw [List.length_append, List.length_replicate, Nat.add_sub_cancel, hn]
  have hsign : (o.sign == '\x60' || o.sign == '~') = true := by
    obtain h | h := o.isSign <;> rw [h] <;> rfl
  rw [fence?, hskip]
  dsimp only
  rw [hrest, hlength, hbacktick, hsign, o.trimBy_behind, decide_eq_true o.three_le]
  rfl

/-- A path has a dot, so a tag names none. -/
theorem pathIn?_tag : pathIn? o.tag = none := by
  have hnone : ∀ s : Text, (∀ c ∈ s, c ∈ o.tag) → pathIn? s = none := by
    intro s
    induction s with
    | nil => exact fun _ => rfl
    | cons c s ih =>
      intro hs
      have hdot : '.' ∉ c :: s := fun hmem => (isTagChar_iff.mp (o.isTag '.' (hs '.' hmem))).2.2.2.1 rfl
      have hpath : readPath (fun path rest => if Text.wordEnds rest then some path else none)
          (c :: s) = none := readPath_of_noDot hdot
      rw [pathIn?, hpath, ih fun d hd => hs d (List.mem_cons_of_mem c hd)]
      rfl
  exact hnone o.tag fun _ => id

theorem namesOtherLanguage_tag : namesOtherLanguage o.tag = o.isOther := by
  have hall : ∀ c ∈ o.tag, (!(isSpace c || c == '{' || c == ',')) = true := by
    intro c hc
    obtain ⟨hspace, -, -, -, hbrace, hcomma⟩ := isTagChar_iff.mp (o.isTag c hc)
    simp [hspace, hbrace, hcomma]
  rw [namesOtherLanguage, tagOf, List.takeWhile_eq_self_iff.mpr hall]
  rfl

end Opening

/-! ### Answers -/

/-- A block: the line that opens it, and lines of which none closes it and none is a marker. -/
structure CodeBlock where
  opening : Opening
  body : List Text
  isOpen : ∀ row ∈ body, opening.fence.closedBy row = false
  unmarked : ∀ row ∈ body, markerPath? row = none

namespace CodeBlock

/-- True if the block is code, whatever script it is. -/
def isKept (b : CodeBlock) : Bool := !b.opening.isOther

/-- True if some line of the block is not blank. -/
def hasContent (b : CodeBlock) : Bool := b.body.any fun row => !isBlankText row

/-- The lines of a block, without the one that closes it. -/
def rows (b : CodeBlock) : List Text := b.opening.text :: b.body

end CodeBlock

/-- A part of an answer: a line of prose, or a block and the line that closes it. -/
inductive Part where
  | prose (line : Text)
  | block (b : CodeBlock) (closing : Text) (closes : b.opening.fence.closedBy closing = true)

namespace Part

def rows : Part → List Text
  | prose line => [line]
  | block b closing _ => b.rows ++ [closing]

def block? : Part → Option CodeBlock
  | prose _ => none
  | block b _ _ => some b

/-- Every line of prose is no fence and names no file; up to the first block that is kept, none of
them looks like code. -/
def Fit (kept : Bool) : List Part → Prop
  | [] => True
  | prose line :: parts =>
    (fence? line = none ∧ headingPath? line = none ∧ (kept = false → looksLikeCode line = false)) ∧
      Fit kept parts
  | block b _ _ :: parts => Fit (kept || b.isKept) parts

end Part

/-- An answer of prose and blocks, the last of which need not be closed. -/
structure ChatAnswer where
  parts : List Part
  unclosed : Option CodeBlock
  fit : Part.Fit false parts
  oneLine : ∀ row ∈ parts.flatMap Part.rows ++ unclosed.toList.flatMap CodeBlock.rows, '\n' ∉ row
  noReturn : ∀ row ∈ parts.flatMap Part.rows ++ unclosed.toList.flatMap CodeBlock.rows, '\r' ∉ row

namespace ChatAnswer

variable (a : ChatAnswer)

def rows : List Text := a.parts.flatMap Part.rows ++ a.unclosed.toList.flatMap CodeBlock.rows

def text : Text := join ['\n'] a.rows

/-- The blocks of the answer, first one first. -/
def blocks : List CodeBlock := a.parts.filterMap Part.block? ++ a.unclosed.toList

/-- The blocks that are code. -/
def kept : List CodeBlock := a.blocks.filter CodeBlock.isKept

end ChatAnswer

/-! ### Reading block by block -/

namespace Reading

/-- The reading behind some blocks. -/
def behind (bs : List CodeBlock) : Reading where
  blocks := ((bs.filter CodeBlock.isKept).map fun b => ⟨none, b.body⟩).reverse
  hasContent := bs.any CodeBlock.hasContent

variable {bs : List CodeBlock} {f : Fence} {rows own : List Text}

/-- A line of prose leaves a reading as it is. -/
theorem readLine_prose (hinside : r.inside = none) (hfence : fence? line = none)
    (hheading : headingPath? line = none)
    (hcode : (r.blocks.isEmpty && looksLikeCode line) = false) : r.readLine line = some r := by
  obtain ⟨blocks, named, hasContent, inside⟩ := r
  dsimp only at hinside hcode
  subst hinside
  rw [readLine]
  dsimp only
  rw [hfence]
  dsimp only
  rw [hcode, hheading, Bool.false_and]
  rfl

theorem isEmpty_behind (bs : List CodeBlock) :
    (behind bs).blocks.isEmpty = !bs.any CodeBlock.isKept := by
  rw [behind, List.isEmpty_reverse, List.isEmpty_map, Bool.eq_iff_iff, List.isEmpty_iff,
    List.filter_eq_nil_iff]
  simp

theorem readLine_opening (o : Opening) (hr : r.inside = none) :
    r.readLine o.text = some { r with inside := some (o.fence, []) } := by
  rw [readLine, hr]
  dsimp only
  rw [o.fence?_text]

/-- Lines that do not close the open block belong to it. -/
theorem foldlM_body (h : ∀ row ∈ rows, f.closedBy row = false) :
    rows.foldlM readLine { r with inside := some (f, own) }
      = some { r with inside := some (f, rows.reverse ++ own) } := by
  induction rows generalizing own with
  | nil => rfl
  | cons row rows ih =>
    obtain ⟨hrow, hrows⟩ := List.forall_mem_cons.mp h
    have hstep : readLine { r with inside := some (f, own) } row
        = some { r with inside := some (f, row :: own) } := by
      rw [readLine]
      dsimp only
      rw [hrow]
      rfl
    rw [List.foldlM_cons, hstep, Option.bind_eq_bind, Option.bind_some, ih hrows,
      List.reverse_cons, List.append_assoc]
    rfl

theorem close_behind (bs : List CodeBlock) (b : CodeBlock) :
    ({ behind bs with inside := some (b.opening.fence, b.body.reverse) } : Reading).close
      = behind (bs ++ [b]) := by
  have hpath : pathIn? b.opening.fence.info = none := b.opening.pathIn?_tag
  have hother : namesOtherLanguage b.opening.fence.info = b.opening.isOther :=
    b.opening.namesOtherLanguage_tag
  have hcontent : (behind (bs ++ [b])).hasContent = ((behind bs).hasContent || b.hasContent) := by
    simp [behind]
  have hblocks : (behind (bs ++ [b])).blocks
      = if b.opening.isOther then (behind bs).blocks else ⟨none, b.body⟩ :: (behind bs).blocks := by
    cases hkept : b.opening.isOther <;> simp [behind, CodeBlock.isKept, hkept]
  rw [close]
  dsimp only
  rw [hpath, hother, List.reverse_reverse]
  show (⟨_, _, _, _⟩ : Reading)
    = ⟨(behind (bs ++ [b])).blocks, none, (behind (bs ++ [b])).hasContent, none⟩
  rw [hcontent, hblocks]
  rfl

theorem foldlM_rows (bs : List CodeBlock) (b : CodeBlock) :
    b.rows.foldlM readLine (behind bs)
      = some { behind bs with inside := some (b.opening.fence, b.body.reverse) } := by
  rw [CodeBlock.rows, List.foldlM_cons, readLine_opening b.opening rfl, Option.bind_eq_bind,
    Option.bind_some, foldlM_body b.isOpen, List.append_nil]

/-- The reading behind the parts of an answer is the one behind its blocks. -/
theorem foldlM_parts (bs : List CodeBlock) {parts : List Part}
    (h : Part.Fit (bs.any CodeBlock.isKept) parts) :
    (parts.flatMap Part.rows).foldlM readLine (behind bs)
      = some (behind (bs ++ parts.filterMap Part.block?)) := by
  induction parts generalizing bs with
  | nil =>
    rw [List.filterMap_nil, List.append_nil]
    rfl
  | cons part parts ih =>
    rw [List.flatMap_cons, List.foldlM_append]
    cases part with
    | prose line =>
      obtain ⟨⟨hfence, hheading, hcode⟩, hparts⟩ := h
      have hcode : ((behind bs).blocks.isEmpty && looksLikeCode line) = false := by
        rw [isEmpty_behind]
        cases hkept : bs.any CodeBlock.isKept with
        | false => rw [hcode hkept, Bool.and_false]
        | true => rfl
      rw [Part.rows, List.foldlM_cons, readLine_prose rfl hfence hheading hcode]
      exact ih bs hparts
    | block b closing closes =>
      have hkept : (bs ++ [b]).any CodeBlock.isKept = (bs.any CodeBlock.isKept || b.isKept) := by
        rw [List.any_append, List.any_cons, List.any_nil, Bool.or_false]
      have hclose : readLine { behind bs with inside := some (b.opening.fence, b.body.reverse) } closing
          = some (behind (bs ++ [b])) := by
        rw [readLine]
        dsimp only
        rw [if_pos closes, close_behind]
      rw [Part.rows, List.foldlM_append, foldlM_rows, Option.bind_eq_bind, Option.bind_some,
        List.foldlM_cons, hclose]
      rw [Part.Fit, ← hkept] at h
      have hblocks : bs ++ (Part.block b closing closes :: parts).filterMap Part.block?
          = bs ++ [b] ++ parts.filterMap Part.block? :=
        List.append_cons bs b (parts.filterMap Part.block?)
      rw [hblocks]
      exact ih (bs ++ [b]) h

/-- The reading of a whole answer. -/
theorem foldlM_answer (a : ChatAnswer) :
    (a.rows.foldlM readLine {}).map close = some (behind a.blocks) := by
  have hparts : (a.parts.flatMap Part.rows).foldlM readLine {}
      = some (behind ([] ++ a.parts.filterMap Part.block?)) := foldlM_parts [] a.fit
  rw [List.nil_append] at hparts
  rw [ChatAnswer.rows, List.foldlM_append, ChatAnswer.blocks]
  rw [hparts, Option.bind_eq_bind, Option.bind_some]
  cases a.unclosed with
  | none =>
    simp only [Option.toList_none, List.flatMap_nil, List.append_nil]
    rfl
  | some b =>
    simp only [Option.toList_some, List.flatMap_cons, List.flatMap_nil, List.append_nil]
    rw [foldlM_rows, Option.map_some, close_behind]

end Reading

/-! ### The code of an answer -/

variable {rows : List Text}

/-- An empty line at the end is blank, so it does not matter whether it is one. -/
theorem trimRows_concat_nil (rows : List Text) : trimRows (rows ++ [[]]) = trimRows rows := by
  have hback : ∀ rows : List Text,
      ([] :: rows).dropWhile isBlankText = rows.dropWhile isBlankText := fun _ => rfl
  rw [trimRows, trimRows, List.dropWhile_append]
  split
  · rename_i hblank
    rw [List.isEmpty_iff.mp hblank]
    rfl
  · rw [List.reverse_concat, hback]

/-- It does not matter whether the last line is ended. -/
theorem trimBlankLines_join (h : ∀ row ∈ rows, '\n' ∉ row)
    (hreturn : ∀ row ∈ rows, row.getLast? ≠ some '\r') :
    trimBlankLines (join ['\n'] rows) = trimBlankLines (unlines rows) := by
  rw [trimBlankLines_eq, trimBlankLines_eq, Text.lines_unlines h hreturn]
  by_cases hlast : rows.getLast? = some []
  · obtain ⟨front, rfl⟩ := List.getLast?_eq_some_iff.mp hlast
    have hfront : ∀ row ∈ front, row ∈ front ++ [[]] := fun _ => List.mem_append_left _
    rw [Text.join_concat, List.append_nil, trimRows_concat_nil,
      Text.lines_unlines (fun row hrow => h row (hfront row hrow))
        fun row hrow => hreturn row (hfront row hrow)]
  · rw [Text.lines_join h hreturn hlast]

/-- Code without markers loses the blank lines at its ends and nothing else. -/
theorem normalize_of_unmarked {raw : Text} {blocks : List Block}
    (hblocks : blocks? (unifyNewlines raw) = some blocks)
    (hlines : blocks.flatMap Block.lines = rows) (h : ∀ row ∈ rows, '\n' ∉ row)
    (hreturn : ∀ row ∈ rows, row.getLast? ≠ some '\r')
    (hunmarked : ∀ row ∈ rows, markerPath? row = none) :
    normalize raw = ⟨trimBlankLines (unlines rows), [], false, blocks.length⟩ := by
  have hkept : rows.filterMap (plainLine? false) = rows := by
    rw [filterMap_plainLine, List.filter_eq_self]
    intro row hrow
    rw [hunmarked row hrow]
    rfl
  unfold normalize
  dsimp only
  rw [hblocks]
  dsimp only
  rw [hlines, Text.lines_unlines h hreturn, markersFrom_eq_nil hunmarked]
  show (⟨trimBlankLines (join ['\n'] (rows.filterMap (plainLine? false))), [], false, _⟩ : Normalized)
    = _
  rw [hkept, trimBlankLines_join h hreturn]

namespace ChatAnswer

variable (a : ChatAnswer) {row : Text}

/-- The lines of the blocks are lines of the answer. -/
theorem mem_rows_of_mem_body {b : CodeBlock} (hb : b ∈ a.blocks) (hrow : row ∈ b.body) :
    row ∈ a.rows := by
  have hrows : row ∈ b.rows := List.mem_cons_of_mem _ hrow
  obtain hb | hb := List.mem_append.mp hb
  · obtain ⟨part, hpart, hblock⟩ := List.mem_filterMap.mp hb
    refine List.mem_append_left _ (List.mem_flatMap.mpr ⟨part, hpart, ?_⟩)
    cases part with
    | prose line => cases hblock
    | block b' closing closes =>
      cases hblock
      exact List.mem_append_left _ hrows
  · exact List.mem_append_right _ (List.mem_flatMap.mpr ⟨b, hb, hrows⟩)

theorem noReturn_text : '\r' ∉ a.text := by
  intro hmem
  have hcount : 0 < (join ['\n'] a.rows).count '\r' := List.count_pos_iff.mpr hmem
  rw [List.count, Text.countP_join (by decide)] at hcount
  obtain ⟨row, hrow, hreturn⟩ := List.mem_flatten.mp (List.count_pos_iff.mp hcount)
  exact a.noReturn row hrow hreturn

/-- The blocks that are read are the ones of the answer that are code. -/
theorem blocks?_text (hcontent : a.blocks.any CodeBlock.hasContent = true) :
    blocks? a.text = some (a.kept.map fun b => ⟨none, b.body⟩) := by
  have hne : a.rows ≠ [] := by
    intro hnil
    obtain ⟨b, hb, hrow⟩ := List.any_eq_true.mp hcontent
    obtain ⟨row, hrow, -⟩ := List.any_eq_true.mp hrow
    have hmem := a.mem_rows_of_mem_body hb hrow
    rw [hnil] at hmem
    cases hmem
  obtain ⟨r, hread, hclose⟩ := Option.map_eq_some_iff.mp (Reading.foldlM_answer a)
  rw [blocks?, text, Text.fields_join hne a.oneLine, hread, Option.bind_some]
  dsimp only
  rw [hclose]
  have hcontent : (Reading.behind a.blocks).hasContent = true := hcontent
  rw [if_pos hcontent, Reading.behind, List.reverse_reverse]
  rfl

/-- **Of an answer exactly the code is kept.**  What is left are the bodies of the blocks that are
code, one behind the other and without the blank lines at both ends; nothing of the prose gets into
it, and nothing in it is a marker. -/
theorem normalize_text (hcontent : ∃ b ∈ a.blocks, ∃ row ∈ b.body, isBlankText row = false) :
    normalize a.text
      = ⟨trimBlankLines (a.kept.flatMap fun b => unlines b.body), [], false, a.kept.length⟩ := by
  have hany : a.blocks.any CodeBlock.hasContent = true := by
    obtain ⟨b, hb, row, hrow, hblank⟩ := hcontent
    refine List.any_eq_true.mpr ⟨b, hb, List.any_eq_true.mpr ⟨row, hrow, ?_⟩⟩
    rw [hblank]
    rfl
  have hblocks := a.blocks?_text hany
  rw [← Text.unifyNewlines_of_noReturn a.noReturn_text] at hblocks
  have hlines : (a.kept.map fun b => (⟨none, b.body⟩ : Block)).flatMap Block.lines
      = a.kept.flatMap CodeBlock.body := by
    rw [List.flatMap_map]
    rfl
  have hcode : (a.kept.flatMap fun b => unlines b.body) = unlines (a.kept.flatMap CodeBlock.body) := by
    rw [unlines, List.flatMap_assoc]
    rfl
  have hrows : ∀ row ∈ a.kept.flatMap CodeBlock.body, row ∈ a.rows ∧ markerPath? row = none := by
    intro row hrow
    obtain ⟨b, hb, hrow⟩ := List.mem_flatMap.mp hrow
    exact ⟨a.mem_rows_of_mem_body (List.mem_of_mem_filter hb) hrow, b.unmarked row hrow⟩
  rw [hcode, normalize_of_unmarked hblocks hlines (fun row hrow => a.oneLine row (hrows row hrow).1)
    (fun row hrow hlast => a.noReturn row (hrows row hrow).1 (List.mem_of_getLast? hlast))
    fun row hrow => (hrows row hrow).2, List.length_map]

/-- Prose, code, a block that is no script, prose that looks like code, and a block that nothing
closes and in which a shorter fence stands. -/
theorem normalize_text_mixed :
    ∃ a : ChatAnswer,
      a.text = ("Hi:\n\x60\x60\x60tsx\nlet a;\n\x60\x60\x60\n\x60\x60\x60sh\nnpm i\n\x60\x60\x60\n" ++
        "let me know;\n~~~~\n~~~\nb").toList ∧
      (∃ b ∈ a.blocks, ∃ row ∈ b.body, isBlankText row = false) ∧
      normalize a.text = ⟨"let a;\n~~~\nb\n".toList, [], false, 2⟩ := by
  let script : CodeBlock :=
    { opening := ⟨[], '\x60', 3, [], "tsx".toList, [], Or.inl rfl, by decide,
        fun c hc => isTagChar_of_isAlphanum (List.all_eq_true.mp (by decide) c hc),
        List.forall_mem_nil _, List.forall_mem_nil _, List.forall_mem_nil _⟩
      body := ["let a;".toList]
      isOpen := by decide +kernel
      unmarked := by decide +kernel }
  let shell : CodeBlock :=
    { opening := ⟨[], '\x60', 3, [], "sh".toList, [], Or.inl rfl, by decide,
        fun c hc => isTagChar_of_isAlphanum (List.all_eq_true.mp (by decide) c hc),
        List.forall_mem_nil _, List.forall_mem_nil _, List.forall_mem_nil _⟩
      body := ["npm i".toList]
      isOpen := by decide +kernel
      unmarked := by decide +kernel }
  let last : CodeBlock :=
    { opening := ⟨[], '~', 4, [], [], [], Or.inr rfl, by decide, List.forall_mem_nil _,
        List.forall_mem_nil _, List.forall_mem_nil _, List.forall_mem_nil _⟩
      body := ["~~~".toList, "b".toList]
      isOpen := by decide +kernel
      unmarked := by decide +kernel }
  let a : ChatAnswer :=
    { parts := [.prose "Hi:".toList, .block script "\x60\x60\x60".toList (by decide +kernel),
        .block shell "\x60\x60\x60".toList (by decide +kernel), .prose "let me know;".toList]
      unclosed := some last
      fit := ⟨by decide +kernel, by decide +kernel, trivial⟩
      oneLine := by decide +kernel
      noReturn := by decide +kernel }
  have hcontent : ∃ b ∈ a.blocks, ∃ row ∈ b.body, isBlankText row = false :=
    ⟨script, List.mem_cons_self, "let a;".toList, List.mem_cons_self, by decide +kernel⟩
  refine ⟨a, by decide +kernel, hcontent, ?_⟩
  rw [a.normalize_text hcontent]
  decide +kernel

end ChatAnswer

end LivePreview.Answer
