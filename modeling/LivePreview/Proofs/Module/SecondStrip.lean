/-
Taking statements out again.

A pass looks at line starts only, and goes on behind what it took out.  So what stood behind a
statement on its line comes to the line start for the passes that follow, and for the next run,
which may find a statement there.  `mentions` counts the places where the letters of `import` or
`export` stand.  Two facts are needed of it.

  * Where a run finds something, the code mentions less than before: what is found starts with one
    of the two words, and what is written in its place brings no new one, also not together with
    the rest of its line.
  * Code without a mention has no statement that any pass finds.

So a second run leaves the code exactly if no reader finds anything in it, and as many runs as the
code has mentions are enough.
-/
import LivePreview.Proofs.Module.LayoutRows
import LivePreview.Proofs.Module.Removal

namespace LivePreview.Module

open Text (LineEnds Piece firstLine findings pieces piecesFrom replaceFindings startsBehind)
open Layout (Written WrittenDeclaration WrittenExpression written_nameDeclarations
  written_nameExpressions written_replaceFindings)

variable {α : Type} {find : Text → Option (α × Text)} {write : α → Text → Prop}
  {s t u v w rest : Text}

/-! ### Mentions -/

/-- True if the letters of `import` or `export` stand here. -/
def startsMention (s : Text) : Bool :=
  (Text.after? "import".toList s).isSome || (Text.after? "export".toList s).isSome

/-- How often the letters of `import` or `export` stand in a text. -/
def mentions : Text → Nat
  | [] => 0
  | c :: s => (startsMention (c :: s)).toNat + mentions s

theorem startsMention_append_right (h : startsMention s = true) (t : Text) :
    startsMention (s ++ t) = true := by
  have hword : ∀ {lit : Text}, (Text.after? lit s).isSome = true →
      (Text.after? lit (s ++ t)).isSome = true := by
    intro lit hlit
    obtain ⟨r, hr⟩ := Option.isSome_iff_exists.mp hlit
    rw [Text.eq_append_of_after? hr, List.append_assoc, Text.after?_append_self]
    rfl
  unfold startsMention at h ⊢
  rw [Bool.or_eq_true] at h ⊢
  exact h.imp hword hword

/-- Only the first line tells if the letters stand here. -/
theorem startsMention_congr (h : firstLine s = firstLine t) : startsMention s = startsMention t := by
  have hline : ∀ s, startsMention s = startsMention (firstLine s) := by
    intro s
    have hends := Text.lineEnds_skipLine s
    obtain ⟨e, he⟩ : ∃ e, Text.skipLine s = e := ⟨_, rfl⟩
    rw [he] at hends
    nth_rewrite 1 [← Text.firstLine_append_skipLine s]
    unfold startsMention
    rw [he, Layout.after?_lineEnds hends (by decide), Layout.after?_lineEnds hends (by decide),
      Option.isSome_map, Option.isSome_map]
  rw [hline s, hline t, h]

theorem mentions_append_le (s t : Text) : mentions s + mentions t ≤ mentions (s ++ t) := by
  induction s with
  | nil => rw [List.nil_append, mentions, Nat.zero_add]
  | cons c s ih =>
    have hstart : (startsMention (c :: s)).toNat ≤ (startsMention (c :: (s ++ t))).toNat := by
      by_cases h : startsMention (c :: s) = true
      · have happend : startsMention (c :: (s ++ t)) = true := startsMention_append_right h t
        rw [h, happend]
      · rw [Bool.eq_false_of_not_eq_true h]
        exact Nat.zero_le _
    rw [List.cons_append, mentions, mentions]
    omega

theorem mentions_le_of_suffix (h : s <:+ t) : mentions s ≤ mentions t := by
  obtain ⟨front, rfl⟩ := h
  have happend := mentions_append_le front s
  omega

/-- A text mentions no more in front of one text than of another that starts with the same line. -/
theorem mentions_append_congr (h : firstLine t = firstLine v) (u : Text) :
    mentions (u ++ t) + mentions v = mentions (u ++ v) + mentions t := by
  induction u with
  | nil => exact Nat.add_comm _ _
  | cons c u ih =>
    have hline : firstLine (c :: (u ++ t)) = firstLine (c :: (u ++ v)) := by
      unfold firstLine at h ⊢
      rw [← List.cons_append, ← List.cons_append, List.takeWhile_append, List.takeWhile_append, h]
    rw [List.cons_append, List.cons_append, mentions, mentions, startsMention_congr hline]
    omega

/-- A blank tells two texts apart. -/
theorem mentions_space (s t : Text) : mentions (s ++ ' ' :: t) = mentions s + mentions t := by
  have hspace : startsMention (' ' :: t) = false := rfl
  induction s with
  | nil =>
    show (startsMention (' ' :: t)).toNat + mentions t = 0 + mentions t
    rw [hspace, Bool.toNat_false]
  | cons c s ih =>
    have hstart : startsMention (c :: (s ++ ' ' :: t)) = startsMention (c :: s) := by
      unfold startsMention
      rw [← List.cons_append, Text.after?_append_cons (by decide), Text.after?_append_cons (by decide),
        Option.isSome_map, Option.isSome_map]
    rw [List.cons_append, mentions, mentions, hstart, ih]
    omega

/-- True of a character that neither word starts with. -/
def startsNeither (c : Char) : Bool := c != 'i' && c != 'e'

theorem mentions_skip (h : u.all startsNeither = true) (s : Text) :
    mentions (u ++ s) = mentions s := by
  induction u with
  | nil => rfl
  | cons c u ih =>
    rw [List.all_cons, Bool.and_eq_true, startsNeither, Bool.and_eq_true, bne_iff_ne, bne_iff_ne] at h
    obtain ⟨⟨hi, he⟩, hlater⟩ := h
    have himport : Text.after? "import".toList (c :: (u ++ s)) = none := if_neg hi.symm
    have hexport : Text.after? "export".toList (c :: (u ++ s)) = none := if_neg he.symm
    rw [List.cons_append, mentions, startsMention, himport, hexport, ih hlater]
    exact Nat.zero_add _

theorem mentions_inline (h : ∀ c ∈ u, isInline c = true) (s : Text) :
    mentions (u ++ s) = mentions s := by
  refine mentions_skip (List.all_eq_true.mpr fun c hc => ?_) s
  have hinline := h c hc
  simp only [isInline, Bool.or_eq_true, beq_iff_eq] at hinline
  obtain rfl | rfl := hinline <;> decide

theorem all_startsNeither_digits (n : Nat) : (Text.ofNat n).all startsNeither = true := by
  refine List.all_eq_true.mpr fun c hc => ?_
  have hdigit := Text.isDigit_of_mem_ofNat hc
  rw [startsNeither, Bool.and_eq_true, bne_iff_ne, bne_iff_ne]
  constructor <;> rintro rfl <;> exact absurd hdigit (by decide)

/-- A name that is given to a default export mentions nothing, whatever stands behind it. -/
theorem mentions_anonymousName (n : Nat) (s : Text) : mentions (anonymousName n ++ s) = mentions s := by
  have hname : ∀ s, mentions ("DefaultExport".toList ++ s) = mentions s := by
    intro s
    have hrest : "faultExport".toList.all startsNeither = true := by decide
    have hstart : startsMention ('e' :: ("faultExport".toList ++ s)) = false := rfl
    -- the second letter is one that a word starts with
    have hletter : mentions ('e' :: ("faultExport".toList ++ s))
        = mentions ("faultExport".toList ++ s) := by
      rw [mentions, hstart]
      exact Nat.zero_add _
    have hfirst : mentions ("DefaultExport".toList ++ s)
        = mentions ('e' :: ("faultExport".toList ++ s)) :=
      mentions_skip (u := ['D']) (by decide) _
    rw [hfirst, hletter, mentions_skip hrest]
  unfold anonymousName
  rw [List.append_assoc, hname]
  split
  · rfl
  · exact mentions_skip (all_startsNeither_digits n) s

/-! ### What a finding takes away -/

/-- What stands behind one of the words has one mention less. -/
theorem BehindWord.mentions_lt (h : BehindWord s rest) : mentions rest < mentions s := by
  have hword : ∀ {c : Char} {w t : Text}, Text.after? (c :: w) (Text.skipInline s) = some t →
      startsMention (c :: (w ++ t)) = true → mentions t < mentions s := by
    intro c w t hafter hstart
    have hsuffix := Text.suffix_skipInline s
    rw [Text.eq_append_of_after? hafter, List.cons_append] at hsuffix
    have hle := mentions_le_of_suffix hsuffix
    have happend := mentions_append_le w t
    rw [mentions, hstart, Bool.toNat_true] at hle
    omega
  obtain ⟨t, himport | hexport, hrest⟩ := h
  · exact (mentions_le_of_suffix hrest).trans_lt (hword himport rfl)
  · exact (mentions_le_of_suffix hrest).trans_lt (hword hexport rfl)

/-- `t` can be what becomes of the rest `rest` of `s`: its first line is the same, unless what is
found ends with a line. -/
def Continues (s rest t : Text) : Prop :=
  ∀ front, s = front ++ rest → startsBehind true front = false → firstLine t = firstLine rest

/-- What is written for a finding, with what becomes of the rest, mentions less than before. -/
structure Unmentions (find : Text → Option (α × Text)) (write : α → Text → Prop) : Prop where
  behind : ∀ {s a rest}, find s = some (a, rest) → BehindWord s rest
  less : ∀ {s a rest w t}, find s = some (a, rest) → write a w → Continues s rest t →
    mentions (w ++ t) + mentions rest < mentions s + mentions t

/-- A character that is passed keeps its line, and with it whether a mention starts there. -/
theorem mentions_passed {c : Char} {n : Nat} (hline : c ≠ '\n' → firstLine t = firstLine s)
    (h : mentions t + n ≤ mentions s) :
    firstLine (c :: t) = firstLine (c :: s) ∧ mentions (c :: t) + n ≤ mentions (c :: s) := by
  have hsame : firstLine (c :: t) = firstLine (c :: s) := by
    unfold firstLine at hline ⊢
    by_cases hc : c = '\n'
    · rw [hc]
      rfl
    · rw [List.takeWhile_cons, List.takeWhile_cons, hline hc]
  refine ⟨hsame, ?_⟩
  rw [mentions, mentions, startsMention_congr hsame]
  omega

theorem mentions_written {b : Bool} (hfind : Unmentions find write)
    (h : Written write (piecesFrom find b 0 s) t) :
    (b = false → firstLine t = firstLine s) ∧
      mentions t + ((piecesFrom find b 0 s).filterMap Piece.finding?).length ≤ mentions s := by
  -- on the length of the text, since a finding skips a piece of it
  induction hn : s.length using Nat.strong_induction_on generalizing s t b with
  | _ n ih =>
    cases s with
    | nil =>
      cases h
      exact ⟨fun _ => rfl, Nat.le_refl 0⟩
    | cons c s =>
      by_cases hfound : b = true ∧ ∃ a rest, find (c :: s) = some (a, rest)
      · obtain ⟨rfl, a, rest, hfound⟩ := hfound
        have hless := (hfind.behind hfound).mentions_lt
        obtain ⟨front, hfront⟩ := (hfind.behind hfound).cutOff.suffix
        have hne : front ≠ [] := by
          rintro rfl
          rw [← hfront, List.nil_append] at hless
          omega
        have hpieces : piecesFrom find true 0 (c :: s)
            = .found a :: piecesFrom find (startsBehind true front) 0 rest := by
          rw [← hfront] at hfound ⊢
          exact Text.pieces_found hne hfound
        rw [hpieces] at h ⊢
        cases h with
        | @found _ t w _ ha h =>
          have hlength : rest.length < n := by
            have hpos := List.length_pos_iff.mpr hne
            rw [← hn, ← hfront, List.length_append]
            omega
          obtain ⟨hline, hlater⟩ := ih _ hlength h rfl
          have hwritten := hfind.less (t := t) hfound ha fun front' hfront' hstarts => by
            rw [← hfront] at hfront'
            rw [← List.append_cancel_right hfront'] at hstarts
            exact hline hstarts
          refine ⟨nofun, ?_⟩
          have hcount : ∀ ps, (Piece.found a :: ps).filterMap Piece.finding?
              = a :: ps.filterMap Piece.finding? := fun _ => rfl
          rw [hcount, List.length_cons]
          omega
      · have hnone : b = true → find (c :: s) = none := by
          intro hb
          cases hfind : find (c :: s) with
          | none => rfl
          | some found => exact absurd ⟨hb, found.1, found.2, hfind⟩ hfound
        rw [Text.piecesFrom_cons_of_none hnone] at h ⊢
        cases h with
        | @passed _ t _ h =>
          obtain ⟨hline, hlater⟩ := ih _ (by rw [← hn]; exact Nat.lt_succ_self _) h rfl
          have hcount : ∀ ps : List (Piece α), (Piece.passed c :: ps).filterMap Piece.finding?
              = ps.filterMap Piece.finding? := fun _ => rfl
          rw [hcount]
          obtain ⟨hsame, hle⟩ :=
            mentions_passed (fun hc => hline (beq_eq_false_iff_ne.mpr hc)) hlater
          exact ⟨fun _ => hsame, hle⟩

theorem spared_of_written (hfind : Unmentions find write) (h : Written write (pieces find s) t) :
    Spared mentions find s t := by
  by_cases hnone : findings find s = []
  · left
    rw [Text.pieces_of_findings_eq_nil hnone] at h
    rw [← List.append_nil (s.map Piece.passed)] at h
    obtain ⟨t, rfl, hnil⟩ := h.exists_passed
    cases hnil
    exact ⟨hnone, List.append_nil s⟩
  · right
    have hpos : 0 < (findings find s).length := List.length_pos_iff.mpr hnone
    have hle := (mentions_written hfind h).2
    unfold findings pieces at hpos
    omega

/-! ### The passes -/

/-- A pass that takes out what it finds. -/
theorem spared_mentions_remove (find : Text → Option (α × Text))
    (h : ∀ s a rest, find s = some (a, rest) → BehindWord s rest) (s : Text) :
    Spared mentions find s (remove find s).1 := by
  have hfind : Unmentions find fun _ w => w = [] := by
    refine ⟨h _ _ _, ?_⟩
    rintro s a rest w t hfound rfl -
    have hless := (h s a rest hfound).mentions_lt
    rw [List.nil_append]
    omega
  refine spared_of_written hfind ?_
  unfold remove replaceFindings
  dsimp only
  induction pieces find s with
  | nil => exact .nil
  | cons p ps ih =>
    cases p with
    | passed c => exact .passed c ih
    | found a => exact .found rfl ih

/-- Where what is found ends with a word, the rest of the line stays. -/
theorem Continues.firstLine_eq (h : Continues s rest t) (hw : w ++ rest <:+ s) (hne : w ≠ [])
    (hline : '\n' ∉ w) : firstLine t = firstLine rest := by
  obtain ⟨front, hs⟩ := hw
  refine h (front ++ w) (by rw [← hs, List.append_assoc]) ?_
  have hstarts : ∀ {front : Text} (b : Bool), startsBehind b (front ++ w) = false := by
    intro front
    induction front with
    | nil => exact Text.startsBehind_of_noNewline hline hne
    | cons c front ih => exact fun _ => ih (c == '\n')
  exact hstarts true

theorem BehindWord.of_suffix (h : BehindWord s t) (hrest : rest <:+ t) : BehindWord s rest := by
  obtain ⟨r, hword, ht⟩ := h
  exact ⟨r, hword, hrest.trans ht⟩

theorem exists_word_of_exportedDeclaration? {kept : Text}
    (h : exportedDeclaration? s = some (kept, rest)) :
    ∃ w, w ++ rest <:+ s ∧ w ≠ [] ∧ '\n' ∉ w := by
  simp only [exportedDeclaration?, Option.bind_eq_bind, Option.bind_eq_some_iff] at h
  obtain ⟨start, hstart, behind, hbehind, h⟩ := h
  cases h
  obtain ⟨w, hw, hsuffix⟩ := exists_word_of_afterDeclarationWords? hbehind
  have hstart : start <:+ s :=
    (behindWord_export (Option.bind_eq_some_iff.mpr hstart) List.suffix_rfl).cutOff.suffix
  have hwords : ∀ w ∈ declarationWords, w ≠ [] ∧ '\n' ∉ w := by decide +kernel
  exact ⟨w, (hsuffix.trans (suffix_skipWord _ start)).trans hstart, hwords w hw⟩

theorem unmentions_exportedDeclaration : Unmentions exportedDeclaration? fun a w => w = a where
  behind h := by
    obtain ⟨words, -, hbehind⟩ := behindWord_exportedDeclaration? h
    exact hbehind.of_suffix (List.suffix_append words _)
  less := by
    rintro s kept rest w t hfound rfl hcontinues
    obtain ⟨words, hkept, hbehind⟩ := behindWord_exportedDeclaration? hfound
    obtain ⟨u, hu, hne, hline⟩ := exists_word_of_exportedDeclaration? hfound
    have hcongr := mentions_append_congr (hcontinues.firstLine_eq hu hne hline) words
    have hless := hbehind.mentions_lt
    have hindent := mentions_inline (fun c hc => List.mem_takeWhile_imp hc) (words ++ t)
      (u := indentOf s)
    rw [hkept, List.append_assoc, hindent]
    omega

theorem unmentions_defaultExpression : Unmentions defaultExpression? WrittenExpression where
  behind h := (behindWord_defaultExpression? h).1
  less := by
    rintro s d rest w t hfound hwritten -
    obtain ⟨hbehind, hindent⟩ := behindWord_defaultExpression? hfound
    have hless := hbehind.mentions_lt
    have htext : mentions (w ++ t) = mentions t := by
      obtain ⟨-, rfl⟩ | ⟨-, n, rfl⟩ := hwritten
      · rfl
      · have hconst : "const ".toList.all startsNeither = true := by decide
        have hequals : " = ".toList.all startsNeither = true := by decide
        simp only [List.append_assoc]
        rw [mentions_inline hindent, mentions_skip hconst, mentions_anonymousName,
          mentions_skip hequals]
    omega

theorem mentions_trimEnd_le (s : Text) : mentions (Text.trimEnd s) ≤ mentions s := by
  have hprefix : Text.trimEnd s <+: s := by
    have hsuffix := List.reverse_prefix.mpr (List.dropWhile_suffix (l := s.reverse) isSpace)
    rwa [List.reverse_reverse] at hsuffix
  obtain ⟨t, ht⟩ := hprefix
  have happend := mentions_append_le (Text.trimEnd s) t
  rw [ht] at happend
  omega

theorem noNewline_name_of_defaultDeclaration? {d : DefaultDeclaration}
    (h : defaultDeclaration? s = some (d, rest)) : '\n' ∉ d.name := by
  simp only [defaultDeclaration?, Option.bind_eq_bind, Option.bind_eq_some_iff] at h
  obtain ⟨start, -, behind, -, h⟩ := h
  cases h
  intro hmem
  dsimp only at hmem
  split at hmem
  · exact absurd (List.mem_takeWhile_imp hmem) (by decide)
  · cases hmem

theorem unmentions_defaultDeclaration : Unmentions defaultDeclaration? WrittenDeclaration where
  behind h := (behindWord_defaultDeclaration? h).1.of_suffix (List.suffix_append _ _)
  less := by
    rintro s d rest w t hfound hwritten hcontinues
    obtain ⟨hbehind, hindent⟩ := behindWord_defaultDeclaration? hfound
    have hless := hbehind.mentions_lt
    have hsuffix := hbehind.cutOff.suffix
    have hline : '\n' ∉ d.name := noNewline_name_of_defaultDeclaration? hfound
    have hcongr : ∀ u, d.name ≠ [] →
        mentions (u ++ d.name ++ t) + mentions rest = mentions (u ++ d.name ++ rest) + mentions t := by
      intro u hne
      refine mentions_append_congr (hcontinues.firstLine_eq ?_ hne hline) _
      rw [List.append_assoc] at hsuffix
      exact (List.suffix_append (d.head ++ d.gap) _).trans hsuffix
    obtain ⟨hnamed, rfl⟩ | ⟨-, n, rfl⟩ := hwritten
    · have hne : d.name ≠ [] := by
        intro hnil
        rw [hnil] at hnamed
        cases hnamed
      have hwords := hcongr (d.head ++ d.gap) hne
      have htext : d.indent ++ d.head ++ d.gap ++ d.name ++ t
          = d.indent ++ (d.head ++ d.gap ++ d.name ++ t) := by
        simp only [List.append_assoc]
      rw [htext, mentions_inline hindent]
      omega
    · have hname : mentions (d.name ++ t) + mentions rest
          = mentions (d.name ++ rest) + mentions t := by
        by_cases hnil : d.name = []
        · rw [hnil, List.nil_append, List.nil_append, Nat.add_comm]
        · exact hcongr [] hnil
      have hbehindName : mentions ((if d.name.isEmpty then [] else ' ' :: d.name) ++ t)
          = mentions (d.name ++ t) := by
        split
        · rename_i hempty
          rw [List.isEmpty_iff.mp hempty]
        · exact Nat.zero_add _
      have htext : mentions (d.indent ++ Text.trimEnd d.head ++ ' ' :: anonymousName n ++
            (if d.name.isEmpty then [] else ' ' :: d.name) ++ t)
          = mentions (Text.trimEnd d.head) + mentions (d.name ++ t) := by
        have hassoc : d.indent ++ Text.trimEnd d.head ++ ' ' :: anonymousName n ++
              (if d.name.isEmpty then [] else ' ' :: d.name) ++ t
            = d.indent ++ (Text.trimEnd d.head ++ ' ' :: (anonymousName n ++
              ((if d.name.isEmpty then [] else ' ' :: d.name) ++ t))) := by
          simp only [List.append_assoc, List.cons_append]
        rw [hassoc, mentions_inline hindent, mentions_space, mentions_anonymousName, hbehindName]
      have hhead := mentions_trimEnd_le d.head
      have happend := mentions_append_le d.head (d.gap ++ (d.name ++ rest))
      have hgap := mentions_le_of_suffix (List.suffix_append d.gap (d.name ++ rest))
      simp only [List.append_assoc] at hless
      omega

/-! ### Runs -/

/-- Where a run finds something, the code mentions less than before. -/
theorem holdsNoStatement_or_mentions_lt (code : Text) :
    HoldsNoStatement code ∨ mentions (strip code).code < mentions code := by
  have hspared := @spared_strip code mentions spared_mentions_remove
    (spared_of_written unmentions_defaultDeclaration (written_nameDeclarations _ _))
    (spared_of_written unmentions_defaultExpression (written_nameExpressions _ _)) (by
      rw [strip_code]
      exact spared_of_written unmentions_exportedDeclaration (written_replaceFindings _ _))
  by_cases hle : mentions code ≤ mentions (strip code).code
  · exact Or.inl (hspared.2 hle)
  · exact Or.inr (Nat.lt_of_not_le hle)

/-- A run leaves the code exactly if no reader finds anything in it. -/
theorem strip_code_eq_iff (code : Text) : (strip code).code = code ↔ HoldsNoStatement code := by
  constructor
  · intro hsame
    refine (holdsNoStatement_or_mentions_lt code).resolve_right fun hlt => ?_
    rw [hsame] at hlt
    exact Nat.lt_irrefl _ hlt
  · intro hnone
    rw [strip_of_holdsNoStatement hnone]

/-- The code behind `n` runs. -/
def stripTimes : Nat → Text → Text
  | 0, code => code
  | n + 1, code => stripTimes n (strip code).code

theorem stripTimes_of_holdsNoStatement {code : Text} (h : HoldsNoStatement code) (n : Nat) :
    stripTimes n code = code := by
  induction n with
  | zero => rfl
  | succ n ih => rw [stripTimes, strip_of_holdsNoStatement h, ih]

theorem holdsNoStatement_stripTimes {code : Text} {n : Nat} (h : mentions code ≤ n) :
    HoldsNoStatement (stripTimes n code) := by
  induction n generalizing code with
  | zero =>
    obtain hnone | hlt := holdsNoStatement_or_mentions_lt code
    · exact hnone
    · omega
  | succ n ih =>
    obtain hnone | hlt := holdsNoStatement_or_mentions_lt code
    · rw [stripTimes_of_holdsNoStatement hnone]
      exact hnone
    · exact ih (by omega)

/-- **Running it again.**  A second run leaves the code of the first exactly if no reader finds
anything in it, and then it has no names and no imports to report.  Behind as many runs as the code
has mentions of `import` and `export` this is so, in particular behind one run of code with one
mention. -/
theorem strip_again (code : Text) :
    ((strip (strip code).code).code = (strip code).code ↔ HoldsNoStatement (strip code).code) ∧
    (HoldsNoStatement (strip code).code →
      strip (strip code).code = ⟨(strip code).code, [], []⟩) ∧
    ∀ n, mentions code ≤ n → strip (stripTimes n code) = ⟨stripTimes n code, [], []⟩ :=
  ⟨strip_code_eq_iff _, strip_of_holdsNoStatement,
    fun _ hn => strip_of_holdsNoStatement (holdsNoStatement_stripTimes hn)⟩

/-- Of two imports on one line the second is left for the second run, and nothing for a third. -/
theorem strip_again_oneLine :
    let code := "import a from 'a'; import b from 'b';\nlet c = 1;\n".toList
    (strip code).code = "import b from 'b';\nlet c = 1;\n".toList ∧
      ¬HoldsNoStatement (strip code).code ∧
      strip (stripTimes 2 code) = ⟨"let c = 1;\n".toList, [], []⟩ := by
  intro code
  have hfirst : (strip code).code = "import b from 'b';\nlet c = 1;\n".toList := by decide +kernel
  have hsecond : stripTimes 2 code = "let c = 1;\n".toList := by decide +kernel
  obtain ⟨hiff, -, hruns⟩ := strip_again code
  refine ⟨hfirst, fun hnone => ?_, ?_⟩
  · have hsame : stripTimes 2 code = (strip code).code := hiff.mpr hnone
    rw [hfirst, hsecond] at hsame
    exact absurd hsame (by decide)
  · have hmentions : mentions code ≤ 2 := by decide +kernel
    rw [← hsecond]
    exact hruns 2 hmentions

end LivePreview.Module
