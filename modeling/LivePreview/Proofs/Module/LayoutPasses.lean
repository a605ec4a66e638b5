/-
Passes that take statements out.

A pass goes over the lines of a program.  Of a line it sees only the statement at its start: if its
reader takes it, the line goes on with what stands behind it, or is gone; otherwise the line stays.
What a reader sees does not depend on the lines behind, because none of them starts with `from`.
-/
import LivePreview.Proofs.Module.LayoutStart
import LivePreview.Proofs.Module.Removal

namespace LivePreview.Module.Layout

open Script
open Text (LineEnds linesAvoid Heeds Stops Piece pieces replaceFindings)

variable {α : Type} {find : Text → Option (α × Text)} {takes : Whole → Bool} {s e : Text}

/-! ### Behind a statement -/

theorem Head.skipInline_before (h : Head) (s : Text) :
    Text.skipInline (h.before ++ s) = Text.skipInline s :=
  List.dropWhile_append_of_pos (List.all_eq_true.mp h.inlineBefore)

theorem Head.skipInline_behind (h : Head) (s : Text) :
    Text.skipInline (h.behind ++ s) = Text.skipInline s :=
  List.dropWhile_append_of_pos (List.all_eq_true.mp h.inlineBehind)

/-- What remains behind the end of a line, if one stands here. -/
def afterBreak : Text → Text
  | '\r' :: '\n' :: t => t
  | '\n' :: t => t
  | t => t

/-- What remains behind a semicolon, if one stands here. -/
def afterSemicolon : Text → Text
  | ';' :: t => Text.skipInline t
  | t => t

theorem skipEnd_eq (s : Text) : skipEnd s = afterBreak (afterSemicolon (Text.skipInline s)) := rfl

theorem afterSemicolon_of_ne (h : s.head? ≠ some ';') : afterSemicolon s = s := by
  unfold afterSemicolon
  split
  · exact absurd rfl h
  · rfl

/-- What ends a statement is passed over with it. -/
theorem Head.skipEnd_ending (h : Head) (hs : Stops isInline s)
    (hsemi : h.semicolon = true ∨ s.head? ≠ some ';') : skipEnd (h.ending ++ s) = afterBreak s := by
  have hstop : Text.skipInline s = s := Text.skipInline_of_stops hs
  have htext : Text.skipInline (h.ending ++ s)
      = Text.skipInline (Module.semicolon h.semicolon ++ (h.behind ++ s)) := by
    rw [ending, List.append_assoc, List.append_assoc, h.skipInline_before]
  cases hsemicolon : h.semicolon with
  | true =>
    have hbehind : afterSemicolon (Text.skipInline (h.ending ++ s)) = s := by
      rw [htext, hsemicolon]
      exact (h.skipInline_behind s).trans hstop
    rw [skipEnd_eq, hbehind]
  | false =>
    rw [hsemicolon] at htext hsemi
    have hbehind : Text.skipInline (h.ending ++ s) = s :=
      htext.trans ((h.skipInline_behind s).trans hstop)
    rw [skipEnd_eq, hbehind, afterSemicolon_of_ne (hsemi.resolve_left Bool.false_ne_true)]

/-- Text that goes on with a line does not end it. -/
theorem Rest.goesOn_append {semicolon : Bool} (h : Rest.goesOn semicolon s = true) (e : Text) :
    Stops isInline (s ++ e) ∧ (semicolon = true ∨ (s ++ e).head? ≠ some ';') ∧
      afterBreak (s ++ e) = s ++ e := by
  unfold Rest.goesOn at h
  split at h
  · cases h
  · cases h
  · cases h
  · rename_i c t hpair hsingle
    simp only [Bool.and_eq_true, Bool.not_eq_true', bne_iff_ne, Bool.or_eq_true] at h
    obtain ⟨⟨hinline, hnewline⟩, hsemicolon⟩ := h
    refine ⟨Text.stops_cons.mpr hinline, hsemicolon.imp_right fun hne heq => ?_, ?_⟩
    · exact hne (Option.some.inj heq)
    · rw [List.cons_append]
      unfold afterBreak
      split
      · rename_i u heq
        obtain ⟨rfl, htail⟩ := List.cons.inj heq
        cases t with
        | nil => exact absurd rfl (hsingle rfl)
        | cons d t =>
          obtain ⟨rfl, -⟩ := List.cons.inj htail
          exact absurd rfl (hpair t rfl)
      · rename_i heq
        exact absurd (List.cons.inj heq).1 hnewline
      · rfl

/-- At the end of a line the end is passed over too, if it is one. -/
theorem Head.skipEnd_lineEnds (h : Head) {rest : Text} (hrest : rest = [] ∨ rest = ['\r'])
    (he : LineEnds e) : skipEnd (h.ending ++ (rest ++ e)) = if e.isEmpty then rest else e.tail := by
  have hend : Stops isInline (rest ++ e) ∧ (rest ++ e).head? ≠ some ';' ∧
      afterBreak (rest ++ e) = if e.isEmpty then rest else e.tail := by
    obtain rfl | rfl := hrest <;> cases he <;> exact ⟨by simp [isInline], by simp, rfl⟩
  obtain ⟨hstops, hsemicolon, hbreak⟩ := hend
  rw [h.skipEnd_ending hstops (Or.inr hsemicolon), hbreak]

/-! ### Statements at the start of a line -/

/-- A statement that is taken out starts with a word. -/
theorem Whole.exists_cons (w : Whole) (s : Text) :
    ∃ c t, w.text ++ s = c :: t ∧ (c = 'i' ∨ c = 'e') := by
  cases w with
  | importFrom => exact ⟨'i', _, rfl, Or.inl rfl⟩
  | importSource => exact ⟨'i', _, rfl, Or.inl rfl⟩
  | exportList => exact ⟨'e', _, rfl, Or.inr rfl⟩
  | exportAll => exact ⟨'e', _, rfl, Or.inr rfl⟩

theorem Front.exists_cons (f : Front) (s : Text) : ∃ t, f.text ++ s = 'e' :: t := by
  cases f <;> exact ⟨_, rfl⟩

theorem headsText_cons (h : Head) (hs : List Head) (s : Text) :
    headsText (h :: hs) ++ s = h.statement.text ++ (h.ending ++ (headsText hs ++ s)) := by
  simp only [headsText, List.flatMap_cons, Head.text, List.append_assoc]

theorem fromSource?_blanks {b : Text} (hb : ∀ c ∈ b, isSpace c = true) (s : Text) :
    fromSource? (b ++ s) = fromSource? s := by
  have hskip : Text.skipSpaces (b ++ s) = Text.skipSpaces s := List.dropWhile_append_of_pos hb
  rw [fromSource?, hskip]
  rfl

theorem isSpace_of_inline {b : Text} (hb : b.all isInline = true) : ∀ c ∈ b, isSpace c = true :=
  fun c hc => Text.isSpace_of_isInline (List.all_eq_true.mp hb c hc)

theorem Head.fromSource?_ending (h : Head) (hs : fromSource? s = none) :
    fromSource? (h.ending ++ s) = none := by
  rw [ending, List.append_assoc, List.append_assoc,
    fromSource?_blanks (isSpace_of_inline h.inlineBefore)]
  cases h.semicolon with
  | true => rfl
  | false =>
    rw [← hs]
    exact fromSource?_blanks (isSpace_of_inline h.inlineBehind) s

namespace Line

variable (l : Line)

theorem text_append (s : Text) :
    l.text ++ s = l.indent ++ (headsText l.heads ++ (l.last.text ++ s)) := by
  simp only [text, List.append_assoc]

theorem tail_text : l.tail.text = headsText l.heads.tail ++ l.last.text := rfl

theorem text_of_cons {first : Head} {hs : List Head} (hheads : l.heads = first :: hs) :
    l.text = l.indent ++ first.text ++ l.tail.text := by
  rw [text, tail_text, hheads, headsText_cons, List.tail_cons, Head.text]
  simp only [List.append_assoc]

/-- No line starts with `from` and a source. -/
theorem fromSource?_text (he : LineEnds e) (h : fromSource? e = none) :
    fromSource? (l.text ++ e) = none := by
  rw [text_append, fromSource?_blanks (isSpace_of_inline l.inline)]
  cases l.heads with
  | cons first hs =>
    rw [headsText_cons]
    obtain ⟨c, t, htext, rfl | rfl⟩ := first.statement.exists_cons
      (first.ending ++ (headsText hs ++ (l.last.text ++ e)))
    · rw [htext]
      rfl
    · rw [htext]
      rfl
  | nil =>
    show fromSource? (l.last.text ++ e) = none
    cases l.last with
    | ended carriageReturn =>
      cases carriageReturn with
      | true => exact (fromSource?_blanks (b := ['\r']) (List.all_eq_true.mp (by decide)) e).trans h
      | false => exact h
    | plain text avoids notFrom =>
      obtain hblank | hnone := notFrom
      · exact (fromSource?_blanks (List.all_eq_true.mp hblank) e).trans h
      · exact hnone e he
    | front statement =>
      obtain ⟨t, htext⟩ := statement.exists_cons e
      show fromSource? (statement.text ++ e) = none
      rw [htext]
      rfl

/-- What stands behind the first statement goes on with the line, unless the line ends there. -/
theorem goesOn_tail {first : Head} {hs : List Head} (hheads : l.heads = first :: hs)
    (hends : l.endsThere = false) : Rest.goesOn first.semicolon l.tail.text = true := by
  have hletter : ∀ c t, (c = 'i' ∨ c = 'e') → Rest.goesOn first.semicolon (c :: t) = true := by
    rintro c t (rfl | rfl)
    · unfold Rest.goesOn
      cases first.semicolon <;> rfl
    · unfold Rest.goesOn
      cases first.semicolon <;> rfl
  rw [tail_text, hheads, List.tail_cons]
  cases hs with
  | cons second hs =>
    rw [headsText_cons]
    obtain ⟨c, t, htext, hc⟩ := second.statement.exists_cons
      (second.ending ++ (headsText hs ++ l.last.text))
    rw [htext]
    exact hletter c t hc
  | nil =>
    have hjoins : l.last.joins first.semicolon = true := l.joins first (by rw [hheads]; rfl)
    rw [endsThere, hheads] at hends
    have hend : l.last.isEnd = false := hends
    show Rest.goesOn first.semicolon l.last.text = true
    cases hlast : l.last with
    | ended carriageReturn =>
      rw [hlast] at hend
      cases hend
    | plain text avoids notFrom =>
      rw [hlast] at hjoins
      exact hjoins
    | front statement =>
      obtain ⟨t, htext⟩ := statement.exists_cons []
      rw [List.append_nil] at htext
      show Rest.goesOn first.semicolon statement.text = true
      rw [htext]
      exact hletter 'e' t (Or.inr rfl)

/-- Where a line ends behind its first statement, a carriage return is all that can be left of
it. -/
theorem tail_text_of_endsThere (hends : l.endsThere = true) :
    l.tail.text = [] ∨ l.tail.text = ['\r'] := by
  rw [endsThere, Bool.and_eq_true, List.isEmpty_iff] at hends
  obtain ⟨htail, hend⟩ := hends
  rw [tail_text, htail]
  cases hlast : l.last with
  | ended carriageReturn =>
    cases carriageReturn with
    | false => exact Or.inl rfl
    | true => exact Or.inr rfl
  | plain text avoids notFrom =>
    rw [hlast] at hend
    cases hend
  | front statement =>
    rw [hlast] at hend
    cases hend

end Line

/-- A line without statements does not start as a module statement does. -/
theorem Line.opensModule_text (l : Line) (hheads : l.heads = [])
    (hlast : ∀ statement, l.last ≠ .front statement) : opensModule l.text = false := by
  have hskip : Text.skipInline l.text = Text.skipInline l.last.text := by
    rw [text, hheads]
    exact List.dropWhile_append_of_pos (List.all_eq_true.mp l.inline)
  have hindent : opensModule l.text = opensModule l.last.text := by
    rw [opensModule, opensModule, opensStatement, opensStatement, callsImport, callsImport,
      afterImport?, afterImport?, hskip]
  rw [hindent]
  cases hl : l.last with
  | ended carriageReturn => cases carriageReturn <;> rfl
  | plain text avoids notFrom => exact Text.test_of_linesAvoid rfl avoids
  | front statement => exact absurd hl (hlast statement)

namespace Program

theorem linesText_cons (l : Line) (closed : List Line) (last : Line) :
    linesText (l :: closed) last = l.text ++ '\n' :: linesText closed last := by
  simp [linesText, List.append_assoc]

theorem fromSource?_linesText (closed : List Line) (last : Line) :
    fromSource? ('\n' :: linesText closed last) = none := by
  have hnewline : ∀ s, fromSource? ('\n' :: s) = fromSource? s :=
    fromSource?_blanks (b := ['\n']) (List.all_eq_true.mp (by decide))
  rw [hnewline]
  induction closed with
  | nil =>
    have hlast := last.fromSource?_text .nil rfl
    rwa [List.append_nil] at hlast
  | cons l closed ih =>
    rw [linesText_cons]
    exact l.fromSource?_text (.newline _) ((hnewline _).trans ih)

end Program

/-! ### Passes over lines -/

/-- A reader that takes of the statements at the start of a line those that `takes` says, and of no
statement the first words alone. -/
structure TakesWhole (find : Text → Option (α × Text)) (takes : Whole → Bool) : Prop where
  heeds : Heeds opensModule find
  whole : ∀ {indent : Text}, indent.all isInline = true → ∀ w s, fromSource? s = none →
    (find (indent ++ (w.text ++ s))).map Prod.snd = if takes w then some (skipEnd s) else none
  front : ∀ {indent : Text}, indent.all isInline = true → ∀ (f : Front) s,
    find (indent ++ (f.text ++ s)) = none

namespace TakesWhole

variable (hf : TakesWhole find takes) (l : Line)

include hf

/-- In a line that starts with no statement that is taken out, nothing is found. -/
theorem find_of_nil (hheads : l.heads = []) (he : LineEnds e) : find (l.text ++ e) = none := by
  cases hlast : l.last with
  | front statement =>
    rw [l.text_append, hheads, hlast]
    exact hf.front l.inline statement e
  | ended carriageReturn =>
    refine hf.heeds.none_of_false ?_
    rw [opensModule_append he, l.opensModule_text hheads (by rw [hlast]; nofun)]
  | plain text avoids notFrom =>
    refine hf.heeds.none_of_false ?_
    rw [opensModule_append he, l.opensModule_text hheads (by rw [hlast]; nofun)]

/-- A pass keeps a line, or what stands behind its first statement. -/
theorem replace_line (he : LineEnds e) (hfrom : fromSource? e = none) :
    replaceFindings find (fun _ => []) (l.text ++ e)
      = (match l.passBy takes with
        | some l' => l'.text ++ e.take 1
        | none => if e.isEmpty then l.tail.text else [])
        ++ replaceFindings find (fun _ => []) e.tail := by
  have hkept : find (l.text ++ e) = none → replaceFindings find (fun _ => []) (l.text ++ e)
      = (l.text ++ e.take 1) ++ replaceFindings find (fun _ => []) e.tail := by
    intro hnone
    rw [replaceFindings, hf.heeds.pieces_of_none he hnone l.avoids, List.flatMap_append,
      Text.flatMap_passed]
    rfl
  cases hheads : l.heads with
  | nil =>
    simp only [Line.passBy, hheads]
    exact hkept (hf.find_of_nil l hheads he)
  | cons first hs =>
    have hsource : fromSource? (first.ending ++ (l.tail.text ++ e)) = none :=
      first.fromSource?_ending (l.tail.fromSource?_text he hfrom)
    have hfound := hf.whole l.inline first.statement _ hsource
    have hline : l.text ++ e = l.indent ++ first.text ++ (l.tail.text ++ e) := by
      rw [l.text_of_cons hheads, List.append_assoc]
    have htext : l.indent ++ (first.statement.text ++ (first.ending ++ (l.tail.text ++ e)))
        = l.text ++ e := by
      rw [hline, Head.text]
      simp only [List.append_assoc]
    rw [htext] at hfound
    by_cases htakes : takes first.statement = true
    case neg =>
      rw [if_neg htakes, Option.map_eq_none_iff] at hfound
      simp only [Line.passBy, hheads, htakes]
      exact hkept hfound
    rw [if_pos htakes, Option.map_eq_some_iff] at hfound
    obtain ⟨⟨found, rest⟩, hfound, rfl⟩ := hfound
    have hfront : l.indent ++ first.text ≠ [] := by
      obtain ⟨c, t, hcons, -⟩ := first.statement.exists_cons first.ending
      rw [Head.text, hcons]
      simp
    -- what is found ends in front of the rest of the line, if there is any
    have hrest : skipEnd (first.ending ++ (l.tail.text ++ e)) = l.tail.text ++ e →
        replaceFindings find (fun _ => []) (l.text ++ e)
          = (l.tail.text ++ e.take 1) ++ replaceFindings find (fun _ => []) e.tail := by
      intro hskip
      have havoids : linesAvoid opensModule false (l.indent ++ first.text ++ l.tail.text) = true :=
        l.text_of_cons hheads ▸ l.avoids
      have havoids := Text.linesAvoid_behind havoids
      rw [Text.startsBehind_of_ne_nil hfront false true] at havoids
      rw [hskip, hline] at hfound
      rw [replaceFindings, hline, hf.heeds.pieces_of_front he hfront hfound havoids,
        List.cons_append, List.flatMap_cons, List.flatMap_append, Text.flatMap_passed]
      rfl
    cases hends : l.endsThere with
    | false =>
      obtain ⟨hstops, hsemicolon, hbreak⟩ := Rest.goesOn_append (l.goesOn_tail hheads hends) e
      simp only [Line.passBy, hheads, htakes, hends, if_true, Bool.false_eq_true, if_false]
      refine hrest ?_
      rw [first.skipEnd_ending hstops hsemicolon, hbreak]
    | true =>
      simp only [Line.passBy, hheads, htakes, hends, if_true]
      have hskip := first.skipEnd_lineEnds (l.tail_text_of_endsThere hends) he
      cases he with
      | nil => simpa using hrest (hskip.trans (List.append_nil _).symm)
      | newline t =>
        rw [hskip] at hfound
        have hne : l.text ≠ [] := by
          rw [l.text_of_cons hheads]
          exact List.append_ne_nil_of_left_ne_nil hfront _
        rw [replaceFindings, Text.Heeds.pieces_of_all (.newline t) hne hfound]
        rfl

/-- **A pass takes the first statement of each line that its reader takes.** -/
theorem remove_text (p : Program) : (remove find p.text).1 = (p.passBy takes).text := by
  obtain ⟨closed, last⟩ := p
  show replaceFindings find (fun _ => []) (Program.linesText closed last)
    = Program.linesText (closed.filterMap (Line.passBy takes))
      ((last.passBy takes).getD last.tail)
  induction closed with
  | nil =>
    have hline := hf.replace_line last .nil rfl
    rw [List.append_nil] at hline
    show replaceFindings find (fun _ => []) last.text = ((last.passBy takes).getD last.tail).text
    rw [hline]
    cases last.passBy takes with
    | none => exact List.append_nil _
    | some l => exact (List.append_nil _).trans (List.append_nil _)
  | cons l closed ih =>
    have hline := hf.replace_line l (.newline (Program.linesText closed last))
      (Program.fromSource?_linesText closed last)
    rw [Program.linesText_cons, hline, List.filterMap_cons, List.tail_cons, ih]
    cases l.passBy takes with
    | none => rfl
    | some l =>
      rw [Program.linesText_cons]
      exact List.append_assoc _ _ _

end TakesWhole

/-! ### The passes -/

/-- First words that stay go on with a letter that opens neither a list nor a star. -/
theorem Front.exists_text (f : Front) (indent s : Text) : ∃ (g : Gap) (c : Char) (t : Text),
    indent ++ (f.text ++ s) = indent ++ ("export".toList ++ (g.text ++ c :: t)) ∧
      c ∈ "dfclva".toList := by
  cases f with
  | default gap blanks value blank =>
    refine ⟨gap, 'd', "efault".toList ++ (blanks ++ (value.text ++ s)), ?_, by decide⟩
    show indent ++ ("export".toList ++ (gap.text ++ ("default".toList ++ (blanks ++ value.text)))
      ++ s) = _
    simp only [List.append_assoc]
    rfl
  | declaration gap opening tail ends =>
    obtain ⟨c, w, hopening, hc⟩ : ∃ c w, opening.text = c :: w ∧ c ∈ "dfclva".toList := by
      cases opening <;> exact ⟨_, _, rfl, by decide⟩
    refine ⟨gap, c, w ++ (tail ++ s), ?_, hc⟩
    show indent ++ ("export".toList ++ (gap.text ++ (opening.text ++ tail)) ++ s) = _
    rw [hopening]
    simp only [List.append_assoc, List.cons_append]

theorem ne_of_mem_openings {c : Char} (h : c ∈ "dfclva".toList) :
    isSpace c = false ∧ c ≠ '{' ∧ c ≠ 't' ∧ c ≠ '*' ∧ c ≠ '=' := by
  have hcases : c = 'd' ∨ c = 'f' ∨ c = 'c' ∨ c = 'l' ∨ c = 'v' ∨ c = 'a' := by simpa using h
  obtain rfl | rfl | rfl | rfl | rfl | rfl := hcases <;> decide

theorem map_snd_eq {o : Option (α × Text)} {b : Bool} {rest : Text}
    (h : ∃ found, o = if b then some (found, rest) else none) :
    o.map Prod.snd = if b then some rest else none := by
  obtain ⟨found, rfl⟩ := h
  cases b <;> rfl

section

variable (heeds : Heeds opensModule find)

include heeds

/-- A reader of imports. -/
theorem takesWhole_import (hexport : ∀ s, afterImport? s = none → find s = none)
    (himportFrom : ∀ {indent : Text}, indent.all isInline = true → ∀ b g source s,
      (find (indent ++ ((Whole.importFrom b g source).text ++ s))).map Prod.snd
        = if takes (.importFrom b g source) then some (skipEnd s) else none)
    (himportSource : ∀ {indent : Text}, indent.all isInline = true → ∀ g source s,
      (find (indent ++ ((Whole.importSource g source).text ++ s))).map Prod.snd
        = if takes (.importSource g source) then some (skipEnd s) else none)
    (htakes : ∀ w : Whole, w.form = .exportList ∨ w.form = .exportAll → takes w = false) :
    TakesWhole find takes where
  heeds := heeds
  whole {indent} h w s _ := by
    cases w with
    | importFrom b g source => exact himportFrom h b g source s
    | importSource g source => exact himportSource h g source s
    | exportList g list source inBraces =>
      rw [htakes _ (Or.inl rfl), text_exportList, hexport _ (afterImport?_export h)]
      rfl
    | exportAll g renamed behind source =>
      rw [htakes _ (Or.inr rfl), text_exportAll, hexport _ (afterImport?_export h)]
      rfl
  front {indent} h f s := by
    obtain ⟨g, c, t, htext, -⟩ := f.exists_text indent s
    rw [htext]
    exact hexport _ (afterImport?_export h)

/-- A reader of exports. -/
theorem takesWhole_export (himport : ∀ s, afterExport? s = none → find s = none)
    (hexportList : ∀ {indent : Text}, indent.all isInline = true → ∀ g list source inBraces s,
      fromSource? s = none →
      (find (indent ++ ((Whole.exportList g list source inBraces).text ++ s))).map Prod.snd
        = if takes (.exportList g list source inBraces) then some (skipEnd s) else none)
    (hexportAll : ∀ {indent : Text}, indent.all isInline = true → ∀ g renamed behind source s,
      (find (indent ++ ((Whole.exportAll g renamed behind source).text ++ s))).map Prod.snd
        = if takes (.exportAll g renamed behind source) then some (skipEnd s) else none)
    (hfront : ∀ {indent : Text}, indent.all isInline = true → ∀ (g : Gap) c t,
      c ∈ "dfclva".toList → find (indent ++ ("export".toList ++ (g.text ++ c :: t))) = none)
    (htakes : ∀ w : Whole, w.form = .importFrom ∨ w.form = .importSource → takes w = false) :
    TakesWhole find takes where
  heeds := heeds
  whole {indent} h w s hs := by
    cases w with
    | importFrom b g source =>
      rw [htakes _ (Or.inl rfl), text_importFrom, himport _ (afterExport?_import h)]
      rfl
    | importSource g source =>
      rw [htakes _ (Or.inr rfl), text_importSource, himport _ (afterExport?_import h)]
      rfl
    | exportList g list source inBraces => exact hexportList h g list source inBraces s hs
    | exportAll g renamed behind source => exact hexportAll h g renamed behind source s
  front {indent} h f s := by
    obtain ⟨g, c, t, htext, hc⟩ := f.exists_text indent s
    rw [htext]
    exact hfront h g c t hc

end

theorem takesWhole_importRequire : TakesWhole importRequire? fun _ => false :=
  takesWhole_import heeds_importRequire (fun _ hs => by rw [importRequire?, hs]; rfl)
    (fun h b g source s => by rw [importRequire?_importFrom h b g source s]; rfl)
    (fun h g source s => by rw [importRequire?_importSource h g source s]; rfl) fun _ _ => rfl

theorem takesWhole_importFrom :
    TakesWhole importFrom? fun w => w.form = .importFrom && w.isRead :=
  takesWhole_import heeds_importFrom (fun _ hs => by rw [importFrom?, hs]; rfl)
    (fun h b g source s => map_snd_eq (importFrom?_importFrom h b g source s))
    (fun h g source s => by rw [importFrom?_importSource h g source s]; rfl)
    fun w hw => by obtain hw | hw := hw <;> rw [hw] <;> rfl

theorem takesWhole_importSource :
    TakesWhole importSource? fun w => w.form = .importSource && w.isRead :=
  takesWhole_import heeds_importSource (fun _ hs => by rw [importSource?, hs]; rfl)
    (fun h b g source s => by rw [importSource?_importFrom h b g source s]; rfl)
    (fun h g source s => map_snd_eq (importSource?_importSource h g source s))
    fun w hw => by obtain hw | hw := hw <;> rw [hw] <;> rfl

theorem takesWhole_exportList :
    TakesWhole exportList? fun w => w.form = .exportList && w.isRead :=
  takesWhole_export heeds_exportList (fun _ hs => by rw [exportList?, hs]; rfl)
    (fun h g list source inBraces s hs =>
      map_snd_eq (exportList?_exportList h g list source inBraces fun _ => hs))
    (fun h g renamed behind source s => by
      rw [exportList?_of_comesTo (comesTo_exportAll h g renamed behind source s) (by decide)
        (by decide)]
      rfl)
    (fun h g c t hc =>
      have ⟨hspace, hbrace, ht, _⟩ := ne_of_mem_openings hc
      exportList?_of_comesTo (comesTo_export h g hspace) hbrace ht)
    fun w hw => by obtain hw | hw := hw <;> rw [hw] <;> rfl

theorem takesWhole_exportStar :
    TakesWhole exportStar? fun w => w.form = .exportAll && w.isRead :=
  takesWhole_export heeds_exportStar (fun _ hs => by rw [exportStar?, hs]; rfl)
    (fun h g list source inBraces s _ => by
      rw [exportStar?_of_comesTo (comesTo_exportList h g list source inBraces s) (by decide)]
      rfl)
    (fun h g renamed behind source s =>
      map_snd_eq ⟨(), exportStar?_exportAll h g renamed behind source s⟩)
    (fun h g c t hc =>
      have ⟨hspace, _, _, hstar, _⟩ := ne_of_mem_openings hc
      exportStar?_of_comesTo (comesTo_export h g hspace) hstar)
    fun w hw => by obtain hw | hw := hw <;> rw [hw] <;> rfl

theorem takesWhole_exportAssign : TakesWhole exportAssign? fun _ => false :=
  takesWhole_export heeds_exportAssign (fun _ hs => by rw [exportAssign?, hs]; rfl)
    (fun h g list source inBraces s _ => by
      rw [exportAssign?_exportList h g list source inBraces s]
      rfl)
    (fun h g renamed behind source s => by
      rw [exportAssign?_exportAll h g renamed behind source s]
      rfl)
    (fun h g c t hc =>
      have ⟨hspace, _, _, _, hequals⟩ := ne_of_mem_openings hc
      exportAssign?_export h g hspace hequals)
    fun _ _ => rfl

/-- A pass that takes nothing leaves a program as it is. -/
theorem Program.passBy_false (p : Program) : p.passBy (fun _ => false) = p := by
  have hline : ∀ l : Line, l.passBy (fun _ => false) = some l := by
    intro l
    unfold Line.passBy
    split <;> rfl
  have hlines : p.closed.filterMap (Line.passBy fun _ => false) = p.closed := by
    rw [show (Line.passBy fun _ => false) = some from funext hline, List.filterMap_some]
  rw [passBy, hlines, hline]
  rfl

/-- **What the passes that take statements out leave of a program is a program.** -/
theorem unstated_text (p : Program) :
    unstated p.text = ((((p.pass .importFrom).pass .importSource).pass .exportList).pass
      .exportAll).text := by
  unfold unstated
  rw [takesWhole_importRequire.remove_text, Program.passBy_false,
    takesWhole_importFrom.remove_text, takesWhole_importSource.remove_text,
    takesWhole_exportList.remove_text, takesWhole_exportStar.remove_text,
    takesWhole_exportAssign.remove_text, Program.passBy_false]
  rfl

end LivePreview.Module.Layout
