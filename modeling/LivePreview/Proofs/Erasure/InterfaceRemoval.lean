/-
What is removed with an interface.

The body of an interface is looked for from its name on, and the first brace is taken for the brace
that opens it, whatever stands in front of that brace.  So an interface without a brace or a
semicolon in its header goes as a whole, and nothing behind it is touched.  A brace in the header,
be it of an object type or in a string, ends the interface with the group that it opens: the rest of
the header and the body stay and are erased like code.  A semicolon in the header leaves the whole
interface there.
-/
import LivePreview.Proofs.Erasure.Resumption

namespace LivePreview.Erasure

open Script
open Text (Stops)

/-! ### Where the body is looked for -/

/-- The text from its first brace or semicolon on. -/
def fromBrace (s : Text) : Text := s.dropWhile fun c => c != '{' && c != ';'

/-- True of a text that `fromBrace` passes over. -/
def HasNoBrace (s : Text) : Prop := ∀ c ∈ s, c ≠ '{' ∧ c ≠ ';'

theorem HasNoBrace.fromBrace_append {s t : Text} (hs : HasNoBrace s) :
    fromBrace (s ++ t) = fromBrace t := by
  induction s with
  | nil => rfl
  | cons c s ih =>
    obtain ⟨hbrace, hsemi⟩ := hs c (List.mem_cons_self ..)
    have hrest : HasNoBrace s := fun d hd => hs d (List.mem_cons_of_mem _ hd)
    rw [List.cons_append, fromBrace, List.dropWhile_cons_of_pos (by simp [hbrace, hsemi])]
    exact ih hrest

theorem HasNoBrace.of_isWord {w : Text} (hw : IsWord w) : HasNoBrace w := by
  intro c hc
  have hident := hw.identChars c hc
  constructor <;> rintro rfl <;> exact absurd hident (by decide)

theorem suffix_fromBrace (s : Text) : fromBrace s <:+ s := List.dropWhile_suffix _

/-- An interface ends with the group that its first brace opens. -/
theorem interfaceRest?_eq (s : Text) :
    interfaceRest? s = (afterGroup? (fromBrace s)).map skipSemicolon := by
  unfold interfaceRest?
  dsimp only
  rw [← fromBrace]
  split
  · rfl
  · rename_i hstart
    have hstop : Stops (fun c => c != '{' && c != ';') (fromBrace s) := Text.stops_dropWhile _ s
    cases hbrace : fromBrace s with
    | nil => rfl
    | cons c t =>
      rw [hbrace] at hstart hstop
      have hne : c ≠ '{' := by simpa [startsWithChar] using hstart
      obtain rfl : c = ';' := by simpa [hne] using hstop
      rfl

/-! ### Interfaces -/

/-- An interface.  Its header, which is all that stands between its name and its body, is any text:
type parameters, the word `extends` and types, or nothing. -/
structure InterfaceDecl extends DeclaredName where
  header : Text
  body : Text
  balanced : leave [.group .curly] (body ++ ['\x7d']) = some []

namespace InterfaceDecl

variable (d : InterfaceDecl) (r : Text)

/-- What stands behind the name, up to the end of the code. -/
def behindName : Text := d.header ++ '{' :: (d.body ++ '\x7d' :: r)

/-- The interface at the start of a text, and that text behind it. -/
def before : Text := d.text "interface".toList ++ d.behindName r

/-- The word `interface` is stepped over with the interface, if one is found. -/
theorem step_before : (Eraser.start (d.before r)).step = .ok
    (match afterGroup? (fromBrace (d.behindName r)) with
    | some rest =>
      ((Eraser.bare (d.before r)).erase .interfaceDecl (skipSemicolon rest)).inCode {} (.sign ';')
    | none =>
      ((Eraser.bare (d.before r)).keep (d.gap ++ (d.name ++ d.behindName r))).inCode {}
        (.word "interface".toList)) := by
  have hword : IsWord "interface".toList := isWord_of_all rfl (by decide)
  have hrest : (Eraser.bare (d.before r)).rest
      = "interface".toList ++ (d.gap ++ (d.name ++ d.behindName r)) := d.text_append _ _
  have hbody : interfaceRest? (d.name ++ d.behindName r)
      = (afterGroup? (fromBrace (d.behindName r))).map skipSemicolon := by
    rw [interfaceRest?_eq, (HasNoBrace.of_isWord d.isWord).fromBrace_append]
  rw [before, d.step_text hword, ← before]
  unfold Eraser.stepWord
  dsimp only
  rw [hrest, hword.ident_append d.stops_isIdentChar_gap,
    hword.skipIdent_append d.stops_isIdentChar_gap, d.skipBlanks_gap, d.isSome_word?, hbody]
  cases afterGroup? (fromBrace (d.behindName r)) <;> rfl

/-- The body is found if nothing in the header hides it. -/
theorem afterGroup?_body (hheader : HasNoBrace d.header) :
    afterGroup? (fromBrace (d.behindName r)) = some r := by
  have hgroup : afterGroup? ('{' :: (d.body ++ ['\x7d'])) = some [] := d.balanced
  have hbrace : ∀ s, fromBrace ('{' :: s) = '{' :: s := fun _ => rfl
  have htext : '{' :: (d.body ++ '\x7d' :: r) = '{' :: (d.body ++ ['\x7d']) ++ r := by simp
  rw [behindName, hheader.fromBrace_append, hbrace, htext, afterGroup?_append r hgroup]
  rfl

/-- A group in the header hides the body: what is found behind the group is the rest of the
header. -/
theorem afterGroup?_header {front inside back : Text}
    (hheader : d.header = front ++ '{' :: inside ++ '\x7d' :: back) (hfront : HasNoBrace front)
    (hinside : leave [.group .curly] (inside ++ ['\x7d']) = some []) :
    afterGroup? (fromBrace (d.behindName r)) = some (back ++ '{' :: (d.body ++ '\x7d' :: r)) := by
  have hgroup : afterGroup? ('{' :: (inside ++ ['\x7d'])) = some [] := hinside
  have hbrace : ∀ s, fromBrace ('{' :: s) = '{' :: s := fun _ => rfl
  have htext : d.behindName r = front
      ++ '{' :: (inside ++ '\x7d' :: (back ++ '{' :: (d.body ++ '\x7d' :: r))) := by
    simp [behindName, hheader]
  have hsplit : ∀ s, '{' :: (inside ++ '\x7d' :: s) = '{' :: (inside ++ ['\x7d']) ++ s := by simp
  rw [htext, hfront.fromBrace_append, hbrace, hsplit, afterGroup?_append _ hgroup]
  rfl

/-- **An interface is removed up to the end of the group that the first brace behind its name
opens.**  That is the whole interface, and no more, where no brace and no semicolon stands in its
header. -/
theorem eraseTypes_before (d : InterfaceDecl) (r : Text) :
    (HasNoBrace d.header → eraseTypes (d.before ('\n' :: r))
      = (eraseTypes r).map fun x => x.behind ['\n'] [.interfaceDecl]) ∧
    (∀ rest, afterGroup? (fromBrace (d.behindName r)) = some rest → eraseTypes (d.before r)
      = (eraseTypes (skipSemicolon rest)).map fun x => x.behind [] [.interfaceDecl]) ∧
    (afterGroup? (fromBrace (d.behindName r)) = none →
      ∃ outcome : Except EnumObject.Overflow Erased, eraseTypes (d.before r)
        = outcome.map fun x => x.behind "interface".toList []) := by
  have hword : IsWord "interface".toList := isWord_of_all rfl (by decide)
  have hfound : ∀ r rest, afterGroup? (fromBrace (d.behindName r)) = some rest →
      eraseTypes (d.before r)
        = (eraseTypes (skipSemicolon rest)).map fun x => x.behind [] [.interfaceDecl] := by
    intro r rest hgroup
    have hend : skipSemicolon rest <:+ d.behindName r :=
      (suffix_skipSemicolon rest).trans
        ((suffix_afterGroup? hgroup).trans (suffix_fromBrace (d.behindName r)))
    refine d.eraseTypes_removed hend ?_
    have hstep := d.step_before r
    rw [hgroup] at hstep
    exact hstep
  refine ⟨fun hheader => ?_, hfound r, fun hgroup => ?_⟩
  · rw [hfound _ _ (d.afterGroup?_body ('\n' :: r) hheader)]
    have hline : skipSemicolon ('\n' :: r) = '\n' :: r := rfl
    rw [hline, eraseTypes_newline, map_behind_behind]
    rfl
  · refine d.exists_eraseTypes_kept hword ?_
    have hstep := d.step_before r
    rw [hgroup] at hstep
    exact hstep

/-- `interface Box<T = \x7b\x7d> \x7b value: T \x7d`, whose first brace is not the one of its
body. -/
def box : InterfaceDecl where
  gap := [' ']
  name := "Box".toList
  ne_nil := space_ne_nil
  blank := allBlank_space
  isWord := isWord_of_all rfl (by decide)
  header := "<T = \x7b\x7d> ".toList
  body := " value: T ".toList
  balanced := by decide +kernel

theorem eraseTypes_before_box :
    HasNoBrace "<T> ".toList ∧
    eraseTypes ({ box with header := "<T> ".toList }.before "\nf();".toList)
      = .ok ⟨"\nf();".toList, ⟨[.interfaceDecl]⟩⟩ ∧
    afterGroup? (fromBrace (box.behindName "\nf();".toList))
      = some "> \x7b value: T \x7d\nf();".toList ∧
    eraseTypes (box.before "\nf();".toList)
      = .ok ⟨"> \x7b value: T \x7d\nf();".toList, ⟨[.interfaceDecl]⟩⟩ := by
  have hplain : HasNoBrace "<T> ".toList := by simp [HasNoBrace]
  have hheader : box.header = "<T = ".toList ++ '{' :: [] ++ '\x7d' :: "> ".toList := rfl
  have hgroup : afterGroup? (fromBrace (box.behindName "\nf();".toList))
      = some "> \x7b value: T \x7d\nf();".toList :=
    box.afterGroup?_header _ hheader (by simp [HasNoBrace]) rfl
  refine ⟨hplain, ?_, hgroup, ?_⟩
  · rw [show "\nf();".toList = '\n' :: "f();".toList from rfl, (eraseTypes_before _ _).1 hplain]
    rfl
  · rw [(eraseTypes_before box _).2.1 _ hgroup]
    rfl

end InterfaceDecl

end LivePreview.Erasure
