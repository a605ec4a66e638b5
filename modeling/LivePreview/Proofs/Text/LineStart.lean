/-
Going over a text part by part.

`pieces` asks at every line start of a text, and what it is told there may depend on all that
follows.  A statement in front of the end of a line has less to it.  Either it is found at its
first character and nothing of it remains but the end of its line, or none of its lines starts
with anything that is looked for.  The lemmas here say what the pieces are in each case, so
that a text of many statements is gone over one statement at a time.
-/
import LivePreview.Proofs.Text.Reading
import LivePreview.Text.LineStart

namespace LivePreview.Text

/-! ### Line ends -/

/-- A line ends at the front of the text. -/
inductive LineEnds : Text → Prop where
  | nil : LineEnds []
  | newline (s : Text) : LineEnds ('\n' :: s)

/-- True if a line starts behind the text, where `atStart` tells if one starts at its front. -/
def startsBehind : Bool → Text → Bool
  | atStart, [] => atStart
  | _, c :: s => startsBehind (c == '\n') s

/-- True if no line of the text starts as `test` says, where `atStart` tells if one starts at
its front. -/
def linesAvoid (test : Text → Bool) : Bool → Text → Bool
  | _, [] => true
  | atStart, c :: s => !(atStart && test (c :: s)) && linesAvoid test (c == '\n') s

variable {s e rest lit : Text} {p test : Text → Bool}

/-- Behind a newline a line starts. -/
theorem startsBehind_newline (b : Bool) (s : Text) : startsBehind b (s ++ ['\n']) = true := by
  induction s generalizing b with
  | nil => rfl
  | cons c s ih => exact ih (c == '\n')

/-- Text that breaks no line has no later lines. -/
theorem linesAvoid_append (hs : '\n' ∉ s) :
    linesAvoid test false (s ++ rest) = linesAvoid test false rest := by
  induction s with
  | nil => rfl
  | cons c s ih =>
    obtain ⟨hc, hs⟩ := not_or.mp (mt List.mem_cons.mpr hs)
    have hbreak : (c == '\n') = false := beq_eq_false_iff_ne.mpr (Ne.symm hc)
    simp only [List.cons_append, linesAvoid, Bool.false_and, Bool.not_false, Bool.true_and, hbreak]
    exact ih hs

theorem linesAvoid_of_noNewline (hs : '\n' ∉ s) : linesAvoid test false s = true := by
  have happend : linesAvoid test false (s ++ []) = true := linesAvoid_append hs
  rwa [List.append_nil] at happend

theorem linesAvoid_of_false (hs : test s = false) (h : linesAvoid test false s = true) :
    linesAvoid test true s = true := by
  cases s with
  | nil => rfl
  | cons c s =>
    simp only [linesAvoid, hs, Bool.and_false, Bool.not_false, Bool.true_and] at h ⊢
    exact h

/-- A text of which no line starts as `test` says does not start so. -/
theorem test_of_linesAvoid (hnil : test [] = false) (h : linesAvoid test true s = true) :
    test s = false := by
  cases s with
  | nil => exact hnil
  | cons c s =>
    rw [linesAvoid, Bool.and_eq_true, Bool.true_and, Bool.not_eq_true'] at h
    exact h.1

theorem startsBehind_of_noNewline (hs : '\n' ∉ s) (hne : s ≠ []) (b : Bool) :
    startsBehind b s = false := by
  induction s generalizing b with
  | nil => exact absurd rfl hne
  | cons c s ih =>
    obtain ⟨hc, hs⟩ := not_or.mp (mt List.mem_cons.mpr hs)
    have hbreak : (c == '\n') = false := beq_eq_false_iff_ne.mpr (Ne.symm hc)
    rw [startsBehind, hbreak]
    cases s with
    | nil => rfl
    | cons d s => exact ih hs (List.cons_ne_nil d s) false

theorem startsBehind_of_ne_nil (hne : s ≠ []) (b b' : Bool) :
    startsBehind b s = startsBehind b' s := by
  cases s with
  | nil => exact absurd rfl hne
  | cons c s => rfl

theorem linesAvoid_of_true (b : Bool) (h : linesAvoid test true s = true) :
    linesAvoid test b s = true := by
  cases s with
  | nil => rfl
  | cons c s =>
    simp only [linesAvoid, Bool.and_eq_true] at h ⊢
    refine ⟨?_, h.2⟩
    cases b with
    | true => exact h.1
    | false => rfl

theorem linesAvoid_of_suffix (b : Bool) (h : ∀ v, v <:+ s → test v = false) :
    linesAvoid test b s = true := by
  induction s generalizing b with
  | nil => rfl
  | cons c s ih =>
    rw [linesAvoid, h _ List.suffix_rfl, Bool.and_false, Bool.not_false, Bool.true_and]
    exact ih _ fun v hv => h v (hv.trans (List.suffix_cons c s))

theorem linesAvoid_false {b : Bool} (h : linesAvoid test b s = true) :
    linesAvoid test false s = true := by
  cases s with
  | nil => rfl
  | cons c s =>
    simp only [linesAvoid, Bool.and_eq_true] at h ⊢
    exact ⟨rfl, h.2⟩

/-- The lines of an end piece. -/
theorem linesAvoid_behind {b : Bool} (h : linesAvoid test b (s ++ rest) = true) :
    linesAvoid test (startsBehind b s) rest = true := by
  induction s generalizing b with
  | nil => exact h
  | cons c s ih =>
    rw [List.cons_append, linesAvoid, Bool.and_eq_true] at h
    exact ih h.2

/-- A word is not found across a character that it does not have. -/
theorem after?_append_cons {d : Char} (hd : d ∉ lit) :
    after? lit (s ++ d :: rest) = (after? lit s).map (· ++ d :: rest) := by
  induction lit generalizing s with
  | nil => cases s <;> rfl
  | cons c lit ih =>
    obtain ⟨hcd, hlit⟩ := not_or.mp (mt List.mem_cons.mpr hd)
    cases s with
    | nil => simp [after?, Ne.symm hcd]
    | cons b s =>
      by_cases hcb : c = b
      · simp only [List.cons_append, after?, hcb, if_true]
        exact ih hlit
      · simp [after?, hcb]

/-- A word is found in front of any text. -/
theorem after?_append_self (lit s : Text) : after? lit (lit ++ s) = some s := by
  induction lit with
  | nil => cases s <;> rfl
  | cons c lit ih => simpa [after?] using ih

theorem LineEnds.stops {p : Char → Bool} (he : LineEnds e) (hp : p '\n' = false) : Stops p e := by
  cases he with
  | nil => exact stops_nil p
  | newline s => exact stops_cons.mpr hp

/-! ### Pieces -/

variable {α : Type} {find : Text → Option (α × Text)} {a : α}

/-- What is covered by a finding yields no pieces. -/
theorem piecesFrom_covered (b : Bool) (s rest : Text) :
    piecesFrom find b s.length (s ++ rest) = piecesFrom find (startsBehind b s) 0 rest := by
  induction s generalizing b with
  | nil => rfl
  | cons c s ih => exact ih (c == '\n')

theorem pieces_found (hs : s ≠ []) (h : find (s ++ rest) = some (a, rest)) :
    pieces find (s ++ rest) = .found a :: piecesFrom find (startsBehind true s) 0 rest := by
  cases s with
  | nil => exact absurd rfl hs
  | cons c s =>
    have hcovered : (s ++ rest).length - rest.length = s.length := by simp
    have h : find (c :: (s ++ rest)) = some (a, rest) := h
    show piecesFrom find true 0 (c :: (s ++ rest)) = _
    simp only [piecesFrom, if_true, h, hcovered, piecesFrom_covered, startsBehind]

theorem piecesFrom_cons_of_none {b : Bool} {c : Char} (h : b = true → find (c :: s) = none) :
    piecesFrom find b 0 (c :: s) = .passed c :: piecesFrom find (c == '\n') 0 s := by
  cases b with
  | true => simp only [piecesFrom, if_true, h rfl]
  | false => rfl

/-- What is left of a line is passed over, whatever it is. -/
theorem piecesFrom_line (hs : '\n' ∉ s) (t : Text) :
    piecesFrom find false 0 (s ++ '\n' :: t) = (s ++ ['\n']).map .passed ++ pieces find t := by
  induction s with
  | nil => rfl
  | cons c s ih =>
    obtain ⟨hc, hs⟩ := not_or.mp (mt List.mem_cons.mpr hs)
    have hbreak : (c == '\n') = false := beq_eq_false_iff_ne.mpr (Ne.symm hc)
    have hpass : piecesFrom find false 0 (c :: (s ++ '\n' :: t))
        = .passed c :: piecesFrom find (c == '\n') 0 (s ++ '\n' :: t) := rfl
    rw [List.cons_append, hpass, hbreak, ih hs]
    rfl

/-- The end of a line is passed over. -/
theorem piecesFrom_lineEnds (he : LineEnds e) (b : Bool)
    (h : ∀ t, find ('\n' :: t) = none) :
    piecesFrom find b 0 e = (e.take 1).map .passed ++ pieces find e.tail := by
  cases he with
  | nil => rfl
  | newline t => exact piecesFrom_cons_of_none fun _ => h t

/-- Lines that do not start with anything that is looked for are passed over. -/
theorem piecesFrom_avoid (b : Bool) (hfind : ∀ t, test t = false → find (t ++ e) = none)
    (hs : linesAvoid test b s = true) :
    piecesFrom find b 0 (s ++ e) = s.map .passed ++ piecesFrom find (startsBehind b s) 0 e := by
  induction s generalizing b with
  | nil => rfl
  | cons c s ih =>
    simp only [linesAvoid, Bool.and_eq_true, Bool.not_eq_true', Bool.and_eq_false_iff] at hs
    have hnone : b = true → find (c :: (s ++ e)) = none := by
      intro hb
      obtain hfalse | htest := hs.1
      · rw [hb] at hfalse
        exact Bool.noConfusion hfalse
      · exact hfind (c :: s) htest
    rw [List.cons_append, piecesFrom_cons_of_none hnone, ih (c == '\n') hs.2]
    rfl

theorem flatMap_passed (write : α → Text) (s : Text) :
    (s.map Piece.passed).flatMap (Piece.text write) = s := by
  induction s with
  | nil => rfl
  | cons c s ih => exact congrArg (c :: ·) ih

theorem filterMap_passed (s : Text) :
    (s.map Piece.passed).filterMap (Piece.finding? (α := α)) = [] := by
  induction s with
  | nil => rfl
  | cons c s ih => exact ih

/-- What going over a text finds was found at some place of it. -/
theorem exists_of_mem_piecesFrom {atStart : Bool} {covered : Nat}
    (h : a ∈ (piecesFrom find atStart covered s).filterMap Piece.finding?) :
    ∃ t rest, find t = some (a, rest) := by
  induction s generalizing atStart covered with
  | nil =>
    unfold piecesFrom at h
    cases h
  | cons d s ih =>
    cases covered with
    | succ covered => exact ih h
    | zero =>
      rw [piecesFrom] at h
      split at h
      · rename_i found rest hfound
        rcases List.mem_cons.mp h with rfl | hlater
        · cases atStart with
          | false => cases hfound
          | true => exact ⟨d :: s, rest, hfound⟩
        · exact ih hlater
      · exact ih h

theorem exists_of_mem_findings (h : a ∈ findings find s) : ∃ t rest, find t = some (a, rest) :=
  exists_of_mem_piecesFrom h

/-! ### Parts of a text -/

/-- What `find` does at line starts: it finds nothing unless `test` holds, whatever stands on
the lines behind, and nothing at the end of a line. -/
structure Heeds (test : Text → Bool) (find : Text → Option (α × Text)) : Prop where
  none_of_false : ∀ {t : Text}, test t = false → find t = none
  append : ∀ {t e : Text}, LineEnds e → test (t ++ e) = test t
  newline : ∀ {t : Text}, test ('\n' :: t) = false

namespace Heeds

variable (hf : Heeds test find) (he : LineEnds e)

include hf he

theorem piecesFrom_eq (b : Bool) (hs : linesAvoid test b s = true) :
    piecesFrom find b 0 (s ++ e) = (s ++ e.take 1).map .passed ++ pieces find e.tail := by
  have hfind : ∀ t, test t = false → find (t ++ e) = none := by
    intro t ht
    refine hf.none_of_false ?_
    rw [hf.append he, ht]
  rw [piecesFrom_avoid b hfind hs,
    piecesFrom_lineEnds he _ fun t => hf.none_of_false hf.newline, List.map_append,
    List.append_assoc]

/-- Where nothing is found at the front, and later lines do not start with anything. -/
theorem pieces_of_none (h : find (s ++ e) = none) (hs : linesAvoid test false s = true) :
    pieces find (s ++ e) = (s ++ e.take 1).map .passed ++ pieces find e.tail := by
  cases s with
  | nil => exact hf.piecesFrom_eq he true rfl
  | cons c s =>
    have hlater : linesAvoid test (c == '\n') s = true := hs
    have h : find (c :: (s ++ e)) = none := h
    show piecesFrom find true 0 (c :: (s ++ e)) = _
    rw [piecesFrom_cons_of_none fun _ => h, hf.piecesFrom_eq he _ hlater]
    rfl

/-- Where a finding takes up the front of a part, and later lines do not start with
anything. -/
theorem pieces_of_front (hrest : rest ≠ []) (h : find (rest ++ (s ++ e)) = some (a, s ++ e))
    (hs : linesAvoid test (startsBehind true rest) s = true) :
    pieces find (rest ++ (s ++ e))
      = .found a :: (s ++ e.take 1).map .passed ++ pieces find e.tail := by
  rw [pieces_found hrest h, hf.piecesFrom_eq he _ hs]
  rfl

omit hf in
/-- Where a finding takes up a part and the end of its line. -/
theorem pieces_of_all (hs : s ≠ []) (h : find (s ++ e) = some (a, e.tail)) :
    pieces find (s ++ e) = .found a :: pieces find e.tail := by
  cases he with
  | nil => rw [pieces_found hs h]; rfl
  | newline t =>
    have hline : s ++ '\n' :: t = (s ++ ['\n']) ++ t := by simp
    rw [hline] at h ⊢
    rw [pieces_found (by simp) h, startsBehind_newline]
    rfl

end Heeds

end LivePreview.Text
