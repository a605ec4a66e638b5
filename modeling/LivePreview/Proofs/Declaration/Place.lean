/-
The places that the scan for declarations comes to.

The scan counts down what it has read ahead of its place.  Here each step goes on to the place
behind what stands at the front, be it a character, a word, a literal or a comment, and a run of
such steps carries what it finds on its way: `Reaches`.  A bracket group is run through as it is
read at once by the readers of groups, with the count of open brackets above the one in front of the
group, so nothing is found in it.
-/
import LivePreview.Declaration.Scan
import LivePreview.Proofs.Script.Prefix

namespace LivePreview.Declaration

open Script

variable {s t rest : Text} {c : Char} {fresh : Bool} {depth : Nat}

/-- A place that the scan comes to. -/
structure Place where
  /-- true if only inline blanks stand between here and the start of the line -/
  fresh : Bool
  /-- number of open brackets -/
  depth : Nat
  rest : Text
deriving DecidableEq

namespace Place

variable {p q r : Place} {ds es : List Declaration} {d : Declaration}

/-- What is found from here on. -/
def scan (p : Place) : List Declaration := scanFrom p.fresh p.depth 0 p.rest

/-- The place behind what stands at the front. -/
def next (p : Place) : Place :=
  match p.rest with
  | [] => p
  | c :: s =>
    if c = '\n' then ⟨true, p.depth, s⟩
    else if isInline c then ⟨p.fresh, p.depth, s⟩
    else if (Bracket.opened? c).isSome then ⟨false, p.depth + 1, s⟩
    else if (Bracket.closed? c).isSome then ⟨false, p.depth - 1, s⟩
    else if isIdentStart c then ⟨false, p.depth, skipIdent (c :: s)⟩
    else ⟨false, p.depth, (afterLiteral? (c :: s)).getD s⟩

/-- The declaration that is found at the front. -/
def found? (p : Place) : Option Declaration :=
  if p.depth = 0 && p.fresh && startsIdent p.rest then startingAt? p.rest else none

/-! ### One step -/

/-- A character that opens an identifier is none that the scan looks for before. -/
theorem plain_of_isIdentStart (h : isIdentStart c = true) : c ≠ '\n' ∧ isInline c = false ∧
    Bracket.opened? c = none ∧ Bracket.closed? c = none := by
  have hne : ∀ d, isIdentStart d = false → c ≠ d := by
    rintro d hd rfl
    rw [h] at hd
    exact Bool.noConfusion hd
  refine ⟨hne _ (by decide), isInline_eq_false_of_identChar (isIdentChar_of_start h), ?_, ?_⟩
  · simp [Bracket.opened?, hne '(' (by decide), hne '[' (by decide), hne '{' (by decide)]
  · simp [Bracket.closed?, hne ')' (by decide), hne ']' (by decide), hne '\x7d' (by decide)]

theorem next_ident (h : isIdentStart c = true) :
    next ⟨fresh, depth, c :: s⟩ = ⟨false, depth, skipIdent (c :: s)⟩ := by
  obtain ⟨hline, hinline, hopen, hclose⟩ := plain_of_isIdentStart h
  simp [next, hline, hinline, hopen, hclose, h]

/-- A character that opens and closes nothing is passed over, with the identifier that it opens. -/
theorem next_tokenChar (hc : isTokenChar c = true) (fresh : Bool) (depth : Nat) (s : Text) :
    ∃ fresh', next ⟨fresh, depth, c :: s⟩
      = ⟨fresh', depth, if isIdentStart c then skipIdent (c :: s) else s⟩ := by
  by_cases hident : isIdentStart c = true
  · exact ⟨false, by rw [next_ident hident, if_pos hident]⟩
  have hmark : ∀ d ∈ tokenMarks, c ≠ d := by
    rintro d hd rfl
    simp [isTokenChar, hd] at hc
  simp only [tokenMarks, List.forall_mem_cons] at hmark
  obtain ⟨hround, hround', hsquare, hsquare', hcurly, hcurly', hdouble, hsingle, htick, hslash, -⟩ :=
    hmark
  have hopen : Bracket.opened? c = none := by simp [Bracket.opened?, hround, hsquare, hcurly]
  have hclose : Bracket.closed? c = none := by simp [Bracket.closed?, hround', hsquare', hcurly']
  have hliteral : afterLiteral? (c :: s) = none := by
    rw [afterLiteral?, if_neg (by simp [isQuote, hdouble, hsingle]), if_neg htick]
    · exact fun _ h => absurd h hslash
    · exact fun _ h => absurd h hslash
  rw [next, if_neg hident]
  dsimp only
  rw [hopen, hclose, hliteral]
  split
  · exact ⟨true, rfl⟩
  split
  · exact ⟨fresh, rfl⟩
  · exact ⟨false, by simp⟩

/-- What was read ahead is passed over. -/
theorem scanFrom_covered (h : rest <:+ s) (depth : Nat) :
    scanFrom false depth (s.length - rest.length) s = scanFrom false depth 0 rest := by
  induction s with
  | nil =>
    obtain rfl := List.suffix_nil.mp h
    rfl
  | cons c s ih =>
    obtain rfl | h := List.suffix_cons_iff.mp h
    · rw [Nat.sub_self]
    · rw [List.length_cons, Nat.succ_sub h.length_le, scanFrom, ih h]

/-- **What is found from a place on is found there or from the next place on.** -/
theorem scan_next (p : Place) : p.scan = p.found?.toList ++ p.next.scan := by
  obtain ⟨fresh, depth, rest⟩ := p
  cases rest with
  | nil =>
    have hnone : found? ⟨fresh, depth, []⟩ = none := if_neg (by simp [startsIdent])
    have hempty : scan ⟨fresh, depth, []⟩ = [] := by rw [scan, scanFrom]
    rw [hnone, next, hempty]
    rfl
  | cons c s =>
    by_cases hident : isIdentStart c = true
    · obtain ⟨hline, hinline, hopen, hclose⟩ := plain_of_isIdentStart hident
      have hsuffix : skipIdent (c :: s) <:+ s := suffix_tail_skipIdent hident
      have hfound : found? ⟨fresh, depth, c :: s⟩
          = if depth = 0 && fresh then startingAt? (c :: s) else none := by
        simp [found?, startsIdent, hident]
      rw [next_ident hident, hfound, scan, scanFrom, if_neg hline, if_neg (by simp [hinline]), hopen,
        hclose, if_neg (by simp), if_neg (by simp), if_pos hident, scan]
      dsimp only
      rw [scanFrom_covered hsuffix]
    · have hnone : found? ⟨fresh, depth, c :: s⟩ = none :=
        if_neg (by simpa [startsIdent] using fun _ _ => hident)
      have hsuffix : (afterLiteral? (c :: s)).getD s <:+ s := by
        cases hliteral : afterLiteral? (c :: s) with
        | none => exact List.suffix_rfl
        | some rest => exact suffix_tail_afterLiteral? hliteral
      rw [hnone, Option.toList_none, List.nil_append, scan, scanFrom, next]
      dsimp only
      split
      · rfl
      split
      · rfl
      split
      · rfl
      split
      · rfl
      rw [scanFrom_covered hsuffix]
      rfl

theorem suffix_next (p : Place) : p.next.rest <:+ p.rest.tail := by
  obtain ⟨fresh, depth, rest⟩ := p
  cases rest with
  | nil => exact List.suffix_rfl
  | cons c s =>
    rw [next]
    dsimp only [List.tail_cons]
    split
    · exact List.suffix_rfl
    split
    · exact List.suffix_rfl
    split
    · exact List.suffix_rfl
    split
    · exact List.suffix_rfl
    split
    · rename_i hident
      exact suffix_tail_skipIdent (s := c :: s) hident
    · cases hliteral : afterLiteral? (c :: s) with
      | none => exact List.suffix_rfl
      | some rest => exact suffix_tail_afterLiteral? hliteral

theorem length_next_lt (h : p.rest ≠ []) : p.next.rest.length < p.rest.length := by
  have hle := (suffix_next p).length_le
  have hpos := List.length_pos_of_ne_nil h
  rw [List.length_tail] at hle
  omega

/-! ### Runs -/

/-- From the first place the scan comes to the second one, and this is what it finds on its way. -/
inductive Reaches : Place → List Declaration → Place → Prop
  | here {p : Place} : Reaches p [] p
  | next {p q : Place} {ds : List Declaration} (hne : p.rest ≠ []) (h : Reaches p.next ds q) :
      Reaches p (p.found?.toList ++ ds) q

namespace Reaches

theorem scan (h : Reaches p ds q) : p.scan = ds ++ q.scan := by
  induction h with
  | here => rfl
  | next _ _ ih => rw [scan_next, ih, List.append_assoc]

theorem trans (h : Reaches p ds q) (h' : Reaches q es r) : Reaches p (ds ++ es) r := by
  induction h with
  | here => exact h'
  | next hne _ ih =>
    rw [List.append_assoc]
    exact .next hne (ih h')

theorem suffix (h : Reaches p ds q) : q.rest <:+ p.rest := by
  induction h with
  | here => exact List.suffix_rfl
  | next _ _ ih => exact ih.trans ((suffix_next _).trans (List.tail_suffix _))

/-- Of two places that the scan comes to it comes to one from the other. -/
theorem linear (h : Reaches p ds q) (h' : Reaches p es r) :
    (∃ fs, Reaches q fs r) ∨ ∃ fs, Reaches r fs q := by
  induction h generalizing es with
  | here => exact Or.inl ⟨es, h'⟩
  | next hne hnext ih =>
    cases h' with
    | here => exact Or.inr ⟨_, .next hne hnext⟩
    | next _ hnext' => exact ih hnext'

/-- To a place with less to read the scan comes from the next place. -/
theorem of_next (h : Reaches p ds q) (hlt : q.rest.length < p.rest.length) :
    ∃ es, Reaches p.next es q := by
  cases h with
  | here => exact absurd hlt (Nat.lt_irrefl _)
  | next _ hnext => exact ⟨_, hnext⟩

/-- A place with less to read is not in front of one with more. -/
theorem of_length (h : Reaches p ds q) (h' : Reaches p es r) (hlt : r.rest.length < q.rest.length) :
    ∃ fs, Reaches q fs r := by
  refine (h.linear h').resolve_right ?_
  rintro ⟨fs, hback⟩
  exact absurd hback.suffix.length_le (Nat.not_le.mpr hlt)

end Reaches

/-- The scan comes to every place that is some steps away. -/
theorem reaches_iterate (k : Nat) (p : Place) : ∃ ds, Reaches p ds (next^[k] p) := by
  induction k generalizing p with
  | zero => exact ⟨[], .here⟩
  | succ k ih =>
    rw [Function.iterate_succ_apply]
    obtain ⟨ds, hrun⟩ := ih p.next
    by_cases hne : p.rest = []
    · have hstay : p.next = p := by rw [next, hne]
      rw [hstay] at hrun ⊢
      exact ⟨ds, hrun⟩
    · exact ⟨_, .next hne hrun⟩

/-- **What is found is found at some place that the scan comes to.** -/
theorem mem_scan_iff : d ∈ p.scan ↔ ∃ ds q, Reaches p ds q ∧ q.found? = some d := by
  constructor
  · intro h
    obtain ⟨n, hn⟩ : ∃ n, p.rest.length ≤ n := ⟨_, Nat.le_refl _⟩
    induction n generalizing p with
    | zero =>
      have hnil : p.rest = [] := List.length_eq_zero_iff.mp (Nat.le_zero.mp hn)
      have hempty : p.scan = [] := by rw [scan, hnil, scanFrom]
      rw [hempty] at h
      cases h
    | succ n ih =>
      by_cases hne : p.rest = []
      · exact ih h (by rw [hne]; exact Nat.zero_le n)
      rw [scan_next] at h
      obtain hfound | hlater := List.mem_append.mp h
      · exact ⟨[], p, .here, Option.mem_toList.mp hfound⟩
      · have hlength := length_next_lt hne
        obtain ⟨ds, q, hreach, hq⟩ := ih hlater (by omega)
        exact ⟨_, q, .next hne hreach, hq⟩
  · rintro ⟨ds, q, hreach, hq⟩
    rw [hreach.scan, scan_next, hq]
    simp

theorem found?_eq_some_iff : p.found? = some d ↔
    p.depth = 0 ∧ p.fresh = true ∧ startingAt? p.rest = some d := by
  rw [found?, Option.ite_none_right_eq_some]
  simp only [Bool.and_eq_true, decide_eq_true_eq, and_assoc]
  refine and_congr_right fun _ => and_congr_right fun _ => and_iff_right_of_imp fun h => ?_
  by_contra hident
  have hword : word? p.rest = none := word?_of_stops (by
    intro c hc
    cases hrest : p.rest with
    | nil =>
      rw [hrest] at hc
      cases hc
    | cons c' s =>
      rw [hrest] at hc hident
      obtain rfl := Option.some.inj hc
      simpa [startsIdent] using hident)
  have hasync : afterKeyword? "async".toList p.rest = none := by rw [afterKeyword?, hword]; rfl
  rw [startingAt?, hasync] at h
  dsimp only at h
  rw [hword] at h
  cases h

/-! ### The start of a line -/

/-- A step to a fresh place goes over a newline, or over a blank from a fresh place. -/
theorem atLineStart_next {before piece : Text} (hp : p.fresh = true → atLineStart before.reverse = true)
    (hne : p.rest ≠ []) (hpiece : p.rest = piece ++ p.next.rest) (hfresh : p.next.fresh = true) :
    atLineStart (before ++ piece).reverse = true := by
  obtain ⟨fresh, depth, rest⟩ := p
  obtain ⟨c, s, rfl⟩ := List.exists_cons_of_ne_nil hne
  have single : c :: s = piece ++ s → piece = [c] := by
    intro h
    rw [← List.singleton_append] at h
    exact (List.append_cancel_right h).symm
  rw [next] at hfresh hpiece
  dsimp only at hfresh hp hpiece
  split at hfresh
  · rename_i hc
    rw [if_pos hc] at hpiece
    rw [single hpiece, List.reverse_concat, hc]
    rfl
  rename_i hline
  rw [if_neg hline] at hpiece
  split at hfresh
  · rename_i hc
    rw [if_pos hc] at hpiece
    rw [single hpiece, List.reverse_concat, atLineStart, List.dropWhile_cons_of_pos hc]
    exact hp hfresh
  · split at hfresh
    · cases hfresh
    split at hfresh
    · cases hfresh
    split at hfresh <;> cases hfresh

/-- **At a fresh place a line starts, but for inline blanks.** -/
theorem Reaches.atLineStart {before : Text} (h : Reaches p ds q)
    (hp : p.fresh = true → atLineStart before.reverse = true) (hq : q.fresh = true) :
    ∃ between, p.rest = between ++ q.rest ∧ Script.atLineStart (before ++ between).reverse = true := by
  induction h generalizing before with
  | here => exact ⟨[], rfl, by rw [List.append_nil]; exact hp hq⟩
  | next hne hnext ih =>
    rename_i p q ds
    obtain ⟨piece, hpiece⟩ := (suffix_next p).trans (List.tail_suffix p.rest)
    obtain ⟨between, hbetween, hstart⟩ := ih (atLineStart_next hp hne hpiece.symm) hq
    refine ⟨piece ++ between, ?_, by rwa [← List.append_assoc]⟩
    rw [List.append_assoc, ← hbetween, hpiece]

/-! ### Groups -/

section

variable {g : Bracket} {gs : List Bracket} {n : Nat}

/-- Inside of a group an identifier is passed over. -/
theorem leave_skipIdent (up : List Within) (s : Text) :
    leave (.group g :: up) s = leave (.group g :: up) (skipIdent s) := by
  have hchars : ∀ s : Text, leave (.group g :: up) s
      = leave (.group g :: up) (s.dropWhile isIdentChar) := by
    intro s
    induction s with
    | nil => rfl
    | cons c s ih =>
      rw [List.dropWhile_cons]
      split
      · rename_i hc
        rw [leave_group_char (isTokenChar_of (by decide) hc), ih]
      · rfl
  cases s with
  | nil => rfl
  | cons c s =>
    rw [skipIdent]
    split
    · rename_i hc
      rw [leave_group_char (isTokenChar_of (by decide) hc)]
      exact hchars s
    · rfl

/-- The characters that open a group. -/
theorem eq_of_opened? (h : Bracket.opened? c = some g) : c = '(' ∨ c = '[' ∨ c = '{' := by
  rw [Bracket.opened?] at h
  split at h
  · exact Or.inl ‹_›
  split at h
  · exact Or.inr (Or.inl ‹_›)
  split at h
  · exact Or.inr (Or.inr ‹_›)
  · cases h

theorem leave_opened (h : Bracket.opened? c = some g) (k : Bracket) (up : List Within) (s : Text) :
    leave (.group k :: up) (c :: s) = leave (.group g :: .group k :: up) s := by
  obtain rfl | rfl | rfl := eq_of_opened? h <;> cases h <;> rfl

theorem leave_closed (h : Bracket.closed? c = some g) (k : Bracket) (up : List Within) (s : Text) :
    leave (.group k :: up) (c :: s) = if g = k then leave up s else none := by
  have hclosed : c = ')' ∨ c = ']' ∨ c = '\x7d' := by
    rw [Bracket.closed?] at h
    split at h
    · exact Or.inl ‹_›
    split at h
    · exact Or.inr (Or.inl ‹_›)
    split at h
    · exact Or.inr (Or.inr ‹_›)
    · cases h
  obtain rfl | rfl | rfl := hclosed <;> cases h <;> rfl

/-- A step inside of groups goes to where the readers of groups go, and counts the groups. -/
theorem leave_next (hdepth : p.depth = n + (gs.length + 1))
    (h : leave ((g :: gs).map Within.group) p.rest = some rest) :
    ∃ hs : List Bracket, p.next.depth = n + hs.length ∧
      leave (hs.map Within.group) p.next.rest = some rest ∧ (hs = [] → p.next.fresh = false) := by
  obtain ⟨fresh, depth, s⟩ := p
  dsimp only at h hdepth
  subst hdepth
  rw [List.map_cons] at h
  have inside : ∀ {f : Bool} {t : Text}, leave (.group g :: gs.map Within.group) t = some rest →
      ∃ hs : List Bracket, (Place.mk f (n + (gs.length + 1)) t).depth = n + hs.length ∧
        leave (hs.map Within.group) (Place.mk f (n + (gs.length + 1)) t).rest = some rest ∧
        (hs = [] → (Place.mk f (n + (gs.length + 1)) t).fresh = false) :=
    fun ht => ⟨g :: gs, rfl, ht, fun hnil => absurd hnil (List.cons_ne_nil _ _)⟩
  cases s with
  | nil => cases h
  | cons c s =>
    rw [next]
    dsimp only
    split
    · rename_i hc
      rw [hc] at h
      exact inside h
    split
    · rename_i hc
      rw [leave_group_char (isTokenChar_of (by decide) hc)] at h
      exact inside h
    split
    · rename_i hopen
      obtain ⟨k, hk⟩ := Option.isSome_iff_exists.mp hopen
      rw [leave_opened hk] at h
      exact ⟨k :: g :: gs, rfl, h, fun hnil => absurd hnil (List.cons_ne_nil _ _)⟩
    split
    · rename_i hclose
      obtain ⟨k, hk⟩ := Option.isSome_iff_exists.mp hclose
      rw [leave_closed hk] at h
      obtain ⟨-, hleave⟩ := Option.ite_none_right_eq_some.mp h
      exact ⟨gs, rfl, hleave, fun _ => rfl⟩
    split
    · rw [leave_skipIdent] at h
      exact inside h
    · rename_i hopen hclose _
      rw [leave_afterLiteral (by simpa using hopen) (by simpa using hclose)] at h
      exact inside h

theorem found?_of_depth (h : p.depth ≠ 0) : p.found? = none := if_neg (by simp [h])

theorem found?_of_opened (h : Bracket.opened? c = some g) : found? ⟨fresh, depth, c :: s⟩ = none := by
  obtain rfl | rfl | rfl := eq_of_opened? h <;>
    exact if_neg (by simp [startsIdent, isIdentStart, isAsciiLetter])

/-- **Groups that are closed are run through to their end, and nothing is found in them.** -/
theorem reaches_left (hdepth : p.depth = n + (gs.length + 1))
    (h : leave ((g :: gs).map Within.group) p.rest = some rest) :
    Reaches p [] ⟨false, n, rest⟩ := by
  obtain ⟨m, hm⟩ : ∃ m, p.rest.length ≤ m := ⟨_, Nat.le_refl _⟩
  induction m generalizing p g gs with
  | zero =>
    rw [List.length_eq_zero_iff.mp (Nat.le_zero.mp hm)] at h
    cases h
  | succ m ih =>
    have hne : p.rest ≠ [] := by
      intro hnil
      rw [hnil] at h
      cases h
    have hfound : p.found? = none := found?_of_depth (by omega)
    have hlength := length_next_lt hne
    obtain ⟨hs, hnext, hleave, hfresh⟩ := leave_next hdepth h
    have hrun : Reaches p.next [] ⟨false, n, rest⟩ := by
      cases hs with
      | nil =>
        rcases hp : p.next with ⟨fresh', depth', rest'⟩
        rw [hp] at hnext hleave hfresh
        obtain rfl : rest' = rest := by simpa [leave] using hleave
        obtain rfl : depth' = n := hnext
        obtain rfl : fresh' = false := hfresh rfl
        exact .here
      | cons k hs => exact ih hnext hleave (by omega)
    have hstep := Reaches.next hne hrun
    rwa [hfound] at hstep

/-- A place outside of groups that were entered is not in front of their end. -/
theorem Reaches.behind_groups (hreach : Reaches p ds q) (hq : q.depth = n)
    (hdepth : p.depth = n + (gs.length + 1))
    (h : leave ((g :: gs).map Within.group) p.rest = some rest) : q.rest <:+ rest := by
  induction hreach generalizing g gs with
  | here => omega
  | next hne hnext ih =>
    obtain ⟨hs, hcount, hleave, -⟩ := leave_next hdepth h
    cases hs with
    | nil =>
      rw [List.map_nil, leave] at hleave
      exact Option.some.inj hleave ▸ hnext.suffix
    | cons k hs => exact ih hq hcount hleave

theorem reaches_group (h : afterGroup? s = some rest) (fresh : Bool) (depth : Nat) :
    Reaches ⟨fresh, depth, s⟩ [] ⟨false, depth, rest⟩ := by
  cases s with
  | nil => cases h
  | cons c s =>
    obtain ⟨g, hg, hleave⟩ := Option.bind_eq_some_iff.mp h
    have hnext : next ⟨fresh, depth, c :: s⟩ = ⟨false, depth + 1, s⟩ := by
      obtain rfl | rfl | rfl := eq_of_opened? hg <;> rfl
    have hrun : Reaches (next ⟨fresh, depth, c :: s⟩) [] ⟨false, depth, rest⟩ := by
      have hinside : leave ([g].map Within.group) s = some rest := hleave
      rw [hnext]
      exact reaches_left rfl hinside
    have hstep := Reaches.next (p := ⟨fresh, depth, c :: s⟩) (List.cons_ne_nil c s) hrun
    rwa [found?_of_opened hg] at hstep

end

end Place

end LivePreview.Declaration
