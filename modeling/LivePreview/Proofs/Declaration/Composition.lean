/-
Declarations in texts that are put together.

What declares something is told by looking ahead, over blanks, newlines and whole bracket groups.
But no look goes past a `;` or a closing brace, unless over a group in which it stands; and where
the scan is outside of all brackets, no group that was opened before is open.  So behind a line that
ends with one of these, outside of brackets, a text is scanned as it is on its own, and what stands
in front of such a line end is scanned as if nothing followed.
-/
import LivePreview.Proofs.Declaration.Lookahead
import LivePreview.Proofs.Declaration.Place

namespace LivePreview.Declaration

open Script

variable {s t x y z w rest b : Text} {c e : Char} {fresh : Bool} {depth : Nat} {p q : Place}
  {ds es : List Declaration}

/-! ### Runs in the text in front -/

namespace Place

/-- A step that does not go beyond a text is the same without what stands behind. -/
theorem next_cut (hne : x ≠ []) (h : (next ⟨fresh, depth, x ++ b⟩).rest = y ++ b) :
    next ⟨fresh, depth, x⟩
      = ⟨(next ⟨fresh, depth, x ++ b⟩).fresh, (next ⟨fresh, depth, x ++ b⟩).depth, y⟩ := by
  obtain ⟨c, s, rfl⟩ := List.exists_cons_of_ne_nil hne
  rw [List.cons_append] at h ⊢
  rw [next] at h ⊢
  rw [next]
  dsimp only at h ⊢
  split at h
  · rename_i hc
    rw [if_pos hc, if_pos hc, List.append_cancel_right h]
  rename_i hline
  rw [if_neg hline, if_neg hline]
  split at h
  · rename_i hc
    rw [if_pos hc, if_pos hc, List.append_cancel_right h]
  rename_i hinline
  rw [if_neg hinline, if_neg hinline]
  split at h
  · rename_i hc
    rw [if_pos hc, if_pos hc, List.append_cancel_right h]
  rename_i hopen
  rw [if_neg hopen, if_neg hopen]
  split at h
  · rename_i hc
    rw [if_pos hc, if_pos hc, List.append_cancel_right h]
  rename_i hclose
  rw [if_neg hclose, if_neg hclose]
  split at h
  · rename_i hc
    have hskip : skipIdent (c :: s) = y := by
      dsimp only at h
      rw [skipIdent, if_pos hc] at h
      rw [skipIdent, if_pos hc, Text.dropWhile_cut h]
    rw [if_pos hc, if_pos hc, hskip]
  · rename_i hc
    rw [if_neg hc, if_neg hc, afterLiteral?_cut h]

/-- A run that does not go beyond a text is the same without what stands behind, if the same is
found at the places on its way. -/
theorem Reaches.cut (h : Reaches p ds q) (hp : p.rest = x ++ q.rest)
    (hfound : ∀ (r : Place) (y : Text) (es : List Declaration), Reaches r es q →
      r.rest = y ++ q.rest → y ≠ [] → y <:+ x → r.found? = found? ⟨r.fresh, r.depth, y⟩) :
    Reaches ⟨p.fresh, p.depth, x⟩ ds ⟨q.fresh, q.depth, []⟩ := by
  induction h generalizing x with
  | here =>
    obtain rfl : x = [] := by simpa using hp
    exact .here
  | next hne hnext ih =>
    rename_i p q ds
    have hx : x ≠ [] := by
      rintro rfl
      rw [List.nil_append] at hp
      have hle := hnext.suffix.length_le
      have hlt := length_next_lt hne
      rw [hp] at hlt
      omega
    obtain ⟨y, hy⟩ := hnext.suffix
    have hplace : p = ⟨p.fresh, p.depth, x ++ q.rest⟩ := by rw [← hp]
    have hcut : Place.next ⟨p.fresh, p.depth, x⟩ = ⟨p.next.fresh, p.next.depth, y⟩ := by
      have hrest : (Place.next ⟨p.fresh, p.depth, x ++ q.rest⟩).rest = y ++ q.rest := by
        rw [← hplace, hy]
      rw [next_cut hx hrest, ← hplace]
    have hsuffix : y <:+ x := by
      have hle := (suffix_next ⟨p.fresh, p.depth, x⟩).trans (List.tail_suffix x)
      rwa [hcut] at hle
    have hrun : Reaches (Place.next ⟨p.fresh, p.depth, x⟩) ds ⟨q.fresh, q.depth, []⟩ := by
      rw [hcut]
      exact ih hy.symm fun r y' es hr hrest hne' hy' => hfound r y' es hr hrest hne' (hy'.trans hsuffix)
    rw [hfound p x _ (.next hne hnext) hp hx List.suffix_rfl]
    exact .next hx hrun

/-- What remains is nothing, or starts with a newline, or stands behind another character. -/
def EndsApart (s rest : Text) : Prop :=
  rest = [] ∨ rest.head? = some '\n' ∨ ∃ front d, d ≠ '\n' ∧ s = front ++ d :: rest

theorem EndsApart.cons (c : Char) (h : EndsApart s rest) : EndsApart (c :: s) rest := by
  obtain hnil | hline | ⟨front, d, hd, rfl⟩ := h
  · exact Or.inl hnil
  · exact Or.inr (Or.inl hline)
  · exact Or.inr (Or.inr ⟨c :: front, d, hd, rfl⟩)

theorem EndsApart.of_suffix {d : Char} (hd : d ≠ '\n') (h : d :: rest <:+ s) : EndsApart s rest := by
  obtain ⟨front, rfl⟩ := h
  exact Or.inr (Or.inr ⟨front, d, hd, rfl⟩)

theorem endsApart_stringRest {quote : Char} (hquote : isQuote quote = true) (s : Text) :
    EndsApart s (stringRest quote s) := by
  fun_induction stringRest quote s with
  | case1 => exact Or.inl rfl
  | case2 c s ih => exact (ih.cons c).cons '\\'
  | case3 s => exact Or.inr (Or.inl rfl)
  | case4 s =>
    refine .of_suffix ?_ List.suffix_rfl
    rintro rfl
    exact absurd hquote (by decide)
  | case5 c s _ _ _ ih => exact ih.cons c

theorem endsApart_skipLine (s : Text) : EndsApart s (Text.skipLine s) := by
  have hstops := Text.stops_dropWhile (· != '\n') s
  rw [Text.skipLine]
  cases hrest : s.dropWhile (· != '\n') with
  | nil => exact Or.inl rfl
  | cons c rest =>
    rw [hrest, Text.stops_cons] at hstops
    exact Or.inr (Or.inl (congrArg some (by simpa using hstops)))

theorem endsApart_blockRest (s : Text) : EndsApart s (blockRest s) := by
  fun_induction blockRest s with
  | case1 => exact Or.inl rfl
  | case2 s => exact .of_suffix (d := '/') (by decide) (List.suffix_cons '*' _)
  | case3 c s _ ih => exact ih.cons c

/-- A literal or a comment ends with its line or with the text, or with a character of its own. -/
theorem endsApart_afterLiteral? (h : afterLiteral? s = some rest) : EndsApart s rest := by
  unfold afterLiteral? at h
  split at h
  · cases h
  · obtain rfl := Option.some.inj h
    exact ((endsApart_skipLine _).cons '/').cons '/'
  · obtain rfl := Option.some.inj h
    exact ((endsApart_blockRest _).cons '*').cons '/'
  · rename_i c s _ _
    split at h
    · rename_i hquote
      obtain rfl := Option.some.inj h
      exact (endsApart_stringRest hquote s).cons c
    · obtain ⟨-, hrest⟩ := Option.ite_none_right_eq_some.mp h
      obtain rfl := Option.some.inj hrest
      rw [skipTemplate]
      cases hleave : leave [.template] s with
      | none => exact Or.inl rfl
      | some rest =>
        obtain ⟨d, rfl, hsuffix⟩ := exists_last_of_leave hleave rfl
        exact (EndsApart.of_suffix (by decide) hsuffix).cons c

/-- Behind a newline a place is fresh, unless there is nothing to find in the line. -/
theorem fresh_next (hne : p.rest ≠ []) (hp : p.rest = x ++ p.next.rest)
    (hx : x.getLast? = some '\n') :
    p.next.fresh = true ∨ p.next.rest = [] ∨ p.next.rest.head? = some '\n' := by
  obtain ⟨fresh, depth, s⟩ := p
  obtain ⟨c, s, rfl⟩ := List.exists_cons_of_ne_nil hne
  have single : c ≠ '\n' → c :: s ≠ x ++ s := by
    intro hc h
    rw [← List.singleton_append] at h
    obtain rfl := List.append_cancel_right h
    exact hc (Option.some.inj hx)
  have apart : ∀ {u : Text}, EndsApart (c :: s) u → c :: s = x ++ u →
      u = [] ∨ u.head? = some '\n' := by
    rintro u (hnil | hline | ⟨front, d, hd, hrest⟩) h
    · exact Or.inl hnil
    · exact Or.inr hline
    · rw [hrest, List.append_cons] at h
      obtain rfl := List.append_cancel_right h
      rw [List.getLast?_concat] at hx
      exact absurd (Option.some.inj hx) hd
  rw [next] at hp ⊢
  dsimp only at hp ⊢
  split at hp
  · rename_i hc
    rw [if_pos hc]
    exact Or.inl rfl
  rename_i hline
  split at hp
  · exact absurd hp (single hline)
  split at hp
  · exact absurd hp (single hline)
  split at hp
  · exact absurd hp (single hline)
  split at hp
  · rename_i hinline hopen hclose hident
    rw [skipIdent, if_pos hident] at hp
    dsimp only at hp
    have hword : c :: s = (c :: s.takeWhile isIdentChar) ++ s.dropWhile isIdentChar := by
      rw [List.cons_append, List.takeWhile_append_dropWhile]
    rw [hword] at hp
    obtain rfl := List.append_cancel_right hp
    obtain heq | hmem := List.mem_cons.mp (List.mem_of_getLast? hx)
    · exact absurd heq.symm hline
    · exact absurd (List.mem_takeWhile_imp hmem) (by decide)
  · rename_i hinline hopen hclose hident
    cases hliteral : afterLiteral? (c :: s) with
    | none =>
      rw [hliteral] at hp
      exact absurd hp (single hline)
    | some rest =>
      rw [hliteral] at hp
      rw [if_neg hline, if_neg hinline, if_neg hopen, if_neg hclose, if_neg hident]
      exact Or.inr (apart (endsApart_afterLiteral? hliteral) hp)

theorem Reaches.startsLine (h : Reaches p ds q) (hp : p.rest = x ++ q.rest)
    (hx : x.getLast? = some '\n') :
    q.fresh = true ∨ q.rest = [] ∨ q.rest.head? = some '\n' := by
  induction h generalizing x with
  | here =>
    obtain rfl : x = [] := by simpa using hp
    cases hx
  | next hne hnext ih =>
    rename_i p q ds
    cases hnext with
    | here => exact fresh_next hne hp hx
    | next hne' hlater =>
      obtain ⟨piece, hpiece⟩ := (suffix_next p).trans (List.tail_suffix p.rest)
      obtain ⟨y, hy⟩ := hlater.suffix.trans ((suffix_next _).trans (List.tail_suffix _))
      have hlength := hlater.suffix.length_le
      have hlt := length_next_lt hne'
      have hsplit : x = piece ++ y := by
        rw [← hpiece, ← hy, ← List.append_assoc] at hp
        exact (List.append_cancel_right hp).symm
      have hlast : y.getLast? = some '\n' := by
        have hne : y ≠ [] := by
          rintro rfl
          rw [← hy, List.nil_append] at hlt
          omega
        rw [hsplit, List.getLast?_append_of_ne_nil _ hne] at hx
        exact hx
      exact ih hy.symm hlast

end Place

/-! ### Places that are looked at -/

namespace Place

/-- The scan comes to what stands behind characters of heads. -/
theorem reaches_behindHead (h : BehindHead s t) (ht : Text.Stops isIdentChar t) (fresh : Bool)
    (depth : Nat) : ∃ ds fresh', Reaches ⟨fresh, depth, s⟩ ds ⟨fresh', depth, t⟩ := by
  obtain ⟨piece, rfl, hpiece⟩ := h
  obtain ⟨n, hn⟩ : ∃ n, piece.length ≤ n := ⟨_, Nat.le_refl _⟩
  induction n generalizing piece fresh with
  | zero =>
    obtain rfl := List.length_eq_zero_iff.mp (Nat.le_zero.mp hn)
    exact ⟨[], fresh, .here⟩
  | succ n ih =>
    cases piece with
    | nil => exact ⟨[], fresh, .here⟩
    | cons c piece =>
      obtain ⟨hc, hpiece⟩ := List.forall_mem_cons.mp hpiece
      have step : ∀ {more : Text} {fresh' : Bool}, more <:+ piece →
          next ⟨fresh, depth, c :: (piece ++ t)⟩ = ⟨fresh', depth, more ++ t⟩ →
          ∃ ds fresh'', Reaches ⟨fresh, depth, c :: (piece ++ t)⟩ ds ⟨fresh'', depth, t⟩ := by
        intro more fresh' hmore hnext
        have hlength := hmore.length_le
        rw [List.length_cons] at hn
        obtain ⟨ds, fresh'', hrun⟩ := ih fresh' more (fun d hd => hpiece d (hmore.subset hd)) (by omega)
        rw [← hnext] at hrun
        exact ⟨_, fresh'', .next (List.cons_ne_nil _ _) hrun⟩
      obtain ⟨fresh', hnext⟩ := next_tokenChar (isTokenChar_of (by decide) hc) fresh depth (piece ++ t)
      rw [skipIdent] at hnext
      split at hnext
      · rw [Text.dropWhile_append_of_stops ht] at hnext
        exact step (List.dropWhile_suffix _) hnext
      · exact step List.suffix_rfl hnext

end Place

/-- A round bracket closes neither a statement nor a line, so a group that ends behind the line end
of a statement ends behind the statement. -/
theorem suffix_of_afterGroup? {r : Text} (he : EndsStatement e)
    (h : afterGroup? (('(' :: z) ++ e :: '\n' :: b) = some r) (hb : b <:+ r) :
    e :: '\n' :: b <:+ r := by
  obtain ⟨g, c, d, inside, hopen, hclose, heq⟩ := exists_brackets_of_afterGroup? h
  obtain ⟨rfl, hrest⟩ := List.cons.inj heq
  obtain rfl : Bracket.round = g := Option.some.inj hopen
  have hend : e ≠ d := by
    rintro rfl
    obtain rfl | rfl := he <;> cases hclose
  have hline : d ≠ '\n' := by
    rintro rfl
    cases hclose
  have hwhole : e :: '\n' :: b <:+ inside ++ d :: r := hrest ▸ List.suffix_append z _
  obtain hle | hle := List.suffix_or_suffix_of_suffix hwhole (List.suffix_append inside (d :: r))
  · obtain heq | hle := List.suffix_cons_iff.mp hle
    · exact absurd (List.cons.inj heq).1 hend
    · exact hle
  · obtain heq | hle := List.suffix_cons_iff.mp hle
    · exact absurd (List.cons.inj heq).1.symm hend
    obtain heq | hle := List.suffix_cons_iff.mp hle
    · exact absurd (List.cons.inj heq).1 hline
    · have hlength := hle.length_le.trans hb.length_le
      rw [List.length_cons] at hlength
      omega

/-- **Where the scan is outside of all brackets, no look ahead goes beyond over a group.** -/
theorem groupsEnd_of_reaches (he : EndsStatement e) (h : Place.Reaches p ds q) (hdepth : p.depth = 0)
    (hq : q.depth = 0) (hp : p.rest = s ++ e :: '\n' :: q.rest) : GroupsEnd e ('\n' :: q.rest) s := by
  intro z hz r hr
  refine suffix_of_afterGroup? he hr ?_
  obtain ⟨fresh, depth, rest⟩ := p
  dsimp only at hdepth hp
  subst hdepth hp
  have hround : Text.Stops isIdentChar ('(' :: (z ++ e :: '\n' :: q.rest)) := Text.stops_cons.mpr rfl
  obtain ⟨es, fresh', hgroup⟩ := Place.reaches_behindHead (hz.append (e :: '\n' :: q.rest)) hround fresh 0
  have hlength : q.rest.length < ('(' :: (z ++ e :: '\n' :: q.rest)).length := by
    simp only [List.length_cons, List.length_append]
    omega
  obtain ⟨fs, hlater⟩ := hgroup.of_length h hlength
  obtain ⟨gs, hinside⟩ := hlater.of_next hlength
  have hleave : leave ([Bracket.round].map Within.group) (z ++ e :: '\n' :: q.rest) = some r := hr
  exact hinside.behind_groups hq rfl hleave

theorem groupsEnd_of_end (he : EndsStatement e) (s : Text) : GroupsEnd e ['\n'] s :=
  fun _ _ _ hr => suffix_of_afterGroup? he hr List.nil_suffix

/-! ### Scanning texts that are put together -/

/-- What is found in front of the text that is put behind is found without it. -/
theorem found?_append {r : Place} (he : EndsStatement e) (h : Place.Reaches r es q) (hq : q.depth = 0)
    (hr : r.rest = y ++ q.rest) (hne : y ≠ []) (hy : y <:+ s ++ [e, '\n']) :
    r.found? = Place.found? ⟨r.fresh, r.depth, y⟩ := by
  have hstart : startsIdent r.rest = startsIdent y := by
    obtain ⟨c, y, rfl⟩ := List.exists_cons_of_ne_nil hne
    rw [hr]
    rfl
  rw [Place.found?, Place.found?, hstart]
  dsimp only
  split
  · rename_i hfound
    simp only [Bool.and_eq_true, decide_eq_true_eq] at hfound
    obtain ⟨⟨hdepth, -⟩, hident⟩ := hfound
    have hend : isIdentStart e = false := he.eq_false rfl rfl
    have hsplit : [e, '\n'] <:+ y := by
      refine (List.suffix_or_suffix_of_suffix (List.suffix_append s _) hy).resolve_right fun hle => ?_
      obtain rfl | hle := List.suffix_cons_iff.mp hle
      · rw [startsIdent, hend] at hident
        exact Bool.noConfusion hident
      obtain rfl | hle := List.suffix_cons_iff.mp hle
      · cases hident
      · exact hne (List.suffix_nil.mp hle)
    obtain ⟨front, rfl⟩ := hsplit
    rw [List.append_assoc] at hr
    rw [hr, List.cons_append, List.singleton_append,
      startingAt?_end he (groupsEnd_of_reaches he h hdepth hq hr),
      startingAt?_end he (groupsEnd_of_end he front)]
  · rfl

/-- **Behind the end of a statement, outside of all brackets, a text is scanned as on its own.** -/
theorem scan_append {a : Text} (he : EndsStatement e) (ha : a = s ++ [e, '\n'])
    (h : Place.Reaches ⟨true, 0, a ++ b⟩ ds ⟨fresh, 0, b⟩) : scan (a ++ b) = scan a ++ scan b := by
  subst ha
  have hlast : (s ++ [e, '\n']).getLast? = some '\n' := by simp
  have hfront := h.cut rfl fun r y es hr hrest hne hy => found?_append he hr rfl hrest hne hy
  have hbehind : Place.scan ⟨fresh, 0, b⟩ = scan b := by
    obtain hfresh | hnil | hline := h.startsLine rfl hlast
    · dsimp only at hfresh
      rw [hfresh]
      rfl
    · dsimp only at hnil
      rw [hnil, scan, Place.scan, scanFrom, scanFrom]
    · cases b with
      | nil => cases hline
      | cons c b =>
        obtain rfl : c = '\n' := Option.some.inj hline
        rfl
  have hwhole : scan (s ++ [e, '\n'] ++ b) = ds ++ scan b := by
    rw [← hbehind]
    exact h.scan
  have hempty : Place.scan ⟨fresh, 0, []⟩ = [] := by rw [Place.scan, scanFrom]
  have ha : scan (s ++ [e, '\n']) = ds := by
    have hscan := hfront.scan
    rwa [hempty, List.append_nil] at hscan
  rw [hwhole, ha]

/-- What is found stands at the start of a line and outside of all brackets. -/
theorem mem_scan_iff {code : Text} {d : Declaration} : d ∈ scan code ↔
    ∃ before rest ds, code = before ++ rest ∧
      Place.Reaches ⟨true, 0, code⟩ ds ⟨true, 0, rest⟩ ∧
      atLineStart before.reverse = true ∧ startingAt? rest = some d := by
  have hplace : d ∈ scan code ↔ ∃ ds q, Place.Reaches ⟨true, 0, code⟩ ds q ∧ q.found? = some d :=
    Place.mem_scan_iff (p := ⟨true, 0, code⟩)
  rw [hplace]
  constructor
  · rintro ⟨ds, ⟨fresh, depth, rest⟩, hreach, hfound⟩
    obtain ⟨rfl, rfl, hstart⟩ := Place.found?_eq_some_iff.mp hfound
    have hfirst : true = true → atLineStart ([] : Text).reverse = true := fun _ => rfl
    obtain ⟨between, hcode, hline⟩ := hreach.atLineStart hfirst rfl
    exact ⟨between, rest, ds, hcode, hreach, hline, hstart⟩
  · rintro ⟨-, rest, ds, -, hreach, -, hstart⟩
    exact ⟨ds, _, hreach, Place.found?_eq_some_iff.mpr ⟨rfl, rfl, hstart⟩⟩

theorem scanFrom_group (h : afterGroup? s = some rest) (fresh : Bool) (depth : Nat) :
    scanFrom fresh depth 0 s = scanFrom false depth 0 rest :=
  (Place.reaches_group h fresh depth).scan

/-- **Scanning is compositional.**  Where the scan of two texts comes to the second one outside of
all brackets, and the first one ends with a line that ends a statement, each is scanned as it is on
its own; it does no harm if some bracket in front was closed too often.  What is found stands at the
start of a line, at a place outside of all brackets; and a bracket group is passed over with nothing
found. -/
theorem scan_composes :
    (∀ (a b s : Text) (e : Char) (ds : List Declaration) (fresh : Bool),
      EndsStatement e → a = s ++ [e, '\n'] →
      Place.Reaches ⟨true, 0, a ++ b⟩ ds ⟨fresh, 0, b⟩ → scan (a ++ b) = scan a ++ scan b) ∧
    (∀ (code : Text) (d : Declaration), d ∈ scan code ↔
      ∃ before rest ds, code = before ++ rest ∧
        Place.Reaches ⟨true, 0, code⟩ ds ⟨true, 0, rest⟩ ∧
        atLineStart before.reverse = true ∧ startingAt? rest = some d) ∧
    ∀ (s rest : Text) (fresh : Bool) (depth : Nat), afterGroup? s = some rest →
      scanFrom fresh depth 0 s = scanFrom false depth 0 rest :=
  ⟨fun _ _ _ _ _ _ he ha h => scan_append he ha h, fun _ _ => mem_scan_iff,
    fun _ _ fresh depth h => scanFrom_group h fresh depth⟩

/-- A function, and behind it a variable whose value is one. -/
theorem scan_composes_function :
    scan "function A() {}\nconst B = () => 1;\n".toList
        = scan "function A() {}\n".toList ++ scan "const B = () => 1;\n".toList ∧
      ⟨"A".toList, .function⟩ ∈ scan "function A() {}\n".toList ∧
      scanFrom true 0 0 "{}\n".toList = scanFrom false 0 0 "\n".toList := by
  obtain ⟨ds, hreach⟩ :=
    Place.reaches_iterate 9 ⟨true, 0, "function A() {}\nconst B = () => 1;\n".toList⟩
  have hplace : Place.next^[9] ⟨true, 0, "function A() {}\nconst B = () => 1;\n".toList⟩
      = ⟨true, 0, "const B = () => 1;\n".toList⟩ := by decide +kernel
  rw [hplace] at hreach
  obtain ⟨happend, hmem, hgroup⟩ := scan_composes
  refine ⟨happend _ _ "function A() \x7b".toList '\x7d' ds true (Or.inr rfl) rfl hreach, ?_,
    hgroup _ _ true 0 (by decide +kernel)⟩
  exact (hmem _ _).mpr ⟨[], _, [], rfl, .here, rfl, by decide +kernel⟩

end LivePreview.Declaration
