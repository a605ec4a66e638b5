/-
The paths that markers name.

Whatever decoration a marker has, its path is a run of the characters of paths that has a dot.  So
it stands on one line, and it is not the name of the part in front of all markers.  A line on which
the first such run has no dot is no marker.
-/
import LivePreview.Answer.Normalize
import LivePreview.Proofs.Text.Choice

namespace LivePreview.Answer

open Text (optionally TakenBy)

variable {α : Type} {s t path line run : Text} {words : List Text} {a : α} {d : Char}

/-! ### Paths -/

/-- A path: a run of characters of paths in front of a known extension. -/
structure IsPath (path : Text) : Prop where
  chars : ∀ c ∈ path, isPathChar c = true
  ends : ∃ stem extension, stem ≠ [] ∧ extension ∈ extensions ∧ path = stem ++ extension

theorem dot_of_extension : ∀ extension ∈ extensions,
    extension.head? = some '.' ∧ '.' ∉ extension.tail ∧ extension.all isPathChar = true := by
  decide +kernel

theorem IsPath.dot (h : IsPath path) : '.' ∈ path := by
  obtain ⟨stem, extension, -, hmem, rfl⟩ := h.ends
  exact List.mem_append_right stem (List.mem_of_head? (dot_of_extension extension hmem).1)

/-- What follows a path succeeds behind a path. -/
theorem isPath_of_readPath {follow : Text → Text → Option α} (h : readPath follow s = some a) :
    ∃ path rest, s = path ++ rest ∧ IsPath path ∧ follow path rest = some a := by
  obtain ⟨stem, hne, hstem, t, rfl, hfollow⟩ := Text.takenBy_of_atLeastOne h
  obtain ⟨extension, hmem, hextension⟩ := List.exists_of_findSome?_eq_some hfollow
  obtain ⟨rest, hrest, hfollow⟩ := Option.bind_eq_some_iff.mp hextension
  obtain rfl := Text.eq_append_of_after? hrest
  rw [← List.append_assoc] at hfollow ⊢
  rw [Text.consumed_append] at hfollow
  refine ⟨_, rest, rfl, ⟨fun c hc => ?_, stem, extension, hne, hmem, rfl⟩, hfollow⟩
  exact (List.mem_append.mp hc).elim (hstem c)
    (List.all_eq_true.mp (dot_of_extension extension hmem).2.2 c)

/-- What follows a path succeeds behind a run of its characters that has a dot. -/
theorem exists_of_readPath {follow : Text → Text → Option α} (h : readPath follow s = some a) :
    ∃ path rest, s = path ++ rest ∧ (∀ c ∈ path, isPathChar c = true) ∧ '.' ∈ path ∧
      follow path rest = some a := by
  obtain ⟨path, rest, hs, hpath, hfollow⟩ := isPath_of_readPath h
  exact ⟨path, rest, hs, hpath.chars, hpath.dot, hfollow⟩

/-- Where no dot stands, there is no path. -/
theorem readPath_of_noDot {follow : Text → Text → Option α} (h : '.' ∉ s) :
    readPath follow s = none := by
  rw [Option.eq_none_iff_forall_not_mem]
  intro a ha
  obtain ⟨path, rest, rfl, -, hdot, -⟩ := exists_of_readPath ha
  exact h (List.mem_append_left rest hdot)

/-- Where the first run of characters of paths has no dot, there is no path. -/
theorem readPath_eq_none {follow : Text → Text → Option α} (hrun : '.' ∉ run)
    (hd : isPathChar d = false) : readPath follow (run ++ d :: s) = none := by
  rw [Option.eq_none_iff_forall_not_mem]
  intro a ha
  obtain ⟨path, rest, htext, hpath, hdot, -⟩ := exists_of_readPath ha
  obtain ⟨more, rfl, hmore⟩ | ⟨more, rfl, -⟩ := List.append_eq_append_iff.mp htext
  · cases more with
    | nil => exact hrun (by rwa [List.append_nil] at hdot)
    | cons c more =>
      obtain ⟨rfl, -⟩ := List.cons.inj hmore
      have hchar := hpath d (List.mem_append_right run List.mem_cons_self)
      rw [hd] at hchar
      exact Bool.noConfusion hchar
  · exact hrun (List.mem_append_left more hdot)

/-! ### Markers -/

/-- What remains behind the rule of a marker, if it has one. -/
def BehindRule (s t : Text) : Prop :=
  t = s ∨ ∃ rule rest,
    (∀ c ∈ rule, isRuleChar c = true) ∧ s = rule ++ rest ∧ t = Text.skipInline rest

/-- A marker has a path behind its rule and its label. -/
theorem exists_of_markerBody? (h : markerBody? s = some path) :
    ∃ t u, BehindRule (Text.skipInline s) t ∧ (afterLabel? markerLabels t = some u ∨ u = t) ∧
      readPath (fun path rest => if closesMarker rest then some path else none) u = some path := by
  have hlabel : ∀ {t}, optionally (readLabel markerLabels)
      (readPath fun path rest => if closesMarker rest then some path else none) t = some path →
      ∃ u, (afterLabel? markerLabels t = some u ∨ u = t) ∧
        readPath (fun path rest => if closesMarker rest then some path else none) u = some path := by
    intro t ht
    obtain hfirst | hpath := Text.optionally_cases ht
    · obtain ⟨u, hu, hpath⟩ := Option.bind_eq_some_iff.mp hfirst
      exact ⟨u, Or.inl hu, hpath⟩
    · exact ⟨t, Or.inr rfl, hpath⟩
  obtain hrule | hplain := Text.optionally_cases h
  · obtain ⟨rule, -, hchars, rest, hrest, hfollow⟩ := Text.takenBy_of_atLeastTwo hrule
    obtain ⟨u, hu, hpath⟩ := hlabel hfollow
    exact ⟨_, u, Or.inr ⟨rule, rest, hchars, hrest, rfl⟩, hu, hpath⟩
  · obtain ⟨u, hu, hpath⟩ := hlabel hplain
    exact ⟨_, u, Or.inl rfl, hu, hpath⟩

theorem exists_markerBody? (h : markerPath? line = some path) :
    ∃ s, markerBody? s = some path := by
  unfold markerPath? at h
  split at h
  · exact ⟨_, h⟩
  · obtain ⟨stars, -, rest, -, hbody⟩ := Text.takenBy_of_asManyAs h
    exact ⟨rest, hbody⟩
  · cases h

/-- **What a marker names is a path.** -/
theorem IsPath.of_markerPath? (h : markerPath? line = some path) : IsPath path := by
  obtain ⟨s, hbody⟩ := exists_markerBody? h
  obtain ⟨t, u, -, -, hpath⟩ := exists_of_markerBody? hbody
  obtain ⟨path', rest, -, hpath', hfollow⟩ := isPath_of_readPath hpath
  obtain rfl : path' = path := Option.some.inj (Option.ite_none_right_eq_some.mp hfollow).2
  exact hpath'

/-- What is in no path is in no path that a marker names. -/
theorem not_mem_of_markerPath? (h : markerPath? line = some path) (hd : isPathChar d = false) :
    d ∉ path := by
  intro hmem
  rw [(IsPath.of_markerPath? h).chars d hmem] at hd
  exact Bool.noConfusion hd

end LivePreview.Answer
