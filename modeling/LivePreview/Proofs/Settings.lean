/-
Settings as a host gives them.

A host writes down some of the settings, in any order and layout and among members that mean nothing
here.  `GivenOptions` are the settings that it gives, and `options` what they come to: what is given
as it is given, a default in place of a blank name, and a default for the rest.  `read_given` says
that this is what is read.  An object in which a setting stands twice is refused.

All keys have to spell a text, those that mean nothing as well, because a reader has to tell which
they are.  What the members behind such keys hold may be anything of the format.
-/
import LivePreview.Options
import LivePreview.Proofs.Bundled
import LivePreview.Proofs.Text.Words

namespace LivePreview

namespace Json

variable {key : Text} {fields : List Text} {ms : List (Option Text × Json)} {vs : List (Option Json)}
  {α β : Type} {writes : α → Json → Prop} {x : Option α}

/-! ### Members -/

/-- What the members give under a key: nothing, if none of them has it, and what the value of the
only one writes otherwise. -/
def Gives (writes : α → Json → Prop) (key : Text) (ms : List (Option Text × Json))
    (x : Option α) : Prop :=
  List.Forall₂ writes x.toList (valuesOf key ms)

theorem Gives.length_le (h : Gives writes key ms x) : (valuesOf key ms).length ≤ 1 := by
  rw [← h.length_eq]
  cases x <;> simp

/-- The order of the members does not matter. -/
theorem Gives.perm {ms' : List (Option Text × Json)} (h : Gives writes key ms x)
    (hperm : ms.Perm ms') : Gives writes key ms' x := by
  have hvalues : (valuesOf key ms).Perm (valuesOf key ms') := (hperm.filter _).map _
  have hlength := h.length_le
  rw [Gives] at h ⊢
  generalize valuesOf key ms = vs at *
  match vs with
  | [] => rwa [List.nil_perm.mp hvalues]
  | [v] => rwa [List.singleton_perm.mp hvalues] at h
  | v :: w :: vs => simp at hlength

theorem jsonRecord?_of_repeated [Platform] [Platform.ReadsJson] (hkey : key ∈ fields)
    (h : 2 ≤ (valuesOf key ms).length) : Platform.jsonRecord? fields (.object ms) = none := by
  refine Option.eq_none_iff_forall_ne_some.mpr fun vs hvs => ?_
  have hone := (Platform.ReadsJson.jsonRecord?_object.mp hvs).2.1 key hkey
  omega

theorem mem_valuesOf {v : Json} (h : (some key, v) ∈ ms) : v ∈ valuesOf key ms :=
  List.mem_map.mpr ⟨_, List.mem_filter.mpr ⟨h, beq_self_eq_true (some key)⟩, rfl⟩

theorem fieldOr_of_gives {read : Json → Option β} {f : α → β}
    (hread : ∀ a v, writes a v → read v = some (f a)) (h : Gives writes key ms x) (default : β) :
    fieldOr read default (valuesOf key ms).head? = some ((x.map f).getD default) := by
  rw [Gives] at h
  cases x with
  | none =>
    rw [List.forall₂_nil_left_iff.mp h]
    rfl
  | some a =>
    obtain ⟨v, vs, hv, hvs, hvalues⟩ := List.forall₂_cons_left_iff.mp h
    rw [hvalues]
    exact hread a v hv

/-! ### Values -/

/-- The value is the string that spells this text. -/
def WritesText (t : Text) (v : Json) : Prop := v = .string (some t)

/-- The value is this one of `true` and `false`. -/
def WritesBool (b : Bool) (v : Json) : Prop := v = .bool b

/-- The value is the decimal numeral of a number of 64 bits, without a sign. -/
def WritesNat (n : UInt64) (v : Json) : Prop := v = .number (Text.ofNat n.toNat)

theorem asText?_of_writes (t : Text) (v : Json) (h : WritesText t v) : asText? v = some t := by
  rw [WritesText] at h
  rw [h, asText?]

theorem asBool?_of_writes (b : Bool) (v : Json) (h : WritesBool b v) : asBool? v = some b := by
  rw [WritesBool] at h
  rw [h, asBool?]

theorem asNat?_of_writes (n : UInt64) (v : Json) (h : WritesNat n v) :
    asNat? v = some n.toNat := by
  have hnumeral : Text.ofNat n.toNat = Nat.toDigits 10 n.toNat := Nat.toList_repr
  have hall : (Text.ofNat n.toNat).all isAsciiDigit = true :=
    List.all_eq_true.mpr fun c hc => Text.isDigit_of_mem_ofNat hc
  have hvalue : (Text.ofNat n.toNat).foldl (fun n c => 10 * n + (c.toNat - '0'.toNat)) 0
      = n.toNat := by
    rw [hnumeral]
    exact Nat.ofDigitChars_eq_foldl.symm.trans Nat.ofDigitChars_ten_toDigits
  rw [WritesNat] at h
  rw [h, asNat?, if_pos hall]
  simp only [hvalue]
  exact if_pos n.toNat_lt_size

end Json

open Json (Writes Written Blanks IsKey IsNumber IsString Units Gives valuesOf WritesText WritesBool
  WritesNat blanks_nil isNumber_of_isDigits isString_of_units isString_plain)

variable {ms : List (Option Text × Json)} {s : Text} {o : Options}

/-! ### The settings that are given -/

/-- The hosts that are given. -/
structure GivenHosts where
  react : Option Text
  reactDom : Option Text
  babel : Option Text
  tailwind : Option Text

namespace GivenHosts

/-- The hosts that these come to. -/
def hosts (g : GivenHosts) : ScriptHosts :=
  let defaults : ScriptHosts := {}
  { react := g.react.getD defaults.react
    reactDom := g.reactDom.getD defaults.reactDom
    babel := g.babel.getD defaults.babel
    tailwind := g.tailwind.getD defaults.tailwind }

/-- These members give them, each at most once, and all keys are texts. -/
structure IsListed (g : GivenHosts) (ms : List (Option Text × Json)) : Prop where
  keys : ∀ m ∈ ms, m.1.isSome = true
  react : Gives WritesText "react".toList ms g.react
  reactDom : Gives WritesText "reactDom".toList ms g.reactDom
  babel : Gives WritesText "babel".toList ms g.babel
  tailwind : Gives WritesText "tailwind".toList ms g.tailwind

theorem IsListed.length_le {g : GivenHosts} (h : g.IsListed ms) :
    ∀ key ∈ ScriptHosts.fieldNames, (valuesOf key ms).length ≤ 1 := by
  simp only [ScriptHosts.fieldNames, List.map_cons, List.map_nil, List.forall_mem_cons]
  exact ⟨h.react.length_le, h.reactDom.length_le, h.babel.length_le, h.tailwind.length_le,
    List.forall_mem_nil _⟩

/-- The value is an object whose members give them. -/
def IsWritten (g : GivenHosts) (v : Json) : Prop := ∃ ms, v = .object ms ∧ g.IsListed ms

theorem ofJson?_of_isWritten [Platform] [Platform.ReadsJson] (g : GivenHosts) (v : Json)
    (h : g.IsWritten v) :
    ScriptHosts.ofJson? v = some g.hosts := by
  obtain ⟨ms, rfl, h⟩ := h
  have hrecord : Platform.jsonRecord? ScriptHosts.fieldNames (.object ms)
      = some [(valuesOf "react".toList ms).head?, (valuesOf "reactDom".toList ms).head?,
        (valuesOf "babel".toList ms).head?, (valuesOf "tailwind".toList ms).head?] :=
    Platform.ReadsJson.jsonRecord?_object.mpr ⟨h.keys, h.length_le, rfl⟩
  have hfield : ∀ {key : Text} {x : Option Text}, Gives WritesText key ms x → ∀ default,
      fieldOr Json.asText? default (valuesOf key ms).head? = some (x.getD default) := by
    intro key x hx default
    rw [Json.fieldOr_of_gives Json.asText?_of_writes hx, Option.map_id']
  rw [ScriptHosts.ofJson?, hrecord]
  simp only [Option.bind_eq_bind, Option.bind_some, hfield h.react, hfield h.reactDom,
    hfield h.babel, hfield h.tailwind]
  rfl

end GivenHosts

/-- The settings that are given. -/
structure GivenOptions where
  gracePeriodMs : Option UInt64
  fallbackComponent : Option Text
  tailwind : Option Bool
  rootElementId : Option Text
  strictSyntaxCheck : Option Bool
  stubUnknownImports : Option Bool
  cdn : Option GivenHosts

namespace GivenOptions

/-- A name that is given and not blank. -/
def visible (name : Option Text) : Option Text := name.filter (!Text.isBlankText ·)

/-- The settings that these come to. -/
def options (g : GivenOptions) : Options :=
  let defaults : Options := {}
  { gracePeriodMs := (g.gracePeriodMs.map UInt64.toNat).getD defaults.gracePeriodMs
    fallbackComponent := (visible g.fallbackComponent).getD defaults.fallbackComponent
    tailwind := g.tailwind.getD defaults.tailwind
    rootElementId := (visible g.rootElementId).getD defaults.rootElementId
    strictSyntaxCheck := g.strictSyntaxCheck.getD defaults.strictSyntaxCheck
    stubUnknownImports := g.stubUnknownImports.getD defaults.stubUnknownImports
    hosts := (g.cdn.map GivenHosts.hosts).getD defaults.hosts }

/-- These members give them, each at most once, and all keys are texts. -/
structure IsListed (g : GivenOptions) (ms : List (Option Text × Json)) : Prop where
  keys : ∀ m ∈ ms, m.1.isSome = true
  gracePeriodMs : Gives WritesNat "gracePeriodMs".toList ms g.gracePeriodMs
  fallbackComponent : Gives WritesText "fallbackComponent".toList ms g.fallbackComponent
  tailwind : Gives WritesBool "tailwind".toList ms g.tailwind
  rootElementId : Gives WritesText "rootElementId".toList ms g.rootElementId
  strictSyntaxCheck : Gives WritesBool "strictSyntaxCheck".toList ms g.strictSyntaxCheck
  stubUnknownImports : Gives WritesBool "stubUnknownImports".toList ms g.stubUnknownImports
  cdn : Gives GivenHosts.IsWritten "cdn".toList ms g.cdn

theorem IsListed.length_le {g : GivenOptions} (h : g.IsListed ms) :
    ∀ key ∈ Options.fieldNames, (valuesOf key ms).length ≤ 1 := by
  simp only [Options.fieldNames, List.map_cons, List.map_nil, List.forall_mem_cons]
  exact ⟨h.gracePeriodMs.length_le, h.fallbackComponent.length_le, h.tailwind.length_le,
    h.rootElementId.length_le, h.strictSyntaxCheck.length_le, h.stubUnknownImports.length_le,
    h.cdn.length_le, List.forall_mem_nil _⟩

theorem IsListed.perm {g : GivenOptions} {ms' : List (Option Text × Json)} (h : g.IsListed ms)
    (hperm : ms.Perm ms') : g.IsListed ms' where
  keys m hm := h.keys m (hperm.mem_iff.mpr hm)
  gracePeriodMs := h.gracePeriodMs.perm hperm
  fallbackComponent := h.fallbackComponent.perm hperm
  tailwind := h.tailwind.perm hperm
  rootElementId := h.rootElementId.perm hperm
  strictSyntaxCheck := h.strictSyntaxCheck.perm hperm
  stubUnknownImports := h.stubUnknownImports.perm hperm
  cdn := h.cdn.perm hperm

theorem unlessBlank_getD (name : Option Text) (default : Text) :
    Options.unlessBlank (name.getD default) default = (visible name).getD default := by
  cases name with
  | none => exact ite_self default
  | some name =>
    cases h : Text.isBlankText name <;> simp [Options.unlessBlank, visible, Option.filter, h]

theorem withNames_ofJson?_of_isListed [Platform] [Platform.ReadsJson] {g : GivenOptions}
    (h : g.IsListed ms) :
    (Options.ofJson? (.object ms)).map Options.withNames = some g.options := by
  have hrecord : Platform.jsonRecord? Options.fieldNames (.object ms)
      = some [(valuesOf "gracePeriodMs".toList ms).head?,
        (valuesOf "fallbackComponent".toList ms).head?, (valuesOf "tailwind".toList ms).head?,
        (valuesOf "rootElementId".toList ms).head?, (valuesOf "strictSyntaxCheck".toList ms).head?,
        (valuesOf "stubUnknownImports".toList ms).head?, (valuesOf "cdn".toList ms).head?] :=
    Platform.ReadsJson.jsonRecord?_object.mpr ⟨h.keys, h.length_le, rfl⟩
  rw [Options.ofJson?, hrecord]
  simp only [Option.bind_eq_bind, Option.bind_some,
    Json.fieldOr_of_gives Json.asNat?_of_writes h.gracePeriodMs,
    Json.fieldOr_of_gives Json.asText?_of_writes h.fallbackComponent,
    Json.fieldOr_of_gives Json.asBool?_of_writes h.tailwind,
    Json.fieldOr_of_gives Json.asText?_of_writes h.rootElementId,
    Json.fieldOr_of_gives Json.asBool?_of_writes h.strictSyntaxCheck,
    Json.fieldOr_of_gives Json.asBool?_of_writes h.stubUnknownImports,
    Json.fieldOr_of_gives GivenHosts.ofJson?_of_isWritten h.cdn]
  simp only [Option.map_id', Option.pure_def, Option.map_some, Options.withNames, unlessBlank_getD]
  rfl

end GivenOptions

/-! ### Reading them -/

namespace Options

theorem isBlankText_of_writes (h : Writes s (.object ms)) : Text.isBlankText s = false := by
  obtain ⟨b, t, b', rfl, -, -, ht⟩ := h
  cases ht with
  | object h => simp [Text.isBlankText, isSpace]

theorem read_of_writes [Platform] [Platform.ReadsJson] (h : Writes s (.object ms)) :
    read s = match (ofJson? (.object ms)).map withNames with
      | some o => .ok o
      | none => .error .invalidOptions := by
  rw [read, if_neg (by simp [isBlankText_of_writes h]), Platform.ReadsJson.readJson?_writes h,
    Option.bind_some]
  cases ofJson? (.object ms) <;> rfl

theorem read_of_isListed [Platform] [Platform.ReadsJson]
    {g : GivenOptions} (hs : Writes s (.object ms)) (hg : g.IsListed ms) :
    read s = .ok g.options := by
  rw [read_of_writes hs, GivenOptions.withNames_ofJson?_of_isListed hg]

theorem isBlankText_unlessBlank {default : Text} (h : Text.isBlankText default = false) (s : Text) :
    Text.isBlankText (unlessBlank s default) = false := by
  rw [unlessBlank]
  split
  · exact h
  · rename_i hs
    simpa using hs

/-- **Whatever is read has names to show.** -/
theorem names_of_read [Platform] (h : read s = .ok o) :
    Text.isBlankText o.fallbackComponent = false ∧ Text.isBlankText o.rootElementId = false := by
  rw [read] at h
  split at h
  · cases h
    exact ⟨by decide, by decide⟩
  · split at h
    · cases h
      exact ⟨isBlankText_unlessBlank (by decide) _, isBlankText_unlessBlank (by decide) _⟩
    · cases h

/-- A record in which a setting stands twice is refused. -/
theorem ofJson?_of_repeated [Platform] [Platform.ReadsJson] {key : Text} (hkey : key ∈ fieldNames)
    (h : 2 ≤ (valuesOf key ms).length) : ofJson? (.object ms) = none := by
  rw [ofJson?, Json.jsonRecord?_of_repeated hkey h]
  rfl

/-- So is one with hosts in which one of them stands twice. -/
theorem ofJson?_of_repeated_host [Platform] [Platform.ReadsJson] {key : Text}
    {hs : List (Option Text × Json)}
    (hmem : (some "cdn".toList, .object hs) ∈ ms) (hkey : key ∈ ScriptHosts.fieldNames)
    (h : 2 ≤ (valuesOf key hs).length) : ofJson? (.object ms) = none := by
  have hhosts : ScriptHosts.ofJson? (.object hs) = none := by
    rw [ScriptHosts.ofJson?, Json.jsonRecord?_of_repeated hkey h]
    rfl
  cases hrecord : Platform.jsonRecord? fieldNames (.object ms) with
  | none =>
    rw [ofJson?, hrecord]
    rfl
  | some vs =>
    obtain ⟨-, hone, rfl⟩ := Platform.ReadsJson.jsonRecord?_object.mp hrecord
    have hcdn : (valuesOf "cdn".toList ms).head? = some (.object hs) := by
      have hv := Json.mem_valuesOf hmem
      have hle := hone "cdn".toList (by simp [fieldNames])
      generalize valuesOf "cdn".toList ms = vs at hv hle
      match vs with
      | [v] => rw [List.mem_singleton.mp hv, List.head?_cons]
      | v :: w :: vs => simp at hle
    rw [ofJson?, hrecord]
    simp only [fieldNames, List.map_cons, List.map_nil, Option.bind_eq_bind, Option.bind_some, hcdn,
      fieldOr, hhosts, Option.bind_none, Option.bind_fun_none]

/-- **The settings that a host gives are the ones that are read**, in whatever layout it writes them
and whatever else it writes; the order makes no difference; whatever is read has names to show; and
an object in which a setting stands twice, or a host among its hosts does, is refused. -/
theorem read_given [Platform] [Platform.ReadsJson] :
    (∀ s ms (g : GivenOptions), Writes s (.object ms) ∧ g.IsListed ms → read s = .ok g.options) ∧
    (∀ s s' ms ms' (g : GivenOptions), Writes s (.object ms) ∧ g.IsListed ms ∧
      Writes s' (.object ms') ∧ ms.Perm ms' → read s' = read s) ∧
    (∀ s o, read s = .ok o →
      Text.isBlankText o.fallbackComponent = false ∧ Text.isBlankText o.rootElementId = false) ∧
    (∀ s ms, Writes s (.object ms) →
      (∃ key ∈ fieldNames, 2 ≤ (valuesOf key ms).length) → read s = .error .invalidOptions) ∧
    ∀ s ms hs, Writes s (.object ms) ∧ (some "cdn".toList, .object hs) ∈ ms →
      (∃ key ∈ ScriptHosts.fieldNames, 2 ≤ (valuesOf key hs).length) →
      read s = .error .invalidOptions := by
  refine ⟨fun s ms g ⟨hs, hg⟩ => read_of_isListed hs hg, ?_, fun s o => names_of_read, ?_, ?_⟩
  · rintro s s' ms ms' g ⟨hs, hg, hs', hperm⟩
    rw [read_of_isListed hs hg, read_of_isListed hs' (hg.perm hperm)]
  · rintro s ms hs ⟨key, hkey, h⟩
    rw [read_of_writes hs, ofJson?_of_repeated hkey h, Option.map_none]
  · rintro s ms hosts ⟨hs, hmem⟩ ⟨key, hkey, h⟩
    rw [read_of_writes hs, ofJson?_of_repeated_host hmem hkey h, Option.map_none]

section

open scoped Bundled

/-- Two settings, one of them a host, behind a member that means nothing; one key has an escape. -/
theorem read_given_host :
    read ("\x7b \"x\": [null, \x7b\"y\":[]\x7d], \"\\u0063dn\":\x7b\"babel\":\"/b.js\"\x7d ," ++
        " \"gracePeriodMs\":200\x7d\n").toList
      = .ok (GivenOptions.options ⟨some 200, none, none, none, none, none,
        some ⟨none, none, some "/b.js".toList, none⟩⟩) := by
  have hspace : Blanks [' '] := by simp [Blanks]
  have hnumber : IsNumber ['2', '0', '0'] :=
    isNumber_of_isDigits ⟨by simp, by simp [isAsciiDigit]⟩ (by simp)
  have hescaped : Units "\\u0063dn".toList [.code 99, .char 'd', .char 'n'] :=
    .code (i := 0) (j := 0) (k := 6) (l := 3) (.inl rfl) (.inl rfl) (.inl rfl) (.inl rfl)
      (.char (by decide) (by decide) (by decide)
        (.char (by decide) (by decide) (by decide) .nil))
  have hx : IsKey " \"x\": ".toList (some "x".toList) :=
    ⟨[' '], "x".toList, [], [' '], rfl, isString_plain rfl, hspace, blanks_nil, hspace⟩
  have hy : IsKey "\"y\":".toList (some "y".toList) :=
    ⟨[], "y".toList, [], [], rfl, isString_plain rfl, blanks_nil, blanks_nil, blanks_nil⟩
  have hcdn : IsKey " \"\\u0063dn\":".toList (some "cdn".toList) :=
    ⟨[' '], _, [], [], rfl, isString_of_units hescaped, hspace, blanks_nil, blanks_nil⟩
  have hbabel : IsKey "\"babel\":".toList (some "babel".toList) :=
    ⟨[], "babel".toList, [], [], rfl, isString_plain rfl, blanks_nil, blanks_nil, blanks_nil⟩
  have hgrace : IsKey " \"gracePeriodMs\":".toList (some "gracePeriodMs".toList) :=
    ⟨[' '], "gracePeriodMs".toList, [], [], rfl, isString_plain rfl, hspace, blanks_nil, blanks_nil⟩
  have hignored : Written "[null, \x7b\"y\":[]\x7d]".toList
      (.value (.array [.null, .object [(some "y".toList, .array [])]])) :=
    .array (.item blanks_nil .null blanks_nil (.lastItem hspace
      (.object (.lastMember hy (.array (.noItem blanks_nil)) blanks_nil)) blanks_nil))
  have hhosts : Written "\x7b\"babel\":\"/b.js\"\x7d".toList
      (.value (.object [(some "babel".toList, .string (some "/b.js".toList))])) :=
    .object (.lastMember hbabel (.string (isString_plain (s := "/b.js".toList) rfl)) blanks_nil)
  have hobject := Written.object (.member hx hignored blanks_nil (.member hcdn hhosts hspace
    (.lastMember hgrace (.number hnumber) blanks_nil)))
  have hlisted : GivenHosts.IsListed ⟨none, none, some "/b.js".toList, none⟩
      [(some "babel".toList, .string (some "/b.js".toList))] :=
    ⟨by decide, .nil, .nil, .cons rfl .nil, .nil⟩
  refine read_given.1 _ _ _ ⟨⟨[], _, ['\n'], ?_, blanks_nil, by simp [Blanks], hobject⟩, ?_⟩
  · decide
  · exact ⟨by decide, .cons rfl .nil, .nil, .nil, .nil, .nil, .nil, .cons ⟨_, rfl, hlisted⟩ .nil⟩

/-- Objects that write no setting twice and none with a value of another kind, and are refused: a
key or a string that is one half of a surrogate pair, which no text holds, and a zero with a
sign. -/
theorem read_refused :
    (Writes "\x7b\"\\ud800\": 1\x7d".toList (.object [(none, .number ['1'])]) ∧
      read "\x7b\"\\ud800\": 1\x7d".toList = .error .invalidOptions) ∧
    (Writes "\x7b\"rootElementId\": \"\\ud800\"\x7d".toList
        (.object [(some "rootElementId".toList, .string none)]) ∧
      read "\x7b\"rootElementId\": \"\\ud800\"\x7d".toList = .error .invalidOptions) ∧
    (Writes "\x7b\"gracePeriodMs\": -0\x7d".toList
        (.object [(some "gracePeriodMs".toList, .number ['-', '0'])]) ∧
      read "\x7b\"gracePeriodMs\": -0\x7d".toList = .error .invalidOptions) := by
  have hspace : Blanks [' '] := by simp [Blanks]
  have hunits : Units "\\ud800".toList [.code 0xD800] :=
    .code (i := 13) (j := 8) (k := 0) (l := 0) (.inl rfl) (.inl rfl) (.inl rfl) (.inl rfl) .nil
  have hhalf : IsString "\\ud800".toList none := isString_of_units hunits
  have hone : IsNumber ['1'] := isNumber_of_isDigits ⟨by simp, by simp [isAsciiDigit]⟩ (by simp)
  have hzero : IsNumber ['-', '0'] :=
    ⟨['-'], ['0'], [], [], rfl, .inr rfl, .inl rfl, .inl rfl, .inl rfl⟩
  have hkey : IsKey "\"\\ud800\": ".toList none :=
    ⟨[], _, [], [' '], rfl, hhalf, blanks_nil, blanks_nil, hspace⟩
  have hroot : IsKey "\"rootElementId\": ".toList (some "rootElementId".toList) :=
    ⟨[], "rootElementId".toList, [], [' '], rfl, isString_plain rfl, blanks_nil, blanks_nil, hspace⟩
  have hgrace : IsKey "\"gracePeriodMs\": ".toList (some "gracePeriodMs".toList) :=
    ⟨[], "gracePeriodMs".toList, [], [' '], rfl, isString_plain rfl, blanks_nil, blanks_nil, hspace⟩
  refine ⟨⟨⟨[], _, [], ?_, blanks_nil, blanks_nil,
      .object (.lastMember hkey (.number hone) blanks_nil)⟩, rfl⟩,
    ⟨⟨[], _, [], ?_, blanks_nil, blanks_nil,
      .object (.lastMember hroot (.string hhalf) blanks_nil)⟩, rfl⟩,
    ⟨[], _, [], ?_, blanks_nil, blanks_nil,
      .object (.lastMember hgrace (.number hzero) blanks_nil)⟩, rfl⟩ <;> rfl

end

end Options

end LivePreview
