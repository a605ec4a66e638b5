/-
The bundled services do what is relied on.

So whatever is said of a preview with services that do can be looked at in one that runs.
-/
import LivePreview.Bundled
import LivePreview.Proofs.Json.Reading
import LivePreview.Proofs.Platform
import LivePreview.Proofs.Program.Names

namespace LivePreview

open Script

/-! ### Names of scripts -/

/-- Names go beyond identifiers only with characters beyond ASCII. -/
theorem isIdentChar_of_continuesName {c : Char} (hc : c.toNat < 128)
    (h : Program.continuesName c = true) : isIdentChar c = true := by
  have hlow : decide (128 ≤ c.toNat) = false := by simpa using hc
  simp only [Program.continuesName, isWordChar, hlow, Bool.false_and, Bool.or_false,
    Bool.or_eq_true] at h
  simp only [isIdentChar, isIdentStart, Bool.or_eq_true]
  rcases h with ((h | h) | h) | h
  · exact Or.inl (Or.inl (Or.inl h))
  · exact Or.inr h
  · exact Or.inl (Or.inl (Or.inr h))
  · exact Or.inl (Or.inr h)

/-- What opens a name can go on in one. -/
theorem continuesName_of_opensName {c : Char} (h : Program.opensName c = true) :
    Program.continuesName c = true := by
  simp only [Program.opensName, isLetter, Bool.or_eq_true, Bool.and_eq_true] at h
  simp only [Program.continuesName, isWordChar, Bool.or_eq_true, Bool.and_eq_true]
  rcases h with ((h | ⟨hfar, h⟩) | h) | h
  · exact .inl (.inl (.inl (.inl h)))
  · exact .inl (.inr ⟨hfar, .inl (.inl h)⟩)
  · exact .inl (.inl (.inr h))
  · exact .inr h

theorem Program.IsBindable.isIdentChar {w : Text} (h : Program.IsBindable w) {c : Char} (hc : c ∈ w)
    (hascii : c.toNat < 128) : isIdentChar c = true := by
  cases w with
  | nil => cases hc
  | cons d t =>
    rcases List.mem_cons.mp hc with rfl | hc
    · exact isIdentChar_of_continuesName hascii (continuesName_of_opensName h.opens)
    · exact isIdentChar_of_continuesName hascii (List.all_eq_true.mp h.continues c hc)

/-! ### Records -/

namespace Json

variable {key : Text} {fields : List Text} {ms : List (Option Text × Json)} {vs : List (Option Json)}

/-- The field of a record that members with a key make up. -/
def Found.field? : Found → Option (Option Json)
  | .missing => some none
  | .once v => some (some v)
  | .repeated => none

theorem field?_find (key : Text) (ms : List (Option Text × Json)) : (find key ms).field?
    = if (valuesOf key ms).length ≤ 1 then some (valuesOf key ms).head? else none := by
  rw [find, valuesOf]
  generalize ms.filter (fun m => m.1 == some key) = found
  match found with
  | [] => rfl
  | [m] => rfl
  | m :: m' :: rest => simp [Found.field?]

theorem record?_object (fields : List Text) (ms : List (Option Text × Json)) :
    record? fields (.object ms) = if ms.any (·.1.isNone) then none
      else fields.mapM fun key => (find key ms).field? := by
  rw [record?]
  congr 1

/-- The values of all fields, if each of them has one at most. -/
theorem mapM_field?_eq_some_iff : (fields.mapM fun key => (find key ms).field?) = some vs ↔
    (∀ key ∈ fields, (valuesOf key ms).length ≤ 1) ∧
      vs = fields.map fun key => (valuesOf key ms).head? := by
  induction fields generalizing vs with
  | nil => simp [eq_comm]
  | cons key fields ih =>
    rw [List.mapM_cons, field?_find, List.forall_mem_cons, List.map_cons, Option.bind_eq_bind]
    by_cases hkey : (valuesOf key ms).length ≤ 1
    · rw [if_pos hkey, Option.bind_some, Option.bind_eq_bind, Option.bind_eq_some_iff]
      constructor
      · rintro ⟨ws, hws, hvs⟩
        obtain ⟨hfields, rfl⟩ := ih.mp hws
        cases hvs
        exact ⟨⟨hkey, hfields⟩, rfl⟩
      · rintro ⟨⟨-, hfields⟩, rfl⟩
        exact ⟨_, ih.mpr ⟨hfields, rfl⟩, rfl⟩
    · rw [if_neg hkey]
      simp [hkey]

theorem record?_object_eq_some_iff : record? fields (.object ms) = some vs ↔
    (∀ m ∈ ms, m.1.isSome = true) ∧ (∀ key ∈ fields, (valuesOf key ms).length ≤ 1) ∧
      vs = fields.map fun key => (valuesOf key ms).head? := by
  have hkeys : ¬ (ms.any (·.1.isNone) = true) ↔ ∀ m ∈ ms, m.1.isSome = true := by
    rw [Bool.not_eq_true, List.any_eq_false]
    refine forall₂_congr fun m _ => ?_
    cases m.1 <;> simp
  rw [record?_object, ← mapM_field?_eq_some_iff, ← hkeys]
  split <;> simp_all

/-! ### Strings -/

/-- A number below sixteen is written in the digit of that place. -/
theorem isHex_digitChar {i : Nat} (hi : i < 16) : IsHex (Nat.digitChar i) i := by
  have hall : ∀ i < 16, "0123456789abcdef".toList[i]? = some (Nat.digitChar i) := by decide
  exact .inl (hall i hi)

theorem writesChar_quotedChar (c : Char) : WritesChar c (quotedChar c) := by
  unfold quotedChar
  split
  · exact .short (by decide) (by decide)
  · exact .short (by decide) (by decide)
  · exact .short (by decide) (by decide)
  · exact .short (by decide) (by decide)
  · exact .short (by decide) (by decide)
  · exact .short (by decide) (by decide)
  · exact .short (by decide) (by decide)
  · rename_i hquote hslash _ _ _ _ _
    by_cases hlow : c.toNat < 32
    · rw [if_pos hlow]
      exact .code (i := 0) (j := 0) (.inl hlow) (.inl rfl) (.inl rfl)
        (isHex_digitChar (by omega)) (isHex_digitChar (Nat.mod_lt _ (by omega))) (by omega)
    · rw [if_neg hlow]
      exact .plain (not_or.mpr ⟨hlow, not_or.mpr ⟨hquote, hslash⟩⟩)

end Json

/-- A digest is written in small digits to base sixteen. -/
theorem Sha256.mem_digits_of_mem_hexDigest {bytes : List UInt8} {c : Char}
    (hc : c ∈ Sha256.hexDigest bytes) : c ∈ "0123456789abcdef".toList := by
  have hdigits : ∀ n < 16, Nat.digitChar n ∈ "0123456789abcdef".toList := by decide
  obtain ⟨word, -, hword⟩ := List.mem_flatMap.mp hc
  obtain ⟨i, -, rfl⟩ := List.mem_map.mp hword
  exact hdigits _ (Nat.mod_lt _ (by decide))

/-! ### The services -/

namespace Bundled

theorem parseScript_eq_ok_iff {code : Text} {program : List Program.Statement} :
    Platform.parseScript code = .ok program ↔ Program.parse? code = some program := by
  cases h : Program.parse? code <;> simp [Platform.parseScript, h]

scoped instance : Platform.SpellsNames where
  isIdentChar_of_bound h hn hc hascii := by
    obtain ⟨st, hst, hn⟩ := List.mem_flatMap.mp hn
    exact (Program.isBindable_of_parse (parseScript_eq_ok_iff.mp h) hst hn).isIdentChar hc hascii

scoped instance : Platform.WritesDigests where
  digits := Sha256.mem_digits_of_mem_hexDigest

scoped instance : Platform.ReadsJson where
  readJson?_writes := Json.read?_writes
  jsonRecord?_object := Json.record?_object_eq_some_iff

scoped instance : Platform.WritesStrings where
  exists_escape := ⟨Json.quotedChar, Json.writesChar_quotedChar, fun _ => rfl⟩

end Bundled

end LivePreview
