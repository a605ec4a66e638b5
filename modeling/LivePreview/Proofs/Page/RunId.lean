/-
The token of a run can be read off its name.

The name is the decimal numeral of the token, a dash and some digits of a digest.  No
decimal digit is a dash, so the first dash ends the numeral, whatever the digest is.  Two
runs with different tokens have different names, also when they show the same code.
-/
import LivePreview.Page.RunId
import LivePreview.Proofs.Text.Words

namespace LivePreview

/-- What stands in front of the first dash of the name is the numeral of the token. -/
theorem takeWhile_runIdOf [Platform] (token : Nat) (code : Text) :
    (runIdOf token code).takeWhile (· != '-') = Text.ofNat token := by
  have hdigits : ∀ c ∈ Text.ofNat token, (c != '-') = true := by
    intro c hc
    have hdigit := Text.isDigit_of_mem_ofNat hc
    refine bne_iff_ne.mpr ?_
    rintro rfl
    exact absurd hdigit (by decide)
  rw [runIdOf, Text.takeWhile_append hdigits (Text.stops_cons.mpr (by decide))]

/-- **The name of a run determines its token.** -/
theorem token_eq_of_runIdOf_eq [Platform] {t u : Nat} {code code' : Text}
    (h : runIdOf t code = runIdOf u code') : t = u := by
  have hnumerals : Text.ofNat t = Text.ofNat u := by
    rw [← takeWhile_runIdOf t code, h, takeWhile_runIdOf]
  exact Text.ofNat_injective hnumerals

end LivePreview
