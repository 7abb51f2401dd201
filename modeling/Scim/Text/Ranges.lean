/-!
# Sets of characters given by code point ranges

* `Ranges`          a list of pairs `(first, last)`, both ends included;
* `Ranges.holds`    membership of a character.
-/

namespace Scim.Text

/-- Code point ranges, both ends included. -/
abbrev Ranges := List (Nat × Nat)

/-- Whether a range of the list holds the character. -/
def Ranges.holds (rs : Ranges) (c : Char) : Bool :=
  rs.any fun r => decide (r.1 ≤ c.toNat) && decide (c.toNat ≤ r.2)

theorem Ranges.holds_iff {rs : Ranges} {c : Char} :
    rs.holds c = true ↔ ∃ r ∈ rs, r.1 ≤ c.toNat ∧ c.toNat ≤ r.2 := by
  simp [Ranges.holds]

end Scim.Text
