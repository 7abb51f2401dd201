/-!
# Blanks

The characters that separate words in filter texts and configuration values: the spaces of
Unicode, the line and paragraph separators, and the control characters from tab to carriage return
and from file separator to unit separator.

* `isBlank`           the class;
* `isSpace`           the blanks without the four separator controls;
* `stripBlanks`       a text without the blanks at its two ends;
* `stripSpaces`       a text without the spaces at its two ends;
* `Text.strip`        a string without the blanks at its two ends.
-/

namespace Scim.Text

/-- A space, a line end or one of the separator controls. -/
def isBlank (c : Char) : Bool :=
  decide ((0x9 ≤ c.toNat ∧ c.toNat ≤ 0xd) ∨ (0x1c ≤ c.toNat ∧ c.toNat ≤ 0x20) ∨ c.toNat = 0x85 ∨
    c.toNat = 0xa0 ∨ c.toNat = 0x1680 ∨ (0x2000 ≤ c.toNat ∧ c.toNat ≤ 0x200a) ∨
    c.toNat = 0x2028 ∨ c.toNat = 0x2029 ∨ c.toNat = 0x202f ∨ c.toNat = 0x205f ∨
    c.toNat = 0x3000)

/-- A blank that is none of the four separator controls. -/
def isSpace (c : Char) : Bool := isBlank c && !decide (0x1c ≤ c.toNat ∧ c.toNat ≤ 0x1f)

/-- A text without the characters of a class at its two ends. -/
def trim (p : Char → Bool) (cs : List Char) : List Char :=
  ((cs.dropWhile p).reverse.dropWhile p).reverse

/-- A text without the blanks at its two ends. -/
def stripBlanks (cs : List Char) : List Char := trim isBlank cs

/-- A text without the spaces at its two ends. -/
def stripSpaces (cs : List Char) : List Char := trim isSpace cs

/-- A string without the blanks at its two ends. -/
def strip (s : String) : String := String.ofList (stripBlanks s.toList)

@[simp] theorem stripBlanks_nil : stripBlanks [] = [] := rfl

/-- Every space is a blank. -/
theorem isBlank_of_isSpace {c : Char} (h : isSpace c = true) : isBlank c = true := by
  simp only [isSpace, Bool.and_eq_true] at h
  exact h.1

end Scim.Text
