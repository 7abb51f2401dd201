/-!
# Letters

Keywords and attribute names ignore the case of letters.  Four characters beyond ASCII count as a
spelling of an ASCII letter: the dotted capital I and the dotless i, the long s, and the Kelvin
sign.

* `lowerAscii`    the lower case of `A` to `Z`, the identity elsewhere;
* `foldLetter`    the letter that a character spells;
* `isLetter`      the characters that spell a letter from a to z.
-/

namespace Scim.Text

/-- The lower case of `A` to `Z`. -/
def lowerAscii (c : Char) : Char :=
  if 0x41 ≤ c.toNat ∧ c.toNat ≤ 0x5a then Char.ofNat (c.toNat + 0x20) else c

/-- The letter that a character spells when case is ignored; any other character spells itself. -/
def foldLetter (c : Char) : Char :=
  if c.toNat = 0x130 ∨ c.toNat = 0x131 then 'i'
  else if c.toNat = 0x17f then 's'
  else if c.toNat = 0x212a then 'k'
  else lowerAscii c

/-- A character that spells a letter from a to z. -/
def isLetter (c : Char) : Bool :=
  decide (0x61 ≤ (foldLetter c).toNat ∧ (foldLetter c).toNat ≤ 0x7a)

end Scim.Text
