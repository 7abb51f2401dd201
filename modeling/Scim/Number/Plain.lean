import Scim.Number.Numeral

/-!
# Plain numerals

A plain numeral is an ASCII numeral with at most a minus sign before it, and its first digit is zero
only if it is its only digit.

* `readPlain`       the whole number that a plain numeral writes;
* `plainForm?`      the plain numeral that a looser text stands for;
* `readLoose`       the whole number of a plain numeral or of a looser text.

A looser text may have spaces around it, a plus sign, zeros before its first digit, underscores among
those zeros, single underscores between its digits, and a point with nothing but zeros behind it.
-/

namespace Scim.Number

open Scim.Text

/-- Why a text gives no whole number. -/
inductive NoNumber where
  /-- It is no numeral. -/
  | malformed
  /-- Its numeral takes more characters than are read. -/
  | tooLong
  deriving DecidableEq, Repr

/-- A leading minus sign, and what follows it. -/
def splitMinus : List Char → List Char × List Char
  | '-' :: cs => (['-'], cs)
  | cs => ([], cs)

/-- Whether digits begin with a zero that more digits follow. -/
def hasLeadingZero : List Char → Bool
  | '0' :: _ :: _ => true
  | _ => false

/-- The whole number that a plain numeral writes.  A sign and a run of digits that are too long
together are refused whatever follows them. -/
def readPlain (cs : List Char) : Except NoNumber Int :=
  let (sign, unsigned) := splitMinus cs
  let digits := unsigned.takeWhile Char.isDigit
  if digits = [] ∨ hasLeadingZero digits then .error .malformed
  else if maxNumeralDigits < sign.length + digits.length then .error .tooLong
  else if digits ≠ unsigned then .error .malformed
  else .ok (signed (sign ≠ []) (digitsValue digits))

/-- What is left behind a zero, `last`, and the zeros and underscores that follow it.  The character
before a point stays, and so does the last one of all. -/
def afterZeros (last : Char) : List Char → Option (List Char)
  | [] => some [last]
  | c :: cs =>
    if c = '0' ∨ c = '_' then afterZeros c cs
    else if c = '.' then some (last :: c :: cs)
    else if c = '-' ∨ c.isDigit then some (c :: cs)
    else none

/-- A text without the zeros before its first digit; a minus sign may stand between them. -/
def dropLeadingZeros : List Char → Option (List Char)
  | [] => none
  | c :: cs =>
    if c = '0' then afterZeros c cs
    else if c = '-' ∨ c.isDigit then some (c :: cs)
    else none

/-- A text without a point that only zeros, and at least one, follow. -/
def dropZeroFraction (cs : List Char) : List Char :=
  match splitAtMark '.' cs with
  | (whole, some fraction) =>
    if fraction ≠ [] ∧ fraction.all (· == '0') then whole else cs
  | (_, none) => cs

/-- Whether two underscores stand side by side. -/
def hasDoubleUnderscore : List Char → Bool
  | [] => false
  | c :: cs => (c == '_' && cs.head? == some '_') || hasDoubleUnderscore cs

/-- A text without its underscores, if each of them stands alone between other characters. -/
def dropUnderscores (cs : List Char) : List Char :=
  if cs.head? = some '_' ∨ cs.getLast? = some '_' ∨ hasDoubleUnderscore cs then cs
  else cs.filter (· != '_')

/-- The sign of a loose text, and what follows it; a plus sign is left out. -/
def splitLooseSign : List Char → Option (List Char × List Char)
  | '+' :: '-' :: _ => none
  | '+' :: cs => some ([], cs)
  | cs => some (splitMinus cs)

/-- The plain numeral that a loose text stands for, if the text is one. -/
def plainForm? (cs : List Char) : Option (List Char) := do
  let (sign, unsigned) ← splitLooseSign (stripSpaces cs)
  let digits ← dropLeadingZeros unsigned
  return sign ++ dropUnderscores (dropZeroFraction digits)

/-- The whole number of a plain numeral or of a looser text.  Only a numeral that is plain already
is called too long. -/
def readLoose (cs : List Char) : Except NoNumber Int :=
  match readPlain cs with
  | .error .malformed =>
    match (plainForm? cs).map readPlain with
    | some (.ok n) => .ok n
    | _ => .error .malformed
  | result => result

end Scim.Number
