import Scim.Number.Double
import Scim.Text.Blank
import Scim.Text.Digit
import Scim.Text.Letter

/-!
# Numerals

* `numeralDigits?`    the digits of a run in which a single underscore may stand between two digits;
* `readInt?`          a whole number: spaces around it, a sign, digits of any script, at most 4300
                      of them;
* `readDouble?`       a double: spaces around it, a sign, and a word or a decimal number with an
                      optional exponent.
-/

namespace Scim.Number

open Scim.Text

/-- The largest number of digits of a whole number that is read from text. -/
def maxNumeralDigits : Nat := 4300

/-- The digits of a numeral; a single underscore may stand between two digits. -/
def numeralDigits? : List Char → Option (List Char)
  | [] => none
  | [c] => if isDigit c then some [c] else none
  | c :: d :: cs =>
    if isDigit c then
      if d = '_' then (numeralDigits? cs).map (c :: ·) else (numeralDigits? (d :: cs)).map (c :: ·)
    else none

/-- A leading sign, and what follows it. -/
def splitSign : List Char → Bool × List Char
  | '-' :: cs => (true, cs)
  | '+' :: cs => (false, cs)
  | cs => (false, cs)

/-- A number with its sign. -/
def signed (negative : Bool) (n : Nat) : Int := if negative then -(n : Int) else n

/-- The whole number that a text writes. -/
def readInt? (s : String) : Option Int := do
  let (negative, cs) := splitSign (stripSpaces s.toList)
  let ds ← numeralDigits? cs
  if maxNumeralDigits < ds.length then none else some (signed negative (digitsValue ds))

/-- The text split at the first `mark`, if there is one. -/
def splitAtMark (mark : Char) (cs : List Char) : List Char × Option (List Char) :=
  match cs.dropWhile (· != mark) with
  | [] => (cs, none)
  | _ :: rest => (cs.takeWhile (· != mark), some rest)

/-- The digits of a part of a decimal number that may be left out. -/
def optionalDigits? (cs : List Char) : Option (List Char) :=
  if cs = [] then some [] else numeralDigits? cs

/-- The words for an infinite value. -/
def infinityWords : List String := ["inf", "infinity"]

/-- The word for the undefined value. -/
def undefinedWord : String := "nan"

/-- The double that a text writes, spaces around it and a sign before it: a word in any case, or
digits with an optional fraction and an optional exponent. -/
def readDouble? (s : String) : Option Double := do
  let (negative, cs) := splitSign ((stripSpaces s.toList).map lowerAscii)
  if infinityWords.any (·.toList == cs) then return .infinite negative
  if undefinedWord.toList == cs then return .undefined
  let (mantissa, power) := splitAtMark 'e' cs
  let (whole, fraction) := splitAtMark '.' mantissa
  let head ← optionalDigits? whole
  let tail ← optionalDigits? (fraction.getD [])
  if head ++ tail = [] then none
  else
    let exponent : Int ← match power with
      | none => some 0
      | some p =>
        let (below, size) := splitSign p
        (numeralDigits? size).map fun ds => signed below (digitsValue ds)
    return .ofDecimal negative (digitsValue (head ++ tail)) (exponent - tail.length)

end Scim.Number
