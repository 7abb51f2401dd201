import Scim.Json.Basic
import Scim.Number.Plain

/-!
# Reading JSON texts

The value that a text in the JSON format stands for.  A number with a fraction or an exponent is
read as the double nearest to it, any other as a whole number.

* `readString`     the characters up to the quotation mark at the end of a string; escapes are
                   resolved, and two UTF-16 units that belong together are one character;
* `readNumber`     a number: a sign, digits, a fraction, an exponent;
* `readParts`      parts with commas between them, up to a closing character;
* `readValue`      a value, and what follows it;
* `Json.read?`     the value of a whole text.
-/

namespace Scim.Json

open Number Text

/-- Spaces and line ends, which may stand between the parts of a text. -/
def isGap (c : Char) : Bool := c == ' ' || c == '\t' || c == '\n' || c == '\r'

/-- A text without the spaces at its start. -/
def skipGap (cs : List Char) : List Char := cs.dropWhile isGap

/-! ## Strings -/

/-- The value of a hexadecimal digit in either case. -/
def hexValue? (c : Char) : Option Nat :=
  if 0x30 ≤ c.toNat ∧ c.toNat ≤ 0x39 then some (c.toNat - 0x30)
  else if 0x61 ≤ c.toNat ∧ c.toNat ≤ 0x66 then some (c.toNat - 0x57)
  else if 0x41 ≤ c.toNat ∧ c.toNat ≤ 0x46 then some (c.toNat - 0x37)
  else none

/-- The UTF-16 unit that four hexadecimal digits write. -/
def unitOf? (a b c d : Char) : Option Nat := do
  let high ← hexValue? a
  let next ← hexValue? b
  let lower ← hexValue? c
  let low ← hexValue? d
  return 0x1000 * high + 0x100 * next + 0x10 * lower + low

/-- The character that a backslash and another character stand for. -/
def escaped? : Char → Option Char
  | '"' => some '"'
  | '\\' => some '\\'
  | '/' => some '/'
  | 'b' => some '\x08'
  | 'f' => some '\x0c'
  | 'n' => some '\n'
  | 'r' => some '\r'
  | 't' => some '\t'
  | _ => none

/-- The codes of the characters up to the next quotation mark, and what follows it.  An escaped
UTF-16 unit is its own code. -/
def readCodes : List Char → Option (List Nat × List Char)
  | [] => none
  | c :: cs =>
    if c = '"' then some ([], cs)
    else if c = '\\' then
      match cs with
      | 'u' :: x :: y :: z :: w :: cs => do
        let unit ← unitOf? x y z w
        let (codes, rest) ← readCodes cs
        return (unit :: codes, rest)
      | e :: cs => do
        let char ← escaped? e
        let (codes, rest) ← readCodes cs
        return (char.toNat :: codes, rest)
      | [] => none
    else if c.toNat < 0x20 then none
    else do
      let (codes, rest) ← readCodes cs
      return (c.toNat :: codes, rest)

/-- The characters of some codes.  Two codes that are the halves of one character are joined, and a
half alone is refused. -/
def joinCodes : List Nat → Option (List Char)
  | [] => some []
  | n :: ns =>
    if n.isValidChar then (joinCodes ns).map (Char.ofNat n :: ·)
    else
      match ns with
      | m :: ms =>
        if 0xd800 ≤ n ∧ n < 0xdc00 ∧ 0xdc00 ≤ m ∧ m < 0xe000 then
          (joinCodes ms).map (Char.ofNat (0x10000 + 0x400 * (n - 0xd800) + (m - 0xdc00)) :: ·)
        else none
      | [] => none

/-- The rest of a string behind its first quotation mark, and what follows it. -/
def readString (cs : List Char) : Option (String × List Char) := do
  let (codes, rest) ← readCodes cs
  let text ← joinCodes codes
  return (String.ofList text, rest)

/-! ## Numbers -/

/-- A run of digits, and what follows it. -/
def readDigits (cs : List Char) : Option (List Char × List Char) :=
  let digits := cs.takeWhile Char.isDigit
  if digits = [] then none else some (digits, cs.dropWhile Char.isDigit)

/-- The digits behind a point, if there is one. -/
def readFraction : List Char → Option (Option (List Char) × List Char)
  | '.' :: cs => do
    let (digits, rest) ← readDigits cs
    return (some digits, rest)
  | cs => some (none, cs)

/-- The number behind the mark of an exponent, if there is one. -/
def readPower : List Char → Option (Option Int × List Char)
  | [] => some (none, [])
  | c :: cs =>
    if c = 'e' ∨ c = 'E' then do
      let (negative, size) := splitSign cs
      let (digits, rest) ← readDigits size
      return (some (signed negative (digitsValue digits)), rest)
    else some (none, c :: cs)

/-- The number of digits before and behind a point and of an exponent. -/
def numberOf (negative : Bool) (whole : List Char) (fraction : Option (List Char))
    (power : Option Int) : Json :=
  if fraction.isNone && power.isNone then .int (signed negative (digitsValue whole))
  else
    let tail := fraction.getD []
    .double (.ofDecimal negative (digitsValue (whole ++ tail)) (power.getD 0 - tail.length))

/-- A number, and what follows it. -/
def readNumber (cs : List Char) : Option (Json × List Char) := do
  let (sign, unsigned) := splitMinus cs
  let (whole, rest) ← readDigits unsigned
  if hasLeadingZero whole then none
  else
    let (fraction, rest) ← readFraction rest
    let (power, rest) ← readPower rest
    return (numberOf (sign ≠ []) whole fraction power, rest)

/-! ## Values -/

def words : List (List Char × Json) :=
  [("null".toList, .null), ("true".toList, .bool true), ("false".toList, .bool false)]

/-- A word for a value, and what follows it. -/
def readWord (cs : List Char) : Option (Json × List Char) :=
  words.findSome? fun word =>
    if word.1.isPrefixOf cs then some (word.2, cs.drop word.1.length) else none

/-- Parts with commas between them up to a closing character, and what follows it. -/
def readParts {α : Type} (read : List Char → Option (α × List Char)) (closing : Char) :
    (fuel : Nat) → List Char → Option (List α × List Char)
  | 0, _ => none
  | fuel + 1, cs => do
    let (part, rest) ← read cs
    match skipGap rest with
    | c :: rest =>
      if c = ',' then do
        let (parts, rest) ← readParts read closing fuel rest
        return (part :: parts, rest)
      else if c = closing then return ([part], rest)
      else none
    | [] => none

/-- The same where there may be no part. -/
def readBlock {α : Type} (read : List Char → Option (α × List Char)) (closing : Char) (fuel : Nat)
    (cs : List Char) : Option (List α × List Char) :=
  let cs := skipGap cs
  if cs.head? = some closing then some ([], cs.tail) else readParts read closing fuel cs

/-- A key, a colon and a value, and what follows it. -/
def readField (read : List Char → Option (Json × List Char)) (cs : List Char) :
    Option ((String × Json) × List Char) :=
  match skipGap cs with
  | '"' :: cs => do
    let (key, rest) ← readString cs
    match skipGap rest with
    | ':' :: rest => do
      let (v, rest) ← read rest
      return ((key, v), rest)
    | _ => none
  | _ => none

/-- A value behind some spaces, and what follows it. -/
def readValue : (fuel : Nat) → List Char → Option (Json × List Char)
  | 0, _ => none
  | fuel + 1, cs =>
    match skipGap cs with
    | '"' :: cs => do
      let (s, rest) ← readString cs
      return (.string s, rest)
    | '[' :: cs => do
      let (items, rest) ← readBlock (readValue fuel) ']' fuel cs
      return (.array items, rest)
    | '\x7b' :: cs => do
      let (fields, rest) ← readBlock (readField (readValue fuel)) '\x7d' fuel cs
      return (.object fields, rest)
    | cs => (readWord cs).or (readNumber cs)

/-- The value that a text stands for; nothing but spaces may surround it. -/
def read? (s : String) : Option Json :=
  match readValue s.length s.toList with
  | some (j, rest) => if skipGap rest = [] then some j else none
  | none => none

end Scim.Json
