import Scim.Json.Basic
import Scim.Number.Shortest
import Scim.Text.Hex

/-!
# JSON texts

* `escapeChar`         a character inside a JSON string; controls are escaped, and in an ASCII text
                       every character beyond `~` as well, in UTF-16 units;
* `Json.inline`        a value on one line, in ASCII;
* `Json.pretty`        a value over several lines, indented by two spaces a level, with characters
                       beyond ASCII kept.
-/

namespace Scim.Json

open Number (Double)
open Text (hexDigits)

/-- A UTF-16 unit as an escape. -/
def escapeUnit (n : Nat) : List Char := '\\' :: 'u' :: hexDigits 4 n

/-- A character by its code point, as one UTF-16 unit or as two. -/
def escapeCode (c : Char) : List Char :=
  if c.toNat < 0x10000 then escapeUnit c.toNat
  else
    escapeUnit (0xd800 + (c.toNat - 0x10000) / 0x400) ++
      escapeUnit (0xdc00 + (c.toNat - 0x10000) % 0x400)

/-- A character inside a JSON string. -/
def escapeChar (ascii : Bool) (c : Char) : List Char :=
  if c = '"' then ['\\', '"']
  else if c = '\\' then ['\\', '\\']
  else if c = '\n' then ['\\', 'n']
  else if c = '\r' then ['\\', 'r']
  else if c = '\t' then ['\\', 't']
  else if c.toNat = 0x8 then ['\\', 'b']
  else if c.toNat = 0xc then ['\\', 'f']
  else if c.toNat < 0x20 then escapeCode c
  else if ascii && decide (0x7f ≤ c.toNat) then escapeCode c
  else [c]

/-- A JSON string with its quotation marks. -/
def stringText (ascii : Bool) (s : String) : List Char :=
  '"' :: s.toList.flatMap (escapeChar ascii) ++ ['"']

/-- A whole number. -/
def intText (n : Int) : List Char :=
  (if n < 0 then ['-'] else []) ++ Number.decimalDigits n.natAbs

/-- A double, with the words for the values that are no number. -/
def doubleText (x : Double) : List Char := x.textWith "Infinity".toList "NaN".toList

/-- The texts `true` and `false`. -/
def boolText (b : Bool) : List Char := if b then "true".toList else "false".toList

/-- Texts with a separator between two of them. -/
def separated (separator : List Char) : List (List Char) → List Char
  | [] => []
  | [t] => t
  | t :: ts => t ++ separator ++ separated separator ts

mutual

/-- The characters of a value on one line. -/
def inlineText : Json → List Char
  | .null => "null".toList
  | .bool b => boolText b
  | .int n => intText n
  | .double x => doubleText x
  | .string s => stringText true s
  | .array items => '[' :: separated [',', ' '] (inlineItems items) ++ [']']
  | .object fields => '\x7b' :: separated [',', ' '] (inlineFields fields) ++ ['\x7d']

/-- The items of an array, each on one line. -/
def inlineItems : List Json → List (List Char)
  | [] => []
  | v :: items => inlineText v :: inlineItems items

/-- The fields of an object, each on one line. -/
def inlineFields : List (String × Json) → List (List Char)
  | [] => []
  | (k, v) :: fields => (stringText true k ++ [':', ' '] ++ inlineText v) :: inlineFields fields

end

/-- A line break and the spaces of a level. -/
def lineBreak (level : Nat) : List Char := '\n' :: List.replicate (2 * level) ' '

/-- Texts between brackets: one a line, one level deeper than the brackets; nothing between the
brackets if there is no text. -/
def block (level : Nat) (opening closing : Char) (texts : List (List Char)) : List Char :=
  if texts.isEmpty then [opening, closing]
  else
    opening :: lineBreak (level + 1) ++ separated (',' :: lineBreak (level + 1)) texts ++
      lineBreak level ++ [closing]

mutual

/-- The characters of a value whose first line is already indented to `level`. -/
def prettyText (level : Nat) : Json → List Char
  | .null => "null".toList
  | .bool b => boolText b
  | .int n => intText n
  | .double x => doubleText x
  | .string s => stringText false s
  | .array items => block level '[' ']' (prettyItems (level + 1) items)
  | .object fields => block level '\x7b' '\x7d' (prettyFields (level + 1) fields)

/-- The items of an array. -/
def prettyItems (level : Nat) : List Json → List (List Char)
  | [] => []
  | v :: items => prettyText level v :: prettyItems level items

/-- The fields of an object. -/
def prettyFields (level : Nat) : List (String × Json) → List (List Char)
  | [] => []
  | (k, v) :: fields =>
    (stringText false k ++ [':', ' '] ++ prettyText level v) :: prettyFields level fields

end

/-- A value on one line, in ASCII. -/
def inline (j : Json) : String := String.ofList (inlineText j)

/-- A value over several lines. -/
def pretty (j : Json) : String := String.ofList (prettyText 0 j)

end Scim.Json
