import Scim.Text.Hex
import Scim.Text.Printable

/-!
# Quoted text

A text between quotation marks, in printable characters only.

* `quoteMark`    single quotes, or double quotes if the text holds a single quote and no double one;
* `escape`       a backslash before the mark and before a backslash, `\t`, `\n`, `\r`, and the code
                 point of any other character that does not print: `\x`, `\u` and `\U` with two,
                 four and eight hexadecimal digits;
* `quoted`       the text, escaped, between its marks.
-/

namespace Scim.Text

/-- The quotation mark around a text. -/
def quoteMark (cs : List Char) : Char :=
  if cs.contains '\'' && !cs.contains '"' then '"' else '\''

/-- A character that does not print, by its code point. -/
def escapeCode (c : Char) : List Char :=
  if c.toNat < 0x100 then '\\' :: 'x' :: hexDigits 2 c.toNat
  else if c.toNat < 0x10000 then '\\' :: 'u' :: hexDigits 4 c.toNat
  else '\\' :: 'U' :: hexDigits 8 c.toNat

/-- A character inside a text quoted with `mark`. -/
def escape (mark c : Char) : List Char :=
  if c = mark ∨ c = '\\' then ['\\', c]
  else if c = '\t' then ['\\', 't']
  else if c = '\n' then ['\\', 'n']
  else if c = '\r' then ['\\', 'r']
  else if isPrintable c then [c]
  else escapeCode c

/-- A text between quotation marks. -/
def quoted (s : String) : String :=
  let mark := quoteMark s.toList
  String.ofList (mark :: s.toList.flatMap (escape mark) ++ [mark])

end Scim.Text
