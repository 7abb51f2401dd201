import Scim.Report.Outline
import Scim.Text.Emoji

/-!
# Writers

Reports are written by libraries, for JSON and for the terminal.

* `Writer`             what the program uses of them;
* `Writer.ofTables`    a writer by the cells of characters and the names of emoji;
* `Writer.standard`    a writer that knows no emoji.
-/

namespace Scim

/-- What writes reports. -/
structure Writer where
  /-- The depth of the deepest value that is written as JSON. -/
  deepest : Nat
  /-- The cells of a character. -/
  width : Char → Nat
  /-- What is shown for the name of an emoji. -/
  emoji : List Char → Option (List Char)
  /-- Writes a text as it is. -/
  text : List Char → List Char
  /-- Writes a text with emoji for their codes. -/
  coded : List Char → List Char
  /-- Draws a tree. -/
  drawing : Outline → List Char

namespace Writer

/-- A writer by the cells of characters and the names of emoji. -/
def ofTables (deepest : Nat) (width : Char → Nat) (emoji : List Char → Option (List Char)) :
    Writer where
  deepest := deepest
  width := width
  emoji := emoji
  text := Text.shown width
  coded cs := Text.shown width (Text.Emoji.replace emoji cs)
  drawing o := (o.lines width).flatMap (· ++ ['\n'])

/-- A writer that knows no emoji. -/
def standard : Writer := ofTables 255 Text.cellWidth fun _ => none

end Writer

end Scim
