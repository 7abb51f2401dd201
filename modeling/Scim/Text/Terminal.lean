import Scim.Text.Width

/-!
# Text on a terminal

How wide the characters are is left open.

* `dropSignals`    a text without bell, backspace, vertical tab, form feed and carriage return;
* `expandTabs`     every tab becomes one or more spaces, up to the next multiple of eight cells of
                   its line;
* `shown`          a text as a terminal shows it, with a line end;
* `crop`           a line cut to a number of cells;
* `splitLines`     the lines of a text, at every line feed.
-/

namespace Scim.Text

/-- The control characters that move the cursor or sound the bell. -/
def isSignal (c : Char) : Bool :=
  decide (c.toNat = 0x7 ∨ c.toNat = 0x8 ∨ c.toNat = 0xb ∨ c.toNat = 0xc ∨ c.toNat = 0xd)

/-- A text without signals. -/
def dropSignals (cs : List Char) : List Char := cs.filter (!isSignal ·)

/-- The number of cells between tab stops. -/
def tabStop : Nat := 8

/-- The spaces that a tab at the given column stands for; at a stop it stands for a whole one. -/
def tabSpaces (column : Nat) : List Char := List.replicate (tabStop - column % tabStop) ' '

section
variable (width : Char → Nat)

/-- The text with its tabs expanded, the first character standing at `column`. -/
def expandTabsFrom (column : Nat) : List Char → List Char
  | [] => []
  | c :: cs =>
    if c = '\t' then
      tabSpaces column ++ expandTabsFrom (column + (tabStop - column % tabStop)) cs
    else if c = '\n' then c :: expandTabsFrom 0 cs
    else c :: expandTabsFrom (column + width c) cs

/-- The text with its tabs expanded. -/
def expandTabs (cs : List Char) : List Char := expandTabsFrom width 0 cs

/-- A text as a terminal shows it, with a line end. -/
def shown (cs : List Char) : List Char := expandTabs width (dropSignals cs) ++ ['\n']

/-- The part of a line that fits into `room` cells.  A character of two cells that meets the edge
leaves a space. -/
def crop : Nat → List Char → List Char
  | _, [] => []
  | room, c :: cs =>
    if width c ≤ room then c :: crop (room - width c) cs
    else if room = 0 then [] else [' ']

end

/-- The lines of a text; a text without a line feed is one line. -/
def splitLines : List Char → List (List Char)
  | [] => [[]]
  | c :: cs =>
    if c = '\n' then [] :: splitLines cs
    else
      match splitLines cs with
      | [] => [[c]]
      | line :: lines => (c :: line) :: lines

end Scim.Text
