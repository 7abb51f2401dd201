import Scim.Text.Blank

/-!
# Emoji codes

A code is a name between two colons, without blanks.  Which names are known, and what is shown for
them, is left open.

* `Emoji.Piece`      what is written in a text, and what is shown for it;
* `Emoji.pieces`     the pieces of a text: the codes of known names, and single characters;
* `Emoji.replace`    what is shown for all of them.
-/

namespace Scim.Text.Emoji

/-- A part of a text, and what is shown for it. -/
structure Piece where
  written : List Char
  shown : List Char
  deriving DecidableEq, Repr

/-- A character that is shown as it is. -/
def Piece.plain (c : Char) : Piece := ⟨[c], [c]⟩

/-- What is written for several pieces. -/
def written (ps : List Piece) : List Char := ps.flatMap Piece.written

/-- What is shown for several pieces. -/
def shown (ps : List Piece) : List Char := ps.flatMap Piece.shown

section
variable (emoji : List Char → Option (List Char))

/-- The code of a name; that of an unknown name is shown as it is. -/
def codeOf (name : List Char) : List Piece :=
  match emoji name with
  | some picture => [⟨':' :: name ++ [':'], picture⟩]
  | none => (':' :: name ++ [':']).map .plain

/-- The pieces of a text, behind a colon and the beginning of a name if one is given. -/
def piecesFrom : Option (List Char) → List Char → List Piece
  | none, [] => []
  | none, c :: cs => if c = ':' then piecesFrom (some []) cs else .plain c :: piecesFrom none cs
  | some name, [] => (':' :: name).map .plain
  | some name, c :: cs =>
    if c = ':' then codeOf emoji name ++ piecesFrom none cs
    else if isBlank c then (':' :: name ++ [c]).map .plain ++ piecesFrom none cs
    else piecesFrom (some (name ++ [c])) cs

/-- The pieces of a text.  A colon that ends a code begins no other one. -/
def pieces (cs : List Char) : List Piece := piecesFrom emoji none cs

/-- A text with emoji for their codes. -/
def replace (cs : List Char) : List Char := shown (pieces emoji cs)

end

example : replace (fun name => if name = ['b'] then some ['🅱'] else none) "a:b:c :x:b: :b".toList =
    "a🅱c :x:b: :b".toList := by decide

end Scim.Text.Emoji
