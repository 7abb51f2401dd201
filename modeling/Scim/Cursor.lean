import Scim.Fault
import Scim.Token.Scan

/-!
# Reading tokens

A cursor stands between two tokens of a scanned text.

* `Cursor`               the text, its offset in the whole input, and the tokens not yet read;
* `Cursor.ofText`        the cursor before the first token of a text;
* `Cursor.position`      where the next token starts, or where the text ends;
* `Cursor.take`          reads a token of one of the given kinds;
* `Cursor.takeUntil`     reads up to a closing token, over matched pairs, and returns the part of
                         the text from the first to the last token read.
-/

namespace Scim

/-- A place between two tokens of a scanned text. -/
structure Cursor where
  source : List Char
  offset : Int
  index : Nat
  rest : List Token
  deriving DecidableEq, Repr

/-- A stray character as a fault. -/
def Stray.fault (s : Stray) : Fault := ⟨.strayCharacter, some [s.char], s.position⟩

namespace Cursor

/-- The cursor before the first token of a text that stands at `offset`. -/
def ofText (mode : Mode) (source : List Char) (offset : Int) : Except Fault Cursor :=
  match scan mode source offset with
  | .ok tokens => .ok ⟨source, offset, 0, tokens⟩
  | .error stray => .error stray.fault

/-- The number of tokens of the text. -/
def length (c : Cursor) : Nat := c.index + c.rest.length

/-- The next token. -/
def peek? (c : Cursor) : Option Token := c.rest.head?

/-- Where the next token starts, or where the text ends. -/
def position (c : Cursor) : Int :=
  match c.rest with
  | t :: _ => t.position
  | [] => c.offset + c.source.length

/-- Whether a token is left. -/
def hasNext (c : Cursor) : Bool := !c.rest.isEmpty

/-- Whether the next token is of one of the kinds. -/
def isNext (kinds : List Kind) (c : Cursor) : Bool := c.peek?.any fun t => kinds.contains t.kind

/-- The text of the next token, empty at the end. -/
def nextText (c : Cursor) : List Char := (c.peek?.map Token.text).getD []

/-- A fault at the next token, or at the end of the text. -/
def fault (cause : Cause) (c : Cursor) : Fault := ⟨cause, c.peek?.map Token.text, c.position⟩

/-- The cursor after the next `n` tokens. -/
def skip (n : Nat) (c : Cursor) : Cursor :=
  { c with index := c.index + n, rest := c.rest.drop n }

/-- Reads a token of one of the kinds. -/
def take (kinds : List Kind) (c : Cursor) : Except Fault (Token × Cursor) :=
  match c.rest with
  | t :: _ =>
    if kinds.contains t.kind then .ok (t, c.skip 1) else .error (c.fault (.expected kinds))
  | [] => .error (c.fault (.expected kinds))

/-- The tokens before the closing token that matches no opening one among them; `depth` opening
tokens are still unmatched. -/
def runUntil (close : Kind) (opening : Option Kind) : (depth : Nat) → List Token → List Token
  | _, [] => []
  | depth, t :: ts =>
    if t.kind = close then
      match depth with
      | 0 => []
      | depth + 1 => t :: runUntil close opening depth ts
    else if some t.kind = opening then t :: runUntil close opening (depth + 1) ts
    else t :: runUntil close opening depth ts

/-- The part of the text from the first to the last of the given tokens. -/
def span (c : Cursor) (tokens : List Token) : List Char :=
  match tokens.head?, tokens.getLast? with
  | some first, some last =>
    (c.source.drop (first.position - c.offset).toNat).take (last.stop - first.position).toNat
  | _, _ => []

/-- Reads the tokens before the closing token that matches no opening one among them, all tokens if
there is none, and returns the part of the text that they span. -/
def takeUntil (close : Kind) (opening : Option Kind) (c : Cursor) : List Char × Cursor :=
  let run := runUntil close opening 0 c.rest
  (c.span run, c.skip run.length)

end Cursor

end Scim
