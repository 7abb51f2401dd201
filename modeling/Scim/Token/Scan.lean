import Scim.Token.Lexeme

/-!
# Scanning

At each place the first kind of the language with a run there gives a token; a blank that no kind
takes is skipped, and any other character is stray.

* `Stray`          a character that belongs to no token, and its position;
* `scanFrom`       the tokens of a text of which the first characters may already be taken;
* `scan`           the tokens of a text that stands at an offset.
-/

namespace Scim

/-- A character that belongs to no token. -/
structure Stray where
  char : Char
  position : Int
  deriving DecidableEq, Repr

/-- The tokens after the first `taken` characters of a text that stands at `position`.  The count of
characters that the last token takes keeps the recursion on the text itself. -/
def scanFrom (mode : Mode) : (taken : Nat) → (position : Int) → List Char →
    Except Stray (List Token)
  | _, _, [] => .ok []
  | taken + 1, position, _ :: cs => scanFrom mode taken (position + 1) cs
  | 0, position, c :: cs =>
    match mode.lexeme? (c :: cs) with
    | some (kind, text) =>
      (scanFrom mode (text.length - 1) (position + 1) cs).map (⟨kind, text, position⟩ :: ·)
    | none =>
      if Text.isBlank c then scanFrom mode 0 (position + 1) cs else .error ⟨c, position⟩

/-- The tokens of a text that stands at `offset` in the whole input. -/
def scan (mode : Mode) (source : List Char) (offset : Int) : Except Stray (List Token) :=
  scanFrom mode 0 offset source

end Scim
