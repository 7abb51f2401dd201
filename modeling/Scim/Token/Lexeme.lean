import Scim.Text.Blank
import Scim.Text.Digit
import Scim.Text.Letter
import Scim.Token.Basic

/-!
# Lexemes

For each kind of token, the run of characters of that kind at the start of a text.

* `word?`             a keyword, its letters in any case;
* `dottedTail`        segments of a name joined by single dots;
* `qualified?`        a name with a schema, which ends at the last colon that a name follows;
* `Kind.lexeme?`      the run of a kind;
* `Mode.lexeme?`      the first kind of a language that has a run.
-/

namespace Scim

open Text

namespace Lexeme

/-- A character of a segment of a name. -/
def isSegment (c : Char) : Bool :=
  isLetter c || decide (0x30 ≤ c.toNat ∧ c.toNat ≤ 0x39) || c == '_' || c == '-'

/-- A character of a schema: no blank, quotation mark, parenthesis or bracket. -/
def isSchema (c : Char) : Bool :=
  !isBlank c && c != '"' && c != '(' && c != ')' && c != '[' && c != ']'

/-- A character with which a name would go on after a keyword. -/
def continuesName (c : Char) : Bool := isSegment c || c == '.' || c == ':'

/-- The lower case `word` in any case. -/
def word? (word : List Char) (cs : List Char) : Option (List Char) :=
  let text := cs.take word.length
  if text.map foldLetter = word then some text else none

/-- One of several words. -/
def anyWord? (words : List (List Char)) (cs : List Char) : Option (List Char) :=
  words.findSome? fun word => word? word cs

/-- One of several words that are not the head of a name. -/
def literal? (words : List (List Char)) (cs : List Char) : Option (List Char) :=
  (anyWord? words cs).filter fun text => !(cs.drop text.length).head?.any continuesName

/-- Digits, and possibly a point and more digits. -/
def number? (cs : List Char) : Option (List Char) :=
  let whole := cs.takeWhile isDigit
  if whole.isEmpty then none
  else
    match cs.drop whole.length with
    | '.' :: rest =>
      let fraction := rest.takeWhile isDigit
      if fraction.isEmpty then some whole else some (whole ++ '.' :: fraction)
    | _ => some whole

/-- Characters between quotation marks. -/
def string? : List Char → Option (List Char)
  | '"' :: rest =>
    let body := rest.takeWhile (· != '"')
    if body.length < rest.length then some ('"' :: body ++ ['"']) else none
  | _ => none

/-- A single character. -/
def char? (c : Char) : List Char → Option (List Char)
  | d :: _ => if d = c then some [d] else none
  | [] => none

/-- The word `not`, with the blanks after it or right before a parenthesis. -/
def negation? (cs : List Char) : Option (List Char) := do
  let text ← word? ['n', 'o', 't'] cs
  let rest := cs.drop text.length
  let blanks := rest.takeWhile isBlank
  if !blanks.isEmpty then some (text ++ blanks)
  else if rest.head? = some '(' then some text
  else none

/-- A word and the blanks after it, of which there is at least one. -/
def spacedWord? (words : List (List Char)) (cs : List Char) : Option (List Char) := do
  let text ← anyWord? words cs
  let blanks := (cs.drop text.length).takeWhile isBlank
  if blanks.isEmpty then none else some (text ++ blanks)

/-- The words of the logical operators. -/
def logicalWords : List (List Char) := [['a', 'n', 'd'], ['o', 'r']]

/-- The words of the comparison operators that take a value. -/
def comparisonWords : List (List Char) :=
  [['e', 'q'], ['n', 'e'], ['c', 'o'], ['s', 'w'], ['e', 'w'], ['g', 't'], ['l', 't'],
    ['g', 'e'], ['l', 'e']]

/-- A logical operator with the blanks around it. -/
def logical? (cs : List Char) : Option (List Char) :=
  let blanks := cs.takeWhile isBlank
  if blanks.isEmpty then none
  else (spacedWord? logicalWords (cs.drop blanks.length)).map (blanks ++ ·)

/-- A comparison operator with one blank before it; all but `pr` also need a blank after it and
take the blanks there. -/
def comparison? : List Char → Option (List Char)
  | c :: cs =>
    if isBlank c then
      ((spacedWord? comparisonWords cs).orElse fun _ => word? ['p', 'r'] cs).map (c :: ·)
    else none
  | [] => none

/-- What a dotted name takes after its first character: a dot is part of the name only between two
characters of segments. -/
def dottedTail : List Char → List Char
  | [] => []
  | c :: cs =>
    if isSegment c then c :: dottedTail cs
    else if c = '.' ∧ cs.head?.any isSegment then c :: dottedTail cs
    else []

/-- Segments joined by single dots. -/
def dotted? (cs : List Char) : Option (List Char) :=
  if cs.head?.any isSegment then some (dottedTail cs) else none

/-- The rest of a schema up to the last colon that a dotted name follows, and that name. -/
def qualifiedTail? : List Char → Option (List Char)
  | [] => none
  | c :: cs =>
    if isSchema c then
      match qualifiedTail? cs with
      | some text => some (c :: text)
      | none => if c = ':' then (dotted? cs).map (c :: ·) else none
    else none

/-- A schema of at least one character, a colon and a dotted name. -/
def qualified? : List Char → Option (List Char)
  | [] => none
  | c :: cs => if isSchema c then (qualifiedTail? cs).map (c :: ·) else none

/-- A dotted name, with a schema if there is one. -/
def name? (cs : List Char) : Option (List Char) := (qualified? cs).orElse fun _ => dotted? cs

/-- A dot and a segment after which only blanks are left. -/
def subAttribute? : List Char → Option (List Char)
  | '.' :: rest =>
    let segment := rest.takeWhile isSegment
    if segment.isEmpty || !(rest.drop segment.length).all isBlank then none
    else some ('.' :: segment)
  | _ => none

end Lexeme

open Lexeme in
/-- The run of characters of a kind at the start of a text. -/
def Kind.lexeme? : Kind → List Char → Option (List Char)
  | .number => number?
  | .string => string?
  | .boolean => literal? [['t', 'r', 'u', 'e'], ['f', 'a', 'l', 's', 'e']]
  | .null => literal? [['n', 'u', 'l', 'l']]
  | .openParen => char? '('
  | .closeParen => char? ')'
  | .openBracket => char? '['
  | .closeBracket => char? ']'
  | .negation => negation?
  | .logical => logical?
  | .comparison => comparison?
  | .name => name?
  | .subAttribute => subAttribute?

/-- The first kind of a language with a run at the start of a text, and that run. -/
def Mode.lexeme? (mode : Mode) (cs : List Char) : Option (Kind × List Char) :=
  mode.kinds.findSome? fun kind => (kind.lexeme? cs).map (kind, ·)

end Scim
