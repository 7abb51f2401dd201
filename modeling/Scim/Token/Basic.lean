/-!
# Tokens

* `Kind`      the kinds of token;
* `Mode`      the two languages, filters and paths, with the kinds of each in the order in which
              they are tried;
* `Token`     a run of characters of one kind, with its place in the whole input.

Positions are integers: a text may be scanned as if it stood anywhere in a larger input.
-/

namespace Scim

/-- The kinds of token. -/
inductive Kind where
  | number
  | string
  | boolean
  | null
  | openParen
  | closeParen
  | openBracket
  | closeBracket
  | negation
  | logical
  | comparison
  | name
  | subAttribute
  deriving DecidableEq, Repr, Inhabited

namespace Kind

/-- The words for a kind in messages. -/
def label : Kind → String
  | number => "number"
  | string => "string"
  | boolean => "boolean"
  | null => "null"
  | openParen => "'('"
  | closeParen => "')'"
  | openBracket => "'['"
  | closeBracket => "']'"
  | negation => "'not'"
  | logical => "logical operator"
  | comparison => "comparison operator"
  | name => "attribute path"
  | subAttribute => "sub-attribute"

/-- The kinds that can be compared with. -/
def values : List Kind := [string, number, boolean, null]

/-- The brackets that open a level of nesting. -/
def opens (k : Kind) : Bool := k == openParen || k == openBracket

/-- The brackets that close a level of nesting. -/
def closes (k : Kind) : Bool := k == closeParen || k == closeBracket

end Kind

/-- The two languages. -/
inductive Mode where
  | filter
  | path
  deriving DecidableEq, Repr, Inhabited

namespace Mode

/-- The name of a language. -/
def label : Mode → String
  | filter => "filter"
  | path => "path"

/-- The kinds of a filter. -/
def filterKinds : List Kind :=
  [.number, .string, .boolean, .null, .openParen, .closeParen, .openBracket, .closeBracket,
    .negation, .logical, .comparison, .name]

/-- The kinds of a language, in the order in which they are tried. -/
def kinds : Mode → List Kind
  | filter => filterKinds
  | path => filterKinds ++ [.subAttribute]

end Mode

/-- A token. -/
structure Token where
  kind : Kind
  text : List Char
  position : Int
  deriving DecidableEq, Repr, Inhabited

/-- The position right after a token. -/
def Token.stop (t : Token) : Int := t.position + t.text.length

/-- A token moved by `n`. -/
def Token.shift (n : Int) (t : Token) : Token := { t with position := t.position + n }

end Scim
