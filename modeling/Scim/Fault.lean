import Scim.Text.Blank
import Scim.Token.Basic

/-!
# Faults

What is wrong with a text that does not follow the grammar, and where.

* `Cause`            the rule that is broken;
* `Fault`            a cause with the token at which it shows, if there is one, and its position;
* `Fault.message`    the words for it.

A fault is of one of two classes: `Cause.isValuePath` tells the rules about value paths from the
rules about the order of tokens.
-/

namespace Scim

/-- The rules of the grammar that a text can break. -/
inductive Cause where
  /-- A character belongs to no token. -/
  | strayCharacter
  /-- Another kind of token is needed here. -/
  | expected (kinds : List Kind)
  /-- The text ends with a logical operator. -/
  | danglingOperator
  /-- The expression is complete, but more follows. -/
  | trailingToken
  /-- An operand is needed here. -/
  | expectedOperand
  /-- A logical operator is followed by a group with nothing in it. -/
  | emptyOperand
  /-- An operand is needed here, inside the brackets of a value path. -/
  | expectedComparison
  /-- A value path inside the brackets of another one. -/
  | nestedValuePath
  /-- A value path on an attribute that is not top-level. -/
  | deepValuePath
  /-- The brackets on the named attribute hold no filter. -/
  | emptyValuePath (name : String)
  deriving DecidableEq, Repr

/-- The rules about value paths. -/
def Cause.isValuePath : Cause → Bool
  | expectedComparison | nestedValuePath | deepValuePath | emptyValuePath _ => true
  | _ => false

/-- A broken rule, the token at which it shows and the position. -/
structure Fault where
  cause : Cause
  token : Option (List Char)
  position : Int
  deriving DecidableEq, Repr

namespace Fault

/-- A token between quotation marks, without the blanks around it. -/
def shown (token : List Char) : String := "'" ++ String.ofList (Text.stripBlanks token) ++ "'"

/-- A value path as messages name it. -/
def valuePath (name : String) : String := "Value path '" ++ name ++ "[...]'"

/-- The kinds of token that would be right. -/
def anyOf (kinds : List Kind) : String := " or ".intercalate (kinds.map Kind.label)

/-- The words for a fault. -/
def message (f : Fault) : String :=
  let token := f.token.getD []
  match f.cause with
  | .strayCharacter => "Unexpected character '" ++ String.ofList token ++ "'."
  | .expected kinds =>
    match f.token with
    | none => "Unexpected end of input, expected " ++ anyOf kinds ++ "."
    | some token => "Unexpected " ++ shown token ++ ", expected " ++ anyOf kinds ++ "."
  | .danglingOperator =>
    "Unexpected end of input after '" ++ String.ofList token ++ "', expected an expression."
  | .trailingToken => "Unexpected " ++ shown token ++ " after the end of the expression."
  | .expectedOperand =>
    match f.token with
    | none =>
      "Unexpected end of input, expected an attribute/value path, " ++
        "opening parenthesis or a negation."
    | some token =>
      "Expected an attribute/value path, opening parenthesis or a negation, got " ++
        shown token ++ "."
  | .emptyOperand => "Expected an expression after " ++ shown token ++ ", got an empty group."
  | .expectedComparison =>
    "Expected a comparison, negation or logical expression inside value path brackets, got " ++
      shown token ++ "."
  | .nestedValuePath =>
    valuePath (String.ofList token) ++ " cannot be nested inside another value path."
  | .deepValuePath =>
    valuePath (String.ofList token) ++ " is only allowed on a top-level attribute."
  | .emptyValuePath name => valuePath name ++ " must contain a filter."

end Fault

end Scim
