/-!
# Invalid parts

The reasons why a part of a filter tree cannot be built or read.

* `Connective`           the two logical connectives, and a connective of neither kind;
* `Invalid`              the reasons;
* `Invalid.message`      the words for them.
-/

namespace Scim

/-- The logical connectives. -/
inductive Connective where
  | conjunction
  | disjunction
  /-- A connective that is neither of the two; no text gives one. -/
  | neutral
  deriving DecidableEq, Repr, Inhabited

/-- The name of a connective as a part of a tree. -/
def Connective.title : Connective → String
  | conjunction => "Conjunction"
  | disjunction => "Disjunction"
  | neutral => "Connective"

/-- Why a part of a filter tree cannot be built or read. -/
inductive Invalid where
  /-- An attribute path without a name. -/
  | noName
  /-- A comparison with an unknown operator, here in lower case. -/
  | unknownOperator (word : String)
  /-- A connective with fewer than two children. -/
  | fewChildren (kind : Connective)
  /-- A value path on an attribute that is not top-level. -/
  | deepValuePath
  /-- A whole number of more digits than can be read. -/
  | longNumber (digits : Nat)
  /-- A child that is not there. -/
  | noChild
  /-- An index that takes more than 64 bits. -/
  | hugeIndex
  /-- The length of a part that has none. -/
  | noLength (title : String)
  /-- The list of children of a part that has none. -/
  | notAList (title : String)
  /-- A child by its index, of a part without a list of children. -/
  | notIndexed (title : String)
  /-- A missing part, which cannot be written. -/
  | missingPart
  /-- A value that describes no part of a tree. -/
  | notANode
  deriving DecidableEq, Repr

/-- The words for an invalid part. -/
def Invalid.message : Invalid → String
  | noName => "An attribute path needs at least one name."
  | unknownOperator word => "Unknown comparison operator '" ++ word ++ "'."
  | fewChildren kind => kind.title ++ " needs at least two children."
  | deepValuePath => "A value path must be on a top-level attribute."
  | longNumber digits =>
    "Exceeds the limit (4300 digits) for integer string conversion: value has " ++
      toString digits ++ " digits; use sys.set_int_max_str_digits() to increase the limit"
  | noChild => "list index out of range"
  | hugeIndex => "cannot fit 'int' into an index-sized integer"
  | noLength title => "object of type '" ++ title ++ "' has no len()"
  | notAList title => "'" ++ title ++ "' object is not iterable"
  | notIndexed title => "'" ++ title ++ "' object is not subscriptable"
  | missingPart => "'NoneType' object has no attribute 'to_dict'"
  | notANode => "The value describes no node."

end Scim
