import Scim.Fault
import Scim.Json.Basic
import Scim.Tree.Node

/-!
# Problems

What a caller is told when a text or a configuration is refused.

* `Site`                  the token, the position and the whole text of a malformed expression;
* `Problem.Kind`          the classes of problem;
* `Problem`               a class, a message and the type under which the protocol reports it;
* `Problem.text`          the message, with the position if there is one;
* `Failure`               a problem as the command line reports it.
-/

namespace Scim

/-- Where an expression is malformed. -/
structure Site where
  token : Option String
  position : Option Int
  expression : Option String
  deriving DecidableEq, Repr

/-- The classes of problem. -/
inductive Problem.Kind where
  | general
  | malformed (site : Site)
  | valuePath (site : Site)
  | limit (limit actual : Int)
  | internal
  | configuration
  deriving DecidableEq, Repr

/-- What a caller is told. -/
structure Problem where
  kind : Problem.Kind
  message : String
  scimType : Option String
  deriving DecidableEq, Repr

/-- The type under which the protocol reports a class of problem. -/
def Problem.Kind.scimType : Problem.Kind → Option String
  | malformed _ | valuePath _ | limit _ _ => some "invalidFilter"
  | _ => none

/-- The place in the expression, for the two classes that have one. -/
def Problem.Kind.site? : Problem.Kind → Option Site
  | malformed site | valuePath site => some site
  | _ => none

/-- The words for a problem with a value path that says no more. -/
def Problem.valuePathMessage : String := "Invalid value path."

namespace Problem

/-- A problem of the type of its class. -/
def make (kind : Problem.Kind) (message : String) : Problem := ⟨kind, message, kind.scimType⟩

/-- The place in the expression. -/
def site? (p : Problem) : Option Site := p.kind.site?

/-- The message, with the position if there is one. -/
def text (p : Problem) : String :=
  match p.site?.bind Site.position with
  | some position => p.message ++ " (position " ++ toString position ++ ")"
  | none => p.message

/-- A fault in the whole text `expression`, for the language `mode`. -/
def ofFault (mode : Mode) (expression : String) (f : Fault) : Problem :=
  let site : Site := ⟨f.token.map String.ofList, some f.position, some expression⟩
  ⟨if f.cause.isValuePath then .valuePath site else .malformed site, f.message,
    some (match mode with
      | .filter => "invalidFilter"
      | .path => "invalidPath")⟩

/-- A text of more characters than the limit. -/
def tooLong (limit actual : Nat) : Problem :=
  make (.limit limit actual) ("Expression is " ++ toString actual ++
    " characters long, the limit is " ++ toString limit ++ ".")

/-- A text that nests deeper than the limit. -/
def tooDeep (limit actual : Nat) : Problem :=
  make (.limit limit actual) ("Expression nests " ++ toString actual ++
    " levels deep, the limit is " ++ toString limit ++ ".")

/-- A part of a tree that cannot be put below an attribute. -/
def obstacle (outer : AttributePath) (n : Node) : Problem :=
  make .internal ("Cannot prefix attribute path '" ++ outer.fullName ++ "' on " ++ n.title ++ ".")

/-- Operands that are linked, but not by a connective. -/
def unlinked (n : Node) : Problem :=
  make .internal ("Cannot link operands in " ++ n.title ++ ".")

/-- A text that nests deeper than the parser was told to follow. -/
def exhausted : Problem := make .internal "Nesting exceeds the budget."

end Problem

/-- A problem as the command line reports it. -/
structure Failure where
  message : String
  exitCode : Nat
  type : String
  scimType : Option String
  details : Option (List (String × Json))

/-- The details that are known of a place. -/
def Site.details (s : Site) : List (String × Json) :=
  (s.token.map fun t => ("token", Json.string t)).toList ++
    (s.position.map fun p => ("position", Json.int p)).toList

/-- Details, unless there are none. -/
def Failure.details? (fields : List (String × Json)) : Option (List (String × Json)) :=
  if fields.isEmpty then none else some fields

/-- A problem as the command line reports it. -/
def Problem.failure (p : Problem) : Failure :=
  match p.kind with
  | .malformed site => ⟨p.text, 2, "syntax_error", p.scimType, Failure.details? site.details⟩
  | .valuePath site => ⟨p.text, 2, "invalid_value_path", p.scimType, Failure.details? site.details⟩
  | .limit limit actual =>
    ⟨p.message, 2, "limit_exceeded", p.scimType,
      some [("limit", .int limit), ("actual", .int actual)]⟩
  | .configuration => ⟨p.message, 2, "config_error", none, none⟩
  | .internal | .general => ⟨p.message, 1, "internal_error", p.scimType, none⟩

end Scim
