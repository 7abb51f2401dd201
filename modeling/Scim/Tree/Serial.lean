import Scim.Tree.Node

/-!
# Trees as JSON values

* `Node.toJson`     a tree as nested objects that carry the type of the part;
* `Node.record`     the same for a complete tree; any other is refused;
* `Node.ofJson`     builds the tree that a JSON value describes, its parts first, and refuses what
                    the constructors refuse; absent fields count as null.
-/

namespace Scim

open Number (Double)

/-- The type of a connective in a JSON value. -/
def Connective.tag : Connective → String
  | conjunction => "conjunction"
  | disjunction => "disjunction"
  | neutral => "connective"

/-- An attribute path as a JSON value. -/
def AttributePath.toJson (p : AttributePath) : Json :=
  .object [("type", .string "attribute_path"), ("schema", .ofString? p.schema),
    ("names", .array (p.names.map .string))]

/-- A comparison as a JSON value. -/
def Comparison.toJson (c : Comparison) : Json :=
  .object [("type", .string "comparison"), ("path", c.path.toJson),
    ("operator", .string c.operator.word), ("value", c.value.toJson)]

namespace Node

mutual

/-- A tree as a JSON value. -/
def toJson : Node → Json
  | path p => p.toJson
  | comparison c => c.toJson
  | negation inner => .object [("type", .string "negation"), ("inner", inner.toJson)]
  | connective kind children =>
    .object [("type", .string kind.tag), ("children", .array (toJsonAll children))]
  | valuePath p inner subAttribute =>
    .object [("type", .string "value_path"), ("path", p.toJson), ("inner", inner.toJson),
      ("sub_attribute", .ofString? subAttribute)]
  | missing => .null

/-- Several trees as JSON values. -/
def toJsonAll : List Node → List Json
  | [] => []
  | n :: ns => n.toJson :: toJsonAll ns

end

/-- A complete tree as a JSON value. -/
def record (n : Node) : Except Invalid Json :=
  if n.isComplete then .ok n.toJson else .error .missingPart

/-- A string, where null or an absent field is none. -/
def text? (key : String) (j : Json) : Except Invalid (Option String) :=
  match j.field? key with
  | some (.string s) => .ok (some s)
  | some .null => .ok none
  | none => .ok none
  | _ => .error .notANode

/-- The strings of a list. -/
def strings : List Json → Except Invalid (List String)
  | [] => .ok []
  | .string s :: items => (strings items).map (s :: ·)
  | _ => .error .notANode

/-- The attribute path that a JSON value describes. -/
def pathOfJson (j : Json) : Except Invalid AttributePath := do
  let schema ← text? "schema" j
  match j.field? "names" with
  | some (.array items) => AttributePath.make schema (← strings items)
  | _ => .error .notANode

/-- The path of a comparison or of a value path. -/
def pathField (j : Json) : Except Invalid AttributePath :=
  match j.field? "path" with
  | some value => pathOfJson value
  | none => .error .notANode

/-- The comparison that a JSON value describes. -/
def comparisonOfJson (j : Json) : Except Invalid Comparison := do
  let p ← pathField j
  match j.field? "operator", Value.ofJson? ((j.field? "value").getD .null) with
  | some (.string word), some value => Comparison.make p word value
  | _, _ => .error .notANode

/-- The connective with the given type. -/
def connective? (tag : String) : Option Connective :=
  [Connective.conjunction, .disjunction, .neutral].find? fun k => k.tag == tag

/-- The tree that a JSON value describes. -/
def ofJson (j : Json) : Except Invalid Node :=
  match j with
  | .null => .ok .missing
  | j =>
    match j.field? "type" with
    | some (.string "attribute_path") => (pathOfJson j).map .path
    | some (.string "comparison") => (comparisonOfJson j).map .comparison
    | some (.string "negation") =>
      match h : j.field? "inner" with
      | some inner =>
        have := Json.sizeOf_field?_lt h
        (ofJson inner).map .negation
      | none => .error .notANode
    | some (.string "value_path") =>
      match h : j.field? "inner" with
      | some inner => do
        let p ← pathField j
        have := Json.sizeOf_field?_lt h
        within p (← ofJson inner) (← text? "sub_attribute" j)
      | none => .error .notANode
    | some (.string tag) =>
      match connective? tag, h : j.field? "children" with
      | some kind, some (.array items) => do
        have := Json.sizeOf_field?_lt h
        connect kind (← items.attach.mapM fun ⟨item, _⟩ => ofJson item)
      | _, _ => .error .notANode
    | _ => .error .notANode
termination_by sizeOf j
decreasing_by
  · omega
  · omega
  · have := List.sizeOf_lt_of_mem ‹_›
    simp only [Json.array.sizeOf_spec] at *
    omega

end Node

end Scim
