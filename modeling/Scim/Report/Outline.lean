import Scim.Report.Label
import Scim.Text.Terminal

/-!
# Drawings of trees

* `Outline`             a tree of labels;
* `Outline.ofJson`      the labels of a tree that is given as a JSON value;
* `Outline.lines`       the lines of a drawing, given the cells of characters: each label follows
                        guides that lead to it, and is cut at the right edge of the screen.
-/

namespace Scim

/-- A tree of labels. -/
inductive Outline where
  | node (label : List Char) (children : List Outline)
  deriving Repr, Inhabited

namespace Outline

/-- The outlines of the children in a value that is no list.  Its parts are texts, which describe
no part of a tree. -/
def ofParts (j : Json) : Except Undrawable (List Outline) :=
  match j.parts? with
  | none => .error (.noChildren j.shape)
  | some [] => .ok []
  | some (part :: _) => .error (.notAnObject part.shape)

/-- Whether a part of the given type has a list of children. -/
def hasChildren (type : Json) : Bool :=
  match type with
  | .string "conjunction" => true
  | .string "disjunction" => true
  | _ => false

/-- Whether a part of the given type has one child. -/
def hasInner (type : Json) : Bool :=
  match type with
  | .string "negation" => true
  | .string "value_path" => true
  | _ => false

/-- The labels of a tree that is given as a JSON value.  The label of a part comes before its
children, so the first part that has none is the one reported. -/
def ofJson (j : Json) : Except Undrawable Outline := do
  let type ← Label.field "type" j
  let label ← Label.ofType type j
  if hasChildren type then
    match h : j.field? "children" with
    | some (.array items) =>
      have := Json.sizeOf_field?_lt h
      return .node label.toList (← items.attach.mapM fun ⟨item, _⟩ => ofJson item)
    | some other => return .node label.toList (← ofParts other)
    | none => throw (.missingField "children")
  else if hasInner type then
    match h : j.field? "inner" with
    | some inner =>
      have := Json.sizeOf_field?_lt h
      return .node label.toList [← ofJson inner]
    | none => throw (.missingField "inner")
  else return .node label.toList []
termination_by sizeOf j
decreasing_by
  · have := List.sizeOf_lt_of_mem ‹_›
    simp only [Json.array.sizeOf_spec] at *
    omega
  · omega

/-- The number of cells of a line on the screen. -/
def screenWidth : Nat := 80

/-- The guide to a child. -/
def branch (last : Bool) : List Char :=
  if last then ['└', '─', '─', ' '] else ['├', '─', '─', ' ']

/-- The guide beside what stands below a child. -/
def trunk (last : Bool) : List Char :=
  if last then [' ', ' ', ' ', ' '] else ['│', ' ', ' ', ' ']

section
variable (width : Char → Nat)

/-- The lines of a label in `room` cells, the first after `lead` and the others after `below`.
Where no room is left, there is no line. -/
def labelLines (room : Nat) (lead below : List Char) (label : List Char) : List (List Char) :=
  if room = 0 then []
  else
    match Text.splitLines (Text.expandTabs width (Text.dropSignals label)) with
    | [] => []
    | line :: more =>
      (lead ++ Text.crop width room line) :: more.map fun l => below ++ Text.crop width room l

mutual

/-- The lines of a tree in `room` cells, the first after `lead` and the others after `below`. -/
def linesAfter (room : Nat) (lead below : List Char) : Outline → List (List Char)
  | .node label children =>
    labelLines width room lead below label ++ childLines (room - 4) below children

/-- The lines of several trees below one label. -/
def childLines (room : Nat) (below : List Char) : List Outline → List (List Char)
  | [] => []
  | child :: more =>
    linesAfter room (below ++ branch more.isEmpty) (below ++ trunk more.isEmpty) child ++
      childLines room below more

end

/-- The lines of a drawing. -/
def lines (o : Outline) : List (List Char) := linesAfter width screenWidth [] [] o

end

end Outline

end Scim
