import Scim.Tree.Comparison

/-!
# Filter trees

* `Node`                       the parts of a tree;
* `Node.connect`, `Node.within`    build connectives and value paths, and refuse invalid ones;
* `Node.comparisons`           the comparisons of a tree, from left to right;
* `Node.attributes`            the full names that a tree refers to, each once;
* `Node.same`                  equality of trees up to equality of values;
* `Node.qualify`               puts an attribute before the path of every comparison.
-/

namespace Scim

/-- A part of a filter tree or of a path. -/
inductive Node where
  | path (path : AttributePath)
  | comparison (c : Comparison)
  | negation (inner : Node)
  | connective (kind : Connective) (children : List Node)
  | valuePath (path : AttributePath) (inner : Node) (subAttribute : Option String)
  /-- The place of a part that is missing; no text gives one. -/
  | missing
  deriving Repr, Inhabited

namespace Node

/-- A connective of at least two children. -/
def connect (kind : Connective) (children : List Node) : Except Invalid Node :=
  if children.length < 2 then .error (.fewChildren kind) else .ok (.connective kind children)

/-- A value path on a top-level attribute. -/
def within (path : AttributePath) (inner : Node) (subAttribute : Option String) :
    Except Invalid Node :=
  if path.names.length = 1 then .ok (.valuePath path inner subAttribute)
  else .error .deepValuePath

/-- The name of the kind of a part. -/
def title : Node → String
  | path _ => "AttributePath"
  | comparison _ => "Comparison"
  | negation _ => "Negation"
  | connective kind _ => kind.title
  | valuePath _ _ _ => "ValuePath"
  | missing => "NoneType"

/-- The children of a connective; no other part has a list of children. -/
def children : Node → Except Invalid (List Node)
  | connective _ children => .ok children
  | n => .error (.notAList n.title)

/-- The child of a connective at an index; a negative index counts from the end. -/
def child (n : Node) (index : Int) : Except Invalid Node :=
  match n with
  | connective _ children =>
    if index < -Number.wordBound ∨ Number.wordBound ≤ index then .error .hugeIndex
    else
      let i := if index < 0 then index + children.length else index
      match if i < 0 then none else children[i.toNat]? with
      | some c => .ok c
      | none => .error .noChild
  | n => .error (.notIndexed n.title)

/-- The length of an attribute path or of a connective. -/
def size : Node → Except Invalid Nat
  | path p => .ok p.names.length
  | connective _ children => .ok children.length
  | n => .error (.noLength n.title)

mutual

/-- Whether no part of a tree is missing. -/
def isComplete : Node → Bool
  | negation inner => inner.isComplete
  | connective _ children => allComplete children
  | valuePath _ inner _ => inner.isComplete
  | missing => false
  | _ => true

/-- Whether no part of several trees is missing. -/
def allComplete : List Node → Bool
  | [] => true
  | n :: ns => n.isComplete && allComplete ns

end

mutual

/-- The comparisons of a tree, from left to right. -/
def comparisons : Node → List Comparison
  | comparison c => [c]
  | negation inner => inner.comparisons
  | connective _ children => comparisonsOfAll children
  | valuePath _ inner _ => inner.comparisons
  | _ => []

/-- The comparisons of several trees. -/
def comparisonsOfAll : List Node → List Comparison
  | [] => []
  | n :: ns => n.comparisons ++ comparisonsOfAll ns

end

/-- The full names that a tree refers to, in the order of their first use: of an attribute path its
own, of any other tree those of its comparisons, and last the sub-attribute of a value path. -/
def attributes : Node → List String
  | path p => [p.fullName]
  | valuePath p inner (some sub) =>
    let names := inner.comparisons.map fun c => c.path.fullName
    (if sub.isEmpty then names else names ++ [p.fullName ++ "." ++ sub]).eraseDups
  | n => (n.comparisons.map fun c => c.path.fullName).eraseDups

mutual

/-- Equality of trees up to equality of values. -/
def same : Node → Node → Bool
  | path p, path q => p == q
  | comparison c, comparison d => c.same d
  | negation m, negation n => m.same n
  | connective k ms, connective l ns => k == l && sameAll ms ns
  | valuePath p m s, valuePath q n t => p == q && m.same n && s == t
  | missing, missing => true
  | _, _ => false

/-- Equality of lists of trees. -/
def sameAll : List Node → List Node → Bool
  | [], [] => true
  | m :: ms, n :: ns => m.same n && sameAll ms ns
  | _, _ => false

end

/-- A tree, or several, after an attribute was put before the paths of its comparisons. -/
structure Qualified (α : Type) where
  /-- The result; behind an obstacle it is unchanged. -/
  tree : α
  /-- The new paths, in the order of the comparisons. -/
  renamed : List AttributePath
  /-- The first part that is neither a comparison nor a negation nor a connective. -/
  obstacle : Option Node

mutual

/-- Puts `outer` before the path of every comparison, up to the first obstacle. -/
def qualify (outer : AttributePath) : Node → Qualified Node
  | comparison c =>
    ⟨comparison { c with path := outer.under c.path }, [outer.under c.path], none⟩
  | negation inner =>
    let q := qualify outer inner
    ⟨negation q.tree, q.renamed, q.obstacle⟩
  | connective kind children =>
    let q := qualifyAll outer children
    ⟨connective kind q.tree, q.renamed, q.obstacle⟩
  | n => ⟨n, [], some n⟩

/-- Puts `outer` before the paths of several trees, up to the first obstacle. -/
def qualifyAll (outer : AttributePath) : List Node → Qualified (List Node)
  | [] => ⟨[], [], none⟩
  | n :: ns =>
    let q := qualify outer n
    match q.obstacle with
    | some obstacle => ⟨q.tree :: ns, q.renamed, some obstacle⟩
    | none =>
      let r := qualifyAll outer ns
      ⟨q.tree :: r.tree, q.renamed ++ r.renamed, r.obstacle⟩

end

end Node

end Scim
