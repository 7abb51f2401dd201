import Scim.Proofs.Phrase.Tree

/-!
# Trees with other names

Every schema, name and sub-attribute of a tree is replaced by another one.

* `AttributePath.mapNames`, `Node.mapNames`    the replacement in an attribute path and in a tree;
* `mapNames_under`     it commutes with putting an attribute before a tree,
* `mapNames_chained`   and with building the tree of a chain.
-/

namespace Scim

open Grammar

/-- An attribute path with another schema and other names. -/
def AttributePath.mapNames (f : String → String) (p : AttributePath) : AttributePath :=
  ⟨p.schema.map f, p.names.map f⟩

theorem AttributePath.mapNames_id (p : AttributePath) : p.mapNames id = p := by
  unfold mapNames
  rw [Option.map_id, List.map_id]
  rfl

theorem AttributePath.mapNames_under (f : String → String) (p q : AttributePath) :
    (p.under q).mapNames f = (p.mapNames f).under (q.mapNames f) := by
  unfold mapNames under
  rw [List.map_append]

namespace Node

mutual

/-- A tree with other schemas, names and sub-attributes. -/
def mapNames (f : String → String) : Node → Node
  | path p => path (p.mapNames f)
  | comparison c => comparison { c with path := c.path.mapNames f }
  | negation inner => negation (inner.mapNames f)
  | connective kind children => connective kind (mapNamesOfAll f children)
  | valuePath p inner sub => valuePath (p.mapNames f) (inner.mapNames f) (sub.map f)
  | missing => missing

def mapNamesOfAll (f : String → String) : List Node → List Node
  | [] => []
  | n :: ns => n.mapNames f :: mapNamesOfAll f ns

end

variable (f : String → String)

theorem mapNamesOfAll_eq (ns : List Node) : mapNamesOfAll f ns = ns.map (mapNames f) := by
  induction ns with
  | nil => rfl
  | cons n ns ih => rw [mapNamesOfAll, ih, List.map_cons]

mutual

theorem mapNames_id : (n : Node) → n.mapNames id = n
  | path p => congrArg path p.mapNames_id
  | comparison c =>
    congrArg (fun p => comparison { c with path := p }) c.path.mapNames_id
  | negation inner => congrArg negation (mapNames_id inner)
  | connective kind children => congrArg (connective kind) (mapNamesOfAll_id children)
  | valuePath p inner sub => by
    rw [mapNames, p.mapNames_id, mapNames_id inner, Option.map_id]
    rfl
  | missing => rfl

theorem mapNamesOfAll_id : (ns : List Node) → mapNamesOfAll id ns = ns
  | [] => rfl
  | n :: ns => by rw [mapNamesOfAll, mapNames_id n, mapNamesOfAll_id ns]

end

mutual

theorem mapNames_under (p : AttributePath) :
    (n : Node) → (n.under p).mapNames f = (n.mapNames f).under (p.mapNames f)
  | comparison c =>
    congrArg (fun q => comparison { c with path := q }) (AttributePath.mapNames_under f p c.path)
  | negation inner => congrArg negation (mapNames_under p inner)
  | connective kind children => congrArg (connective kind) (mapNamesOfAll_under p children)
  | path _ | valuePath _ _ _ | missing => rfl

theorem mapNamesOfAll_under (p : AttributePath) : (ns : List Node) →
    mapNamesOfAll f (allUnder p ns) = allUnder (p.mapNames f) (mapNamesOfAll f ns)
  | [] => rfl
  | n :: ns => by
    rw [allUnder, mapNamesOfAll, mapNames_under p n, mapNamesOfAll_under p ns]
    rfl

end

/-! ## Chains -/

theorem map_spread (kind : Connective) (n : Node) :
    (n.spread kind).map (mapNames f) = (n.mapNames f).spread kind := by
  cases n with
  | connective k children =>
    rw [mapNames, mapNamesOfAll_eq]
    unfold spread
    dsimp only
    split
    · rfl
    · rw [List.map_singleton, mapNames, mapNamesOfAll_eq]
  | _ => rfl

theorem map_spreadLast (kind : Connective) (ns : List Node) :
    (spreadLast kind ns).map (mapNames f) = spreadLast kind (ns.map (mapNames f)) := by
  induction ns with
  | nil => rfl
  | cons n ns ih =>
    cases ns with
    | nil => exact map_spread f kind n
    | cons m ns => exact congrArg (n.mapNames f :: ·) ih

theorem mapNames_joined (kind : Connective) (ns : List Node) :
    (joined kind ns).mapNames f = joined kind (ns.map (mapNames f)) := by
  match ns with
  | [] => rfl
  | [n] => rfl
  | n :: m :: ns =>
    show connective kind (mapNamesOfAll f (n :: spreadLast kind (m :: ns))) = _
    rw [mapNamesOfAll_eq, List.map_cons, map_spreadLast]
    rfl

def mapLinks (more : List (Connective × Node)) : List (Connective × Node) :=
  more.map fun link => (link.1, link.2.mapNames f)

theorem map_operandRuns (first : Node) (more : List (Connective × Node)) :
    (operandRuns first more).map (List.map (mapNames f)) =
      operandRuns (first.mapNames f) (mapLinks f more) := by
  induction more generalizing first with
  | nil => rfl
  | cons link more ih =>
    obtain ⟨kind, n⟩ := link
    have later := ih n
    show _ = operandRuns (first.mapNames f) ((kind, n.mapNames f) :: mapLinks f more)
    unfold operandRuns
    rw [← later]
    split
    · obtain ⟨run, runs, cut⟩ := operandRuns_eq n more
      rw [cut]
      rfl
    · rfl

/-- **The tree of a chain** with other names is that of the operands with other names. -/
theorem mapNames_chained (first : Node) (more : List (Connective × Node)) :
    (chained first more).mapNames f = chained (first.mapNames f) (mapLinks f more) := by
  unfold chained
  rw [mapNames_joined, ← map_operandRuns, List.map_map, List.map_map]
  exact congrArg (joined .disjunction)
    (List.map_congr_left fun run _ => mapNames_joined f .conjunction run)

end Node

end Scim
