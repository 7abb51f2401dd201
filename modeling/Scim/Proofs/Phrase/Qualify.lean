import Mathlib.Data.List.Forall2
import Scim.Proofs.Phrase.Parts

/-!
# Putting an attribute before a tree

What `Node.qualify` does to any tree, also to one that no text gives.

* `obstacle_eq_none_iff`       it meets no obstacle in trees of comparisons, negations and
                               connectives, and in no others;
* `isCondition_obstacle`       an obstacle is none of these;
* `Node.Placed outer n m`      `m` is `n` with `outer` before the path of every comparison;
* `placed_qualify`             so is the result, if there is no obstacle;
* `renamed_qualify`            and the paths that are noted are those of its comparisons;
* `qualify_qualify`            two attributes, one after the other, are the one below the other.
-/

namespace Scim

open Grammar

theorem AttributePath.under_under (p q r : AttributePath) :
    p.under (q.under r) = (p.under q).under r := by
  unfold AttributePath.under
  dsimp only
  rw [List.append_assoc]

namespace Node

/-! ## Obstacles -/

mutual

theorem plain_of_obstacle {outer : AttributePath} :
    {n : Node} → (n.qualify outer).obstacle = none → n.Plain
  | comparison c, _ => .comparison c
  | negation _, clear => .negation (plain_of_obstacle clear)
  | connective kind _, clear => .connective kind (plain_of_obstacle_all clear)

theorem plain_of_obstacle_all {outer : AttributePath} :
    {ns : List Node} → (qualifyAll outer ns).obstacle = none → ∀ n ∈ ns, n.Plain
  | [], _ => List.forall_mem_nil _
  | n :: ns, clear => by
    unfold qualifyAll at clear
    dsimp only at clear
    split at clear
    · cases clear
    · next first =>
      exact List.forall_mem_cons.mpr ⟨plain_of_obstacle first, plain_of_obstacle_all clear⟩

end

/-- **No obstacle** is met in trees of comparisons, negations and connectives, and in no others. -/
theorem obstacle_eq_none_iff {outer : AttributePath} {n : Node} :
    (n.qualify outer).obstacle = none ↔ n.Plain :=
  ⟨plain_of_obstacle, fun plain => (qualify_eq outer n plain).2⟩

mutual

theorem isCondition_obstacle {outer : AttributePath} {o : Node} :
    (n : Node) → (n.qualify outer).obstacle = some o → isCondition o = false
  | negation inner, met => isCondition_obstacle inner met
  | connective _ children, met => isCondition_obstacle_all children met
  | path _, met | valuePath _ _ _, met | missing, met => by
    obtain rfl := Option.some.inj met
    rfl

theorem isCondition_obstacle_all {outer : AttributePath} {o : Node} :
    (ns : List Node) → (qualifyAll outer ns).obstacle = some o → isCondition o = false
  | n :: ns, met => by
    unfold qualifyAll at met
    dsimp only at met
    split at met
    · next first =>
      obtain rfl := Option.some.inj met
      exact isCondition_obstacle n first
    · exact isCondition_obstacle_all ns met

end

theorem exists_obstacle {n : Node} (h : ¬ n.Plain) (outer : AttributePath) :
    ∃ o, (n.qualify outer).obstacle = some o := by
  cases met : (n.qualify outer).obstacle with
  | some o => exact ⟨o, rfl⟩
  | none => exact absurd (obstacle_eq_none_iff.mp met) h

/-! ## The result -/

/-- The same tree, but with `outer` before the path of every comparison, and its schema there. -/
inductive Placed (outer : AttributePath) : Node → Node → Prop where
  | comparison (c : Comparison) : Placed outer (.comparison c)
      (.comparison ⟨⟨outer.schema, outer.names ++ c.path.names⟩, c.operator, c.value⟩)
  | negation {n m : Node} : Placed outer n m → Placed outer (.negation n) (.negation m)
  | connective (kind : Connective) {ns ms : List Node} : List.Forall₂ (Placed outer) ns ms →
      Placed outer (.connective kind ns) (.connective kind ms)

mutual

theorem placed_under (outer : AttributePath) :
    (n : Node) → n.Plain → Placed outer n (n.under outer)
  | comparison c, _ => .comparison c
  | negation inner, .negation h => .negation (placed_under outer inner h)
  | connective kind children, .connective _ h =>
    .connective kind (placed_allUnder outer children h)

theorem placed_allUnder (outer : AttributePath) :
    (ns : List Node) → (∀ n ∈ ns, n.Plain) →
      List.Forall₂ (Placed outer) ns (allUnder outer ns)
  | [], _ => .nil
  | n :: ns, h =>
    have ⟨first, later⟩ := List.forall_mem_cons.mp h
    .cons (placed_under outer n first) (placed_allUnder outer ns later)

end

theorem placed_qualify {outer : AttributePath} {n : Node} (h : n.Plain) :
    Placed outer n (n.qualify outer).tree := by
  rw [(qualify_eq outer n h).1]
  exact placed_under outer n h

mutual

/-- **The paths that are noted** are those of the comparisons of the result, in their order. -/
theorem renamed_qualify (outer : AttributePath) : (n : Node) →
    (n.qualify outer).obstacle = none →
      (n.qualify outer).renamed = (n.qualify outer).tree.comparisons.map Comparison.path
  | comparison _, _ => rfl
  | negation inner, clear => renamed_qualify outer inner clear
  | connective _ children, clear => renamed_qualifyAll outer children clear

theorem renamed_qualifyAll (outer : AttributePath) : (ns : List Node) →
    (qualifyAll outer ns).obstacle = none →
      (qualifyAll outer ns).renamed =
        (comparisonsOfAll (qualifyAll outer ns).tree).map Comparison.path
  | [], _ => rfl
  | n :: ns, clear => by
    unfold qualifyAll at clear ⊢
    dsimp only at clear ⊢
    split at clear
    · cases clear
    · next first =>
      dsimp only
      rw [renamed_qualify outer n first, renamed_qualifyAll outer ns clear, ← List.map_append]
      rfl

end

/-! ## One attribute after the other -/

mutual

/-- **Two attributes, one after the other**, are the one below the other: the tree, the new paths
and the obstacle are the same. -/
theorem qualify_qualify (p q : AttributePath) :
    (n : Node) → (n.qualify q).tree.qualify p = n.qualify (p.under q)
  | comparison c =>
    congrArg (fun r => Qualified.mk (comparison { c with path := r }) [r] none)
      (AttributePath.under_under p q c.path)
  | negation inner =>
    congrArg (fun r : Qualified Node => Qualified.mk (negation r.tree) r.renamed r.obstacle)
      (qualify_qualify p q inner)
  | connective kind children =>
    congrArg (fun r : Qualified (List Node) =>
        Qualified.mk (connective kind r.tree) r.renamed r.obstacle)
      (qualifyAll_qualifyAll p q children)
  | path _ | valuePath _ _ _ | missing => rfl

theorem qualifyAll_qualifyAll (p q : AttributePath) :
    (ns : List Node) → qualifyAll p (qualifyAll q ns).tree = qualifyAll (p.under q) ns
  | [] => rfl
  | n :: ns => by
    have here := qualify_qualify p q n
    by_cases plain : n.Plain
    · have first : (n.qualify q).obstacle = none := obstacle_eq_none_iff.mpr plain
      have both : (n.qualify (p.under q)).obstacle = none := obstacle_eq_none_iff.mpr plain
      have cut : (qualifyAll q (n :: ns)).tree = (n.qualify q).tree :: (qualifyAll q ns).tree := by
        rw [qualifyAll, first]
      rw [cut, qualifyAll, qualifyAll, here, both]
      dsimp only
      rw [qualifyAll_qualifyAll p q ns]
    · -- the trees behind an obstacle stay as they are
      obtain ⟨o, first⟩ := exists_obstacle plain q
      obtain ⟨o', both⟩ := exists_obstacle plain (p.under q)
      have cut : (qualifyAll q (n :: ns)).tree = (n.qualify q).tree :: ns := by
        rw [qualifyAll, first]
      rw [cut, qualifyAll, qualifyAll, here, both]

end

end Node

end Scim
