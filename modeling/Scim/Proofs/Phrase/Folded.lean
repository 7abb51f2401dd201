import Mathlib.Data.List.Forall2
import Scim.Proofs.Phrase.Parts

/-!
# The shape of connectives

* `Folded`                 the tree of the operands of one connective;
* `Chain.runs`             the operands of a chain, cut at every `or`;
* `Chain.folded`           the tree of a chain is folded from the trees of its runs;
* `Chain.tree_of_folds`    what holds of the tree because it holds of the operands.
-/

namespace Scim

open Grammar

namespace Phrase

/-- The tree of the operands of one connective: a single one stays as it is, and a last one that is
itself such a connective gives up its children. -/
inductive Folded (kind : Connective) : List Node → Node → Prop where
  | single (n : Node) : Folded kind [n] n
  | spread (n : Node) (ns children : List Node) :
      Folded kind (n :: ns ++ [.connective kind children])
        (.connective kind (n :: ns ++ children))
  | last (n : Node) (ns : List Node) {m : Node} :
      (∀ children, m ≠ .connective kind children) →
      Folded kind (n :: ns ++ [m]) (.connective kind (n :: ns ++ [m]))

theorem spreadLast_append (kind : Connective) (ns : List Node) (m : Node) :
    Node.spreadLast kind (ns ++ [m]) = ns ++ m.spread kind := by
  induction ns with
  | nil => rfl
  | cons n ns ih =>
    cases ns with
    | nil => rfl
    | cons k ns =>
      show n :: Node.spreadLast kind (k :: ns ++ [m]) = _
      rw [ih]
      rfl

theorem joined_append (kind : Connective) (n : Node) (ns : List Node) (m : Node) :
    Node.joined kind (n :: (ns ++ [m])) = .connective kind (n :: (ns ++ m.spread kind)) := by
  have below := spreadLast_append kind ns m
  cases ns with
  | nil => rfl
  | cons k ns =>
    show Node.connective kind (n :: Node.spreadLast kind (k :: ns ++ [m])) = _
    rw [below]

theorem spread_of_ne {kind : Connective} {m : Node}
    (h : ∀ children, m ≠ .connective kind children) : m.spread kind = [m] := by
  cases m with
  | connective k children =>
    have differ : k ≠ kind := fun same => h children (by rw [same])
    exact if_neg differ
  | _ => rfl

theorem folded_joined (kind : Connective) (n : Node) (ns : List Node) :
    Folded kind (n :: ns) (Node.joined kind (n :: ns)) := by
  rcases List.eq_nil_or_concat ns with rfl | ⟨init, m, rfl⟩
  · exact .single n
  · rw [List.concat_eq_append, joined_append]
    by_cases absorbs : ∃ children, m = .connective kind children
    · obtain ⟨children, rfl⟩ := absorbs
      rw [Node.spread_connective]
      exact .spread n init children
    · have other : ∀ children, m ≠ .connective kind children :=
        fun children same => absorbs ⟨children, same⟩
      rw [spread_of_ne other]
      exact .last n init other

/-- The runs of operands between which only `and` stands. -/
def Chain.runs : Chain → List (List Node)
  | .mk first more => operandRuns first.tree more.trees

/-- **The tree of a chain is folded** from the trees of its runs, and these from its operands. -/
theorem Chain.folded (c : Chain) :
    ∃ terms, List.Forall₂ (Folded .conjunction) c.runs terms ∧
      Folded .disjunction terms c.tree := by
  obtain ⟨first, more⟩ := c
  obtain ⟨run, runs, cut⟩ := Node.operandRuns_eq first.tree more.trees
  refine ⟨(operandRuns first.tree more.trees).map (Node.joined .conjunction), ?_, ?_⟩
  · have run {ns : List Node} (h : ns ≠ []) :
        Folded .conjunction ns (Node.joined .conjunction ns) := by
      cases ns with
      | nil => exact absurd rfl h
      | cons n ns => exact folded_joined .conjunction n ns
    show List.Forall₂ (Folded .conjunction) (operandRuns first.tree more.trees) _
    rw [List.forall₂_map_right_iff, List.forall₂_same]
    exact fun ns hns => run (Node.operandRuns_ne_nil first.tree more.trees ns hns)
  · show Folded .disjunction _ (Node.chained first.tree more.trees)
    unfold Node.chained
    rw [cut, List.map_cons]
    exact folded_joined .disjunction _ _

theorem mem_of_mem_runs {first : Operand} {more : Links} {run : List Node} {n : Node}
    (hr : run ∈ (Chain.mk first more).runs) (hn : n ∈ run) :
    n = first.tree ∨ ∃ link ∈ more.trees, n = link.2 := by
  have operands : ∀ run ∈ operandRuns first.tree more.trees, ∀ n ∈ run,
      n = first.tree ∨ ∃ link ∈ more.trees, n = link.2 :=
    Node.forall_operandRuns (.inl rfl) fun link hl => .inr ⟨link, hl, rfl⟩
  exact operands run hr n hn

theorem Chain.tree_of_folds {operand term whole : Node → Prop}
    (terms : ∀ ns n, Folded .conjunction ns n → (∀ m ∈ ns, operand m) → term n)
    (tree : ∀ ns n, Folded .disjunction ns n → (∀ m ∈ ns, term m) → whole n)
    {first : Operand} {more : Links} (hf : operand first.tree)
    (hm : ∀ link ∈ more.trees, operand link.2) : whole (Chain.mk first more).tree := by
  obtain ⟨ns, conjunctions, disjunction⟩ := (Chain.mk first more).folded
  refine tree ns _ disjunction ?_
  intro n hn
  obtain ⟨i, hi, rfl⟩ := List.getElem_of_mem hn
  have short : i < (Chain.mk first more).runs.length := by
    rw [conjunctions.length_eq]
    exact hi
  refine terms _ _ (conjunctions.get short hi) ?_
  intro m hm'
  rcases mem_of_mem_runs (List.getElem_mem short) hm' with rfl | ⟨link, hl, rfl⟩
  · exact hf
  · exact hm link hl

end Phrase

end Scim
