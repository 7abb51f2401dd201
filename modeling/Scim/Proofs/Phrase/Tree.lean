import Scim.Grammar.Expression

/-!
# Trees of chains and brackets

What the trees are that chains of operands and brackets stand for, apart from the steps that build
them.

* `Node.joined`        trees under one connective: a single tree stays as it is, and the last one
                       gives up its children if it is of the same connective;
* `Node.chained`       the tree of a chain: runs joined by `and`, and those joined by `or`;
* `chained_of_kind`    the tree of operands that are all linked by the same operator;
* `operandRuns_eq`     a chain has a run, and the first one an operand;
* `assemble_eq`        the steps that build the tree of a chain do not fail and build this tree;
* `Node.under`         a tree with an attribute before the path of every comparison;
* `qualify_eq`         the steps that put the attribute there meet no obstacle in a tree of
                       comparisons, negations and connectives.
-/

namespace Scim

open Grammar

namespace Node

/-! ## Connectives -/

/-- The trees that stand for one below a connective. -/
def spread (kind : Connective) : Node → List Node
  | connective k children => if k = kind then children else [connective k children]
  | n => [n]

@[simp] theorem spread_connective (kind : Connective) (ns : List Node) :
    (connective kind ns).spread kind = ns := if_pos rfl

/-- The trees below a connective: the last one gives up its children. -/
def spreadLast (kind : Connective) : List Node → List Node
  | [] => []
  | [n] => n.spread kind
  | n :: m :: ns => n :: spreadLast kind (m :: ns)

def joined (kind : Connective) : List Node → Node
  | [] => missing
  | [n] => n
  | n :: m :: ns => connective kind (n :: spreadLast kind (m :: ns))

def chained (first : Node) (more : List (Connective × Node)) : Node :=
  joined .disjunction ((operandRuns first more).map (joined .conjunction))

/-- A connective with a child, or any other tree. -/
def Solid (n : Node) : Prop := ∀ kind, n ≠ connective kind []

theorem solid_connective {kind : Connective} {n : Node} {ns : List Node} :
    Solid (connective kind (n :: ns)) := by
  intro k same
  cases same

theorem Solid.joined {kind : Connective} {n : Node} {ns : List Node} (h : n.Solid) :
    (Node.joined kind (n :: ns)).Solid := by
  cases ns with
  | nil => exact h
  | cons m ns => exact solid_connective

theorem join_eq {kind : Connective} {n m : Node} (h : m.Solid) :
    join kind n m = .ok (connective kind (n :: m.spread kind)) := by
  cases m with
  | connective k children =>
    unfold join spread
    dsimp only
    split
    · cases children with
      | nil => exact absurd rfl (h k)
      | cons child children => rfl
    · rfl
  | _ => rfl

theorem joinAll_eq (kind : Connective) {n : Node} {ns : List Node} (h : ∀ m ∈ ns, m.Solid) :
    joinAll kind (n :: ns) = .ok (joined kind (n :: ns)) := by
  induction ns generalizing n with
  | nil => rfl
  | cons m ns ih =>
    have rest : joinAll kind (m :: ns) = .ok (joined kind (m :: ns)) :=
      ih fun x hx => h x (List.mem_cons_of_mem m hx)
    unfold joinAll
    rw [rest]
    have solid : (joined kind (m :: ns)).Solid := (h m (List.mem_cons_self ..)).joined
    show join kind n (joined kind (m :: ns)) = _
    rw [join_eq solid]
    cases ns with
    | nil => rfl
    | cons k ns =>
      show Except.ok (connective kind (n ::
        (connective kind (m :: spreadLast kind (k :: ns))).spread kind)) = _
      rw [spread_connective]
      rfl

/-! ## Runs -/

theorem operandRuns_eq (first : Node) (more : List (Connective × Node)) :
    ∃ run runs, operandRuns first more = (first :: run) :: runs := by
  cases more with
  | nil => exact ⟨[], [], rfl⟩
  | cons link more =>
    obtain ⟨kind, n⟩ := link
    obtain ⟨run, runs, cut⟩ := operandRuns_eq n more
    unfold operandRuns
    rw [cut]
    split
    · exact ⟨n :: run, runs, rfl⟩
    · exact ⟨[], (n :: run) :: runs, rfl⟩

theorem flatten_operandRuns (first : Node) (more : List (Connective × Node)) :
    (operandRuns first more).flatten = first :: more.map Prod.snd := by
  induction more generalizing first with
  | nil => rfl
  | cons link more ih =>
    obtain ⟨kind, n⟩ := link
    have later := ih n
    unfold operandRuns
    split
    · obtain ⟨run, runs, cut⟩ := operandRuns_eq n more
      rw [cut] at later ⊢
      exact congrArg (first :: ·) later
    · exact congrArg (first :: ·) later

theorem operandRuns_ne_nil (first : Node) (more : List (Connective × Node)) :
    ∀ run ∈ operandRuns first more, run ≠ [] := by
  induction more generalizing first with
  | nil =>
    intro run hr
    obtain rfl := List.mem_singleton.mp hr
    exact List.cons_ne_nil _ _
  | cons link more ih =>
    obtain ⟨kind, n⟩ := link
    have later := ih n
    obtain ⟨head, tail, cut⟩ := operandRuns_eq n more
    unfold operandRuns
    rw [cut] at later ⊢
    intro run hr
    split at hr
    · rcases List.mem_cons.mp hr with rfl | hr
      · exact List.cons_ne_nil _ _
      · exact later run (List.mem_cons_of_mem _ hr)
    · rcases List.mem_cons.mp hr with rfl | hr
      · exact List.cons_ne_nil _ _
      · exact later run hr

theorem forall_operandRuns {holds : Node → Prop} {first : Node} {more : List (Connective × Node)}
    (hf : holds first) (hm : ∀ link ∈ more, holds link.2) :
    ∀ run ∈ operandRuns first more, ∀ n ∈ run, holds n := by
  intro run hr n hn
  have whole : n ∈ (operandRuns first more).flatten := List.mem_flatten.mpr ⟨run, hr, hn⟩
  rw [flatten_operandRuns] at whole
  rcases List.mem_cons.mp whole with rfl | hn
  · exact hf
  · obtain ⟨link, hl, rfl⟩ := List.mem_map.mp hn
    exact hm link hl

theorem operandRuns_of_and {first : Node} {more : List (Connective × Node)}
    (h : ∀ link ∈ more, link.1 = .conjunction) :
    operandRuns first more = [first :: more.map Prod.snd] := by
  induction more generalizing first with
  | nil => rfl
  | cons link more ih =>
    obtain ⟨kind, n⟩ := link
    obtain rfl : kind = .conjunction := h (kind, n) (List.mem_cons_self ..)
    rw [operandRuns, if_pos rfl, ih fun l hl => h l (List.mem_cons_of_mem _ hl)]
    rfl

theorem operandRuns_of_or {first : Node} {more : List (Connective × Node)}
    (h : ∀ link ∈ more, link.1 = .disjunction) :
    operandRuns first more = (first :: more.map Prod.snd).map ([·]) := by
  induction more generalizing first with
  | nil => rfl
  | cons link more ih =>
    obtain ⟨kind, n⟩ := link
    obtain rfl : kind = .disjunction := h (kind, n) (List.mem_cons_self ..)
    rw [operandRuns, if_neg (by decide), ih fun l hl => h l (List.mem_cons_of_mem _ hl)]
    rfl

theorem chained_of_kind {kind : Connective} (real : kind ≠ .neutral) {first : Node}
    {more : List (Connective × Node)} (h : ∀ link ∈ more, link.1 = kind) :
    chained first more = joined kind (first :: more.map Prod.snd) := by
  unfold chained
  cases kind with
  | conjunction =>
    rw [operandRuns_of_and h]
    rfl
  | disjunction =>
    have alone : joined .conjunction ∘ ([·]) = id := rfl
    rw [operandRuns_of_or h, List.map_map, alone, List.map_id]
  | neutral => exact absurd rfl real

theorem exists_connective_chained (first : Node) (link : Connective × Node)
    (more : List (Connective × Node)) :
    ∃ kind ns, chained first (link :: more) = connective kind ns := by
  obtain ⟨kind, n⟩ := link
  obtain ⟨run, runs, cut⟩ := operandRuns_eq n more
  unfold chained operandRuns
  rw [cut]
  split
  · cases runs with
    | nil => exact ⟨.conjunction, _, rfl⟩
    | cons run runs => exact ⟨.disjunction, _, rfl⟩
  · exact ⟨.disjunction, _, rfl⟩

theorem mapM_joinAll_eq (kind : Connective) {runs : List (List Node)}
    (long : ∀ run ∈ runs, run ≠ []) (h : ∀ run ∈ runs, ∀ n ∈ run, n.Solid) :
    runs.mapM (joinAll kind) = .ok (runs.map (joined kind)) := by
  induction runs with
  | nil => rfl
  | cons run runs ih =>
    have later := ih (fun r hr => long r (List.mem_cons_of_mem run hr))
      fun r hr => h r (List.mem_cons_of_mem run hr)
    cases run with
    | nil => exact absurd rfl (long [] (List.mem_cons_self ..))
    | cons n ns =>
      have solid : ∀ m ∈ ns, m.Solid := fun m hm =>
        h (n :: ns) (List.mem_cons_self ..) m (List.mem_cons_of_mem n hm)
      rw [List.mapM_cons, joinAll_eq kind solid, later]
      rfl

section

variable {first : Node} {more : List (Connective × Node)} (hf : first.Solid)
  (hm : ∀ link ∈ more, link.2.Solid)

include hf hm

theorem solid_terms : ∀ n ∈ (operandRuns first more).map (joined .conjunction), n.Solid := by
  intro n hn
  obtain ⟨run, hr, rfl⟩ := List.mem_map.mp hn
  have solid := forall_operandRuns hf hm run hr
  cases run with
  | nil => exact absurd rfl (operandRuns_ne_nil first more [] hr)
  | cons m ms => exact (solid m (List.mem_cons_self ..)).joined

theorem solid_chained : (chained first more).Solid := by
  have terms := solid_terms hf hm
  obtain ⟨run, runs, cut⟩ := operandRuns_eq first more
  unfold chained
  rw [cut, List.map_cons] at terms ⊢
  exact (terms _ (List.mem_cons_self ..)).joined

/-- **The tree of a chain is built without failure.** -/
theorem joinRuns_eq : joinRuns (operandRuns first more) = .ok (chained first more) := by
  have conjunctions := mapM_joinAll_eq .conjunction (operandRuns_ne_nil first more)
    (forall_operandRuns hf hm)
  have terms := solid_terms hf hm
  obtain ⟨run, runs, cut⟩ := operandRuns_eq first more
  unfold joinRuns chained
  rw [conjunctions]
  show joinAll .disjunction _ = _
  rw [cut, List.map_cons] at terms ⊢
  exact joinAll_eq .disjunction fun m hm => terms m (List.mem_cons_of_mem _ hm)

end

/-- **The tree of more than one operand** is built without failure too. -/
theorem assemble_eq {first : Node} {link : Connective × Node} {more : List (Connective × Node)}
    (hf : first.Solid) (hm : ∀ l ∈ link :: more, l.2.Solid) :
    assemble first (link :: more) = .ok (chained first (link :: more)) := by
  unfold assemble
  rw [joinRuns_eq hf hm]
  obtain ⟨kind, ns, connective⟩ := exists_connective_chained first link more
  rw [connective]

/-! ## Brackets -/

mutual

/-- A tree with `outer` before the path of every comparison. -/
def under (outer : AttributePath) : Node → Node
  | comparison c => comparison { c with path := outer.under c.path }
  | negation inner => negation (inner.under outer)
  | connective kind children => connective kind (allUnder outer children)
  | n => n

/-- Several trees with `outer` before the path of every comparison. -/
def allUnder (outer : AttributePath) : List Node → List Node
  | [] => []
  | n :: ns => n.under outer :: allUnder outer ns

end

/-- Trees of comparisons, negations and connectives. -/
inductive Plain : Node → Prop where
  | comparison (c : Comparison) : Plain (comparison c)
  | negation {inner : Node} : Plain inner → Plain (negation inner)
  | connective (kind : Connective) {children : List Node} :
      (∀ n ∈ children, Plain n) → Plain (connective kind children)

theorem Plain.isCondition {n : Node} (h : n.Plain) : isCondition n = true := by
  cases h <;> rfl

mutual

/-- **The steps that put an attribute before a tree meet no obstacle** in it. -/
theorem qualify_eq (outer : AttributePath) :
    (n : Node) → n.Plain →
      (n.qualify outer).tree = n.under outer ∧ (n.qualify outer).obstacle = none
  | comparison _, _ => ⟨rfl, rfl⟩
  | negation inner, .negation h => by
    obtain ⟨tree, clear⟩ := qualify_eq outer inner h
    exact ⟨congrArg negation tree, clear⟩
  | connective kind children, .connective _ h => by
    obtain ⟨trees, clear⟩ := qualifyAll_eq outer children h
    exact ⟨congrArg (connective kind) trees, clear⟩

theorem qualifyAll_eq (outer : AttributePath) :
    (ns : List Node) → (∀ n ∈ ns, n.Plain) →
      (qualifyAll outer ns).tree = allUnder outer ns ∧ (qualifyAll outer ns).obstacle = none
  | [], _ => ⟨rfl, rfl⟩
  | n :: ns, h => by
    obtain ⟨tree, clear⟩ := qualify_eq outer n (h n (List.mem_cons_self ..))
    obtain ⟨trees, allClear⟩ := qualifyAll_eq outer ns fun m hm => h m (List.mem_cons_of_mem n hm)
    unfold qualifyAll
    dsimp only
    rw [clear]
    exact ⟨congr (congrArg List.cons tree) trees, allClear⟩

end

theorem Plain.spread {n : Node} (h : n.Plain) (kind : Connective) :
    ∀ m ∈ n.spread kind, m.Plain := by
  cases h with
  | connective k inside =>
    unfold Node.spread
    dsimp only
    split
    · exact inside
    · intro m hm
      obtain rfl := List.mem_singleton.mp hm
      exact .connective k inside
  | comparison c =>
    intro m hm
    obtain rfl := List.mem_singleton.mp hm
    exact .comparison c
  | negation inside =>
    intro m hm
    obtain rfl := List.mem_singleton.mp hm
    exact .negation inside

theorem plain_of_mem_spreadLast {kind : Connective} {ns : List Node} (h : ∀ n ∈ ns, n.Plain) :
    ∀ m ∈ spreadLast kind ns, m.Plain := by
  induction ns with
  | nil =>
    intro m hm
    cases hm
  | cons n ns ih =>
    cases ns with
    | nil => exact (h n (List.mem_cons_self ..)).spread kind
    | cons k ns =>
      intro m hm
      rcases List.mem_cons.mp hm with rfl | hm
      · exact h m (List.mem_cons_self ..)
      · exact ih (fun x hx => h x (List.mem_cons_of_mem n hx)) m hm

theorem plain_joined {kind : Connective} {n : Node} {ns : List Node}
    (h : ∀ m ∈ n :: ns, m.Plain) : (joined kind (n :: ns)).Plain := by
  cases ns with
  | nil => exact h n (List.mem_cons_self ..)
  | cons k ns =>
    refine .connective kind ?_
    intro m hm
    rcases List.mem_cons.mp hm with rfl | hm
    · exact h m (List.mem_cons_self ..)
    · exact plain_of_mem_spreadLast (fun x hx => h x (List.mem_cons_of_mem n hx)) m hm

theorem plain_chained {first : Node} {more : List (Connective × Node)}
    (hf : first.Plain) (hm : ∀ link ∈ more, link.2.Plain) : (chained first more).Plain := by
  have terms : ∀ n ∈ (operandRuns first more).map (joined .conjunction), n.Plain := by
    intro n hn
    obtain ⟨run, hr, rfl⟩ := List.mem_map.mp hn
    have plain := forall_operandRuns hf hm run hr
    cases run with
    | nil => exact absurd rfl (operandRuns_ne_nil first more [] hr)
    | cons m ms => exact plain_joined plain
  obtain ⟨run, runs, cut⟩ := operandRuns_eq first more
  unfold chained
  rw [cut, List.map_cons] at terms ⊢
  exact plain_joined terms

end Node

end Scim
