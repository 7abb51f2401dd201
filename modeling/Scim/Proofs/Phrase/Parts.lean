import Scim.Proofs.Phrase.Basic

/-!
# Parts of the tree of a chain

A list that is read off a tree from left to right does not depend on how the operands of a chain
are put under connectives.

* `Node.valuePaths`     the attributes of the value paths of a tree;
* `Node.Additive f`     of a connective `f` lists what it lists of the children, in their order;
* `Additive.chained`    of the tree of a chain it lists what it lists of the operands, in their
                        order;
* `Additive.assemble`   and so it does of what the steps build that put a chain together;
* `comparisons_under`   the comparisons of a tree that is put below an attribute;
* `Chain.Valid.forall_path`    what holds of the names of a derivation holds of the attribute paths
                        of its comparisons.
-/

namespace Scim

/-- A comparison below an attribute. -/
def Comparison.under (outer : AttributePath) (c : Comparison) : Comparison :=
  { c with path := outer.under c.path }

namespace Node

variable {α : Type}

/-! ## Lists read off trees -/

/-- Of a connective `f` lists what it lists of the children. -/
def Additive (f : Node → List α) : Prop :=
  ∀ (kind : Connective) (children : List Node), f (connective kind children) = children.flatMap f

theorem additive_comparisons : Additive comparisons := by
  intro kind children
  show comparisonsOfAll children = children.flatMap comparisons
  induction children with
  | nil => rfl
  | cons n ns ih => rw [comparisonsOfAll, ih, List.flatMap_cons]

mutual

/-- The attributes of the value paths of a tree, from left to right. -/
def valuePaths : Node → List AttributePath
  | negation inner => inner.valuePaths
  | connective _ children => valuePathsOfAll children
  | valuePath p inner _ => p :: inner.valuePaths
  | _ => []

/-- The attributes of the value paths of several trees. -/
def valuePathsOfAll : List Node → List AttributePath
  | [] => []
  | n :: ns => n.valuePaths ++ valuePathsOfAll ns

end

theorem additive_valuePaths : Additive valuePaths := by
  intro kind children
  show valuePathsOfAll children = children.flatMap valuePaths
  induction children with
  | nil => rfl
  | cons n ns ih => rw [valuePathsOfAll, ih, List.flatMap_cons]

section

variable {f : Node → List α} (h : Additive f)

include h

theorem Additive.spread (kind : Connective) (n : Node) : (n.spread kind).flatMap f = f n := by
  have single : [n].flatMap f = f n := List.flatMap_singleton f n
  cases n with
  | connective k children =>
    unfold Node.spread
    dsimp only
    split
    · exact (h k children).symm
    · exact single
  | _ => exact single

theorem Additive.spreadLast (kind : Connective) (ns : List Node) :
    (Node.spreadLast kind ns).flatMap f = ns.flatMap f := by
  induction ns with
  | nil => rfl
  | cons n ns ih =>
    cases ns with
    | nil =>
      show (n.spread kind).flatMap f = [n].flatMap f
      rw [h.spread, List.flatMap_singleton]
    | cons m ns =>
      show (n :: Node.spreadLast kind (m :: ns)).flatMap f = (n :: m :: ns).flatMap f
      rw [List.flatMap_cons, ih, ← List.flatMap_cons]

theorem Additive.joined (kind : Connective) (n : Node) (ns : List Node) :
    f (Node.joined kind (n :: ns)) = (n :: ns).flatMap f := by
  cases ns with
  | nil => exact (List.flatMap_singleton f n).symm
  | cons m ns =>
    show f (connective kind (n :: Node.spreadLast kind (m :: ns))) = (n :: m :: ns).flatMap f
    rw [h, List.flatMap_cons, h.spreadLast, ← List.flatMap_cons]

theorem Additive.terms {runs : List (List Node)} (long : ∀ run ∈ runs, run ≠ []) :
    (runs.map (Node.joined .conjunction)).flatMap f = runs.flatten.flatMap f := by
  induction runs with
  | nil => rfl
  | cons run runs ih =>
    have later := ih fun r hr => long r (List.mem_cons_of_mem run hr)
    have here : f (Node.joined .conjunction run) = run.flatMap f := by
      cases run with
      | nil => exact absurd rfl (long [] (List.mem_cons_self ..))
      | cons n ns => exact h.joined .conjunction n ns
    rw [List.map_cons, List.flatMap_cons, here, later, List.flatten_cons, List.flatMap_append]

/-- **Of the tree of a chain** `f` lists what it lists of the operands. -/
theorem Additive.chained (first : Node) (more : List (Connective × Node)) :
    f (Node.chained first more) = f first ++ (more.map Prod.snd).flatMap f := by
  have terms := h.terms (operandRuns_ne_nil first more)
  rw [flatten_operandRuns, List.flatMap_cons] at terms
  rw [← terms]
  unfold Node.chained
  obtain ⟨run, runs, cut⟩ := operandRuns_eq first more
  rw [cut, List.map_cons]
  exact h.joined .disjunction _ _

/-! ## Steps that build trees -/

theorem Additive.connect {kind : Connective} {ns : List Node} {t : Node}
    (built : Node.connect kind ns = .ok t) : f t = ns.flatMap f := by
  unfold Node.connect at built
  split at built
  · cases built
  · obtain rfl := Except.ok.inj built
    exact h kind ns

theorem Additive.join {kind : Connective} {n m t : Node} (built : Grammar.join kind n m = .ok t) :
    f t = f n ++ f m := by
  have pair : [n, m].flatMap f = f n ++ f m := by
    rw [List.flatMap_cons, List.flatMap_singleton]
  cases m with
  | connective k children =>
    unfold Grammar.join at built
    dsimp only at built
    split at built
    · rw [h.connect built, List.flatMap_cons, h k children]
    · exact (h.connect built).trans pair
  | _ => exact (h.connect built).trans pair

theorem Additive.joinAll {kind : Connective} {ns : List Node} {t : Node}
    (built : Grammar.joinAll kind ns = .ok t) : f t = ns.flatMap f := by
  induction ns generalizing t with
  | nil => cases built
  | cons n ns ih =>
    cases ns with
    | nil =>
      obtain rfl := Except.ok.inj built
      exact (List.flatMap_singleton f n).symm
    | cons m ns =>
      unfold Grammar.joinAll at built
      cases later : Grammar.joinAll kind (m :: ns) with
      | error e =>
        rw [later] at built
        cases built
      | ok tail =>
        rw [later] at built
        rw [List.flatMap_cons, ← ih later]
        exact h.join built

theorem Additive.mapM_joinAll {kind : Connective} {runs : List (List Node)} {terms : List Node}
    (built : runs.mapM (Grammar.joinAll kind) = .ok terms) :
    terms.flatMap f = runs.flatten.flatMap f := by
  induction runs generalizing terms with
  | nil =>
    obtain rfl := Except.ok.inj built
    rfl
  | cons run runs ih =>
    rw [List.mapM_cons] at built
    cases here : Grammar.joinAll kind run with
    | error e =>
      rw [here] at built
      cases built
    | ok term =>
      cases later : runs.mapM (Grammar.joinAll kind) with
      | error e =>
        rw [here, later] at built
        cases built
      | ok others =>
        rw [here, later] at built
        obtain rfl := Except.ok.inj built
        rw [List.flatMap_cons, h.joinAll here, ih later, List.flatten_cons, List.flatMap_append]

/-- **The steps that build the tree of a chain** neither lose nor move what `f` lists. -/
theorem Additive.assemble {first : Node} {more : List (Connective × Node)} {t : Node}
    (built : Grammar.assemble first more = .ok t) :
    f t = f first ++ (more.map Prod.snd).flatMap f := by
  cases joined : Grammar.joinRuns (Grammar.operandRuns first more) with
  | error e =>
    rw [Grammar.assemble, joined] at built
    cases built
  | ok tree =>
    have same : t = tree := by
      rw [Grammar.assemble, joined] at built
      cases tree with
      | connective kind children => exact (Except.ok.inj built).symm
      | _ => cases built
    unfold Grammar.joinRuns at joined
    cases terms : (Grammar.operandRuns first more).mapM (Grammar.joinAll .conjunction) with
    | error e =>
      rw [terms] at joined
      cases joined
    | ok ns =>
      rw [terms] at joined
      have last : Grammar.joinAll .disjunction ns = .ok tree := joined
      rw [same, h.joinAll last, h.mapM_joinAll terms, flatten_operandRuns, List.flatMap_cons]

end

/-! ## Trees below an attribute -/

mutual

theorem comparisons_under (outer : AttributePath) :
    (n : Node) → n.Plain → (n.under outer).comparisons = n.comparisons.map (.under outer)
  | comparison _, _ => rfl
  | negation inner, .negation h => comparisons_under outer inner h
  | connective _ children, .connective _ h => comparisonsOfAll_under outer children h

theorem comparisonsOfAll_under (outer : AttributePath) :
    (ns : List Node) → (∀ n ∈ ns, n.Plain) →
      comparisonsOfAll (allUnder outer ns) = (comparisonsOfAll ns).map (.under outer)
  | [], _ => rfl
  | n :: ns, h => by
    have here := comparisons_under outer n (h n (List.mem_cons_self ..))
    have later := comparisonsOfAll_under outer ns fun m hm => h m (List.mem_cons_of_mem n hm)
    show (n.under outer).comparisons ++ comparisonsOfAll (allUnder outer ns) = _
    rw [here, later, ← List.map_append]
    rfl

end

end Node

namespace Phrase

/-! ## The attribute paths of comparisons -/

variable {P : AttributePath → Prop}

theorem forall_path_under (under : ∀ p q, P p → P q → P (p.under q)) {outer : AttributePath}
    {n : Node} (plain : n.Plain) (ho : P outer) (h : ∀ c ∈ n.comparisons, P c.path) :
    ∀ c ∈ (n.under outer).comparisons, P c.path := by
  rw [Node.comparisons_under outer n plain]
  intro moved mem
  obtain ⟨c, inside, rfl⟩ := List.mem_map.mp mem
  exact under _ _ ho (h c inside)

mutual

theorem Operand.Valid.forall_path (under : ∀ p q, P p → P q → P (p.under q)) {place : Place} :
    {d : Operand} → d.Valid place → (∀ t ∈ d.tokens, t.kind = .name → P (pathOf t)) →
      ∀ c ∈ d.tree.comparisons, P c.path
  | .group _ inner _, .group _ valid _, names =>
    valid.forall_path under fun t ht => names t (by simp [Operand.tokens, ht])
  | .negation _ _ inner _, .negation _ _ valid _, names =>
    valid.forall_path under fun t ht => names t (by simp [Operand.tokens, ht])
  | .presence name _, .presence isName _ _, names => by
    intro c mem
    obtain rfl := List.mem_singleton.mp mem
    exact names name (by simp [Operand.tokens]) isName
  | .comparison name _ _ _ _, .comparison isName _ _ _ _, names => by
    intro c mem
    obtain rfl := List.mem_singleton.mp mem
    exact names name (by simp [Operand.tokens]) isName
  | .valuePath name _ inner _, .valuePath isName _ _ valid _, names =>
    forall_path_under under valid.plain_tree (names name (by simp [Operand.tokens]) isName)
      (valid.forall_path under fun t ht => names t (by simp [Operand.tokens, ht]))

theorem Links.Valid.forall_path (under : ∀ p q, P p → P q → P (p.under q)) {place : Place} :
    {l : Links} → l.Valid place → (∀ t ∈ l.tokens, t.kind = .name → P (pathOf t)) →
      ∀ link ∈ l.trees, ∀ c ∈ link.2.comparisons, P c.path
  | _, .nil, _ => by
    intro link hl
    cases hl
  | .cons _ operand more, .cons _ valid links, names => by
    rw [Links.trees, List.forall_mem_cons]
    exact ⟨valid.forall_path under fun t ht => names t (by simp [Links.tokens, ht]),
      links.forall_path under fun t ht => names t (by simp [Links.tokens, ht])⟩

/-- **What holds of the names of a derivation**, and of one put below another, holds of the
attribute paths of its comparisons. -/
theorem Chain.Valid.forall_path (under : ∀ p q, P p → P q → P (p.under q)) {place : Place} :
    {c : Chain} → c.Valid place → (∀ t ∈ c.tokens, t.kind = .name → P (pathOf t)) →
      ∀ x ∈ c.tree.comparisons, P x.path
  | .mk first more, .mk valid links, names => by
    have here := valid.forall_path under fun t ht => names t (by simp [Chain.tokens, ht])
    have later := links.forall_path under fun t ht => names t (by simp [Chain.tokens, ht])
    have parts := Node.additive_comparisons.chained first.tree more.trees
    intro x mem
    change x ∈ (Node.chained first.tree more.trees).comparisons at mem
    rw [parts, List.mem_append] at mem
    rcases mem with mem | mem
    · exact here x mem
    · obtain ⟨n, hn, mem⟩ := List.mem_flatMap.mp mem
      obtain ⟨link, hl, rfl⟩ := List.mem_map.mp hn
      exact later link hl x mem

end

end Phrase

end Scim
