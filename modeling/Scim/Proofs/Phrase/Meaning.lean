import Scim.Proofs.Phrase.Parts
import Scim.Proofs.Phrase.Unique

/-!
# What filters mean

The truth value of a tree, and that of tokens in the standard reading.

* `Node.holds`          the truth value of a tree, given those of the comparisons;
* `Reads`               the truth value of tokens: parentheses bind first, then `not`, then `and`,
                        then `or`;
* `Chain.Valid.reads`   the tokens of a derivation have the truth value of its tree;
* `Reads.means`         tokens with a truth value have a derivation, of a tree with this value;
* `Chain.Valid.reads_iff`    the tokens of a derivation have no other truth value.
-/

namespace Scim

open Grammar

/-! ## Truth values of trees -/

/-- The truth value of a connective, given those of the children. -/
def Connective.gather : Connective → List Bool → Bool
  | conjunction, bs => bs.all id
  | disjunction, bs | neutral, bs => bs.any id

namespace Node

mutual

/-- The truth value of a tree, given those of the comparisons: a value path has that of its inner
filter. -/
def holds (truth : Comparison → Bool) : Node → Bool
  | comparison c => truth c
  | negation inner => !inner.holds truth
  | connective kind children => kind.gather (allHold truth children)
  | valuePath _ inner _ => inner.holds truth
  | _ => false

def allHold (truth : Comparison → Bool) : List Node → List Bool
  | [] => []
  | n :: ns => n.holds truth :: allHold truth ns

end

variable {truth : Comparison → Bool}

theorem allHold_eq (ns : List Node) : allHold truth ns = ns.map (holds truth) := by
  induction ns with
  | nil => rfl
  | cons n ns ih => rw [allHold, ih, List.map_cons]

theorem holds_connective (kind : Connective) (children : List Node) :
    (connective kind children).holds truth = kind.gather (children.map (holds truth)) := by
  rw [holds, allHold_eq]

theorem gather_singleton (kind : Connective) (b : Bool) : kind.gather [b] = b := by
  cases kind with
  | conjunction => exact Bool.and_true b
  | disjunction | neutral => exact Bool.or_false b

theorem gather_cons (kind : Connective) (b : Bool) (bs : List Bool) :
    kind.gather (b :: bs) = kind.gather [b, kind.gather bs] := by
  cases kind with
  | conjunction =>
    show (b && bs.all id) = (b && (bs.all id && true))
    rw [Bool.and_true]
  | disjunction | neutral =>
    show (b || bs.any id) = (b || (bs.any id || false))
    rw [Bool.or_false]

theorem gather_spread (kind : Connective) (n : Node) :
    kind.gather ((n.spread kind).map (holds truth)) = n.holds truth := by
  have single : kind.gather ([n].map (holds truth)) = n.holds truth :=
    gather_singleton kind (n.holds truth)
  cases n with
  | connective k children =>
    unfold Node.spread
    dsimp only
    split
    · next same =>
      rw [holds_connective, same]
    · exact single
  | _ => exact single

theorem gather_spreadLast (kind : Connective) (ns : List Node) :
    kind.gather ((spreadLast kind ns).map (holds truth)) = kind.gather (ns.map (holds truth)) := by
  induction ns with
  | nil => rfl
  | cons n ns ih =>
    cases ns with
    | nil =>
      show kind.gather ((n.spread kind).map _) = kind.gather [n.holds truth]
      rw [gather_spread, gather_singleton]
    | cons m ns =>
      show kind.gather (n.holds truth :: (spreadLast kind (m :: ns)).map _) =
        kind.gather (n.holds truth :: (m :: ns).map _)
      rw [gather_cons, ih, ← gather_cons]

theorem holds_joined (kind : Connective) (n : Node) (ns : List Node) :
    (joined kind (n :: ns)).holds truth = kind.gather ((n :: ns).map (holds truth)) := by
  cases ns with
  | nil => exact (gather_singleton kind (n.holds truth)).symm
  | cons m ns =>
    show (connective kind (n :: spreadLast kind (m :: ns))).holds truth = _
    rw [holds_connective, List.map_cons, gather_cons, gather_spreadLast, ← gather_cons]
    rfl

/-- Whether all trees of some run hold. -/
def someRun (truth : Comparison → Bool) (runs : List (List Node)) : Bool :=
  runs.any fun run => run.all (holds truth)

theorem holds_chained (first : Node) (more : List (Connective × Node)) :
    (chained first more).holds truth = someRun truth (operandRuns first more) := by
  have run {ns : List Node} (h : ns ≠ []) :
      (joined .conjunction ns).holds truth = ns.all (holds truth) := by
    cases ns with
    | nil => exact absurd rfl h
    | cons n ns =>
      rw [holds_joined]
      exact List.all_map
  have terms : (operandRuns first more).map (holds truth ∘ joined .conjunction) =
      (operandRuns first more).map fun run => run.all (holds truth) :=
    List.map_congr_left fun ns hns => run (operandRuns_ne_nil first more ns hns)
  have whole : (chained first more).holds truth = Connective.disjunction.gather
      ((operandRuns first more).map (holds truth ∘ joined .conjunction)) := by
    obtain ⟨run, runs, cut⟩ := operandRuns_eq first more
    unfold chained
    rw [← List.map_map, cut, List.map_cons]
    exact holds_joined .disjunction _ _
  rw [whole, terms]
  exact List.any_map

mutual

theorem holds_under (outer : AttributePath) : (n : Node) → n.Plain →
    (n.under outer).holds truth = n.holds fun c => truth (c.under outer)
  | comparison _, _ => rfl
  | negation inner, .negation h => congrArg (!·) (holds_under outer inner h)
  | connective kind children, .connective _ h =>
    congrArg kind.gather (allHold_under outer children h)

theorem allHold_under (outer : AttributePath) : (ns : List Node) → (∀ n ∈ ns, n.Plain) →
    allHold truth (allUnder outer ns) = allHold (fun c => truth (c.under outer)) ns
  | [], _ => rfl
  | n :: ns, h => by
    have here := holds_under outer n (h n (List.mem_cons_self ..))
    have later := allHold_under outer ns fun m hm => h m (List.mem_cons_of_mem n hm)
    show (n.under outer).holds truth :: allHold truth (allUnder outer ns) = _
    rw [here, later]
    rfl

end

end Node

namespace Phrase

/-! ## The standard reading -/

/-- The levels of precedence. -/
inductive Level where
  | operand
  | conjunction
  | disjunction

/-- The truth value that tokens have at a level of precedence, given those of the comparisons. -/
inductive Reads : (Comparison → Bool) → Place → Level → List Token → Bool → Prop where
  | presence {truth : Comparison → Bool} {place : Place} {name operator : Token} :
      name.kind = .name → operator.kind = .comparison →
      wordOf operator = Operator.pr.word.toList →
      Reads truth place .operand [name, operator] (truth ⟨pathOf name, .pr, .null⟩)
  | comparison {truth : Comparison → Bool} {place : Place} {name operator literal : Token}
      {o : Operator} {v : Value} :
      name.kind = .name → operator.kind = .comparison → o ≠ .pr →
      wordOf operator = o.word.toList → Literal literal v →
      Reads truth place .operand [name, operator, literal] (truth ⟨pathOf name, o, v⟩)
  | group {truth : Comparison → Bool} {place : Place} {opening closing : Token} {ts : List Token}
      {b : Bool} :
      opening.kind = .openParen → Reads truth place .disjunction ts b →
      closing.kind = .closeParen → Reads truth place .operand (opening :: (ts ++ [closing])) b
  | negation {truth : Comparison → Bool} {place : Place} {word opening closing : Token}
      {ts : List Token} {b : Bool} :
      word.kind = .negation → opening.kind = .openParen → Reads truth place .disjunction ts b →
      closing.kind = .closeParen →
      Reads truth place .operand (word :: opening :: (ts ++ [closing])) (!b)
  /-- Inside brackets a comparison is one of the attribute before them. -/
  | valuePath {truth : Comparison → Bool} {name opening closing : Token} {ts : List Token}
      {b : Bool} :
      name.kind = .name → (pathOf name).names.length = 1 → opening.kind = .openBracket →
      Reads (fun c => truth (c.under (pathOf name))) .brackets .disjunction ts b →
      closing.kind = .closeBracket →
      Reads truth .filter .operand (name :: opening :: (ts ++ [closing])) b
  | single {truth : Comparison → Bool} {place : Place} {ts : List Token} {b : Bool} :
      Reads truth place .operand ts b → Reads truth place .conjunction ts b
  | and {truth : Comparison → Bool} {place : Place} {link : Token} {ts us : List Token}
      {b b' : Bool} :
      Reads truth place .operand ts b → link.kind = .logical → connectiveOf link = .conjunction →
      Reads truth place .conjunction us b' →
      Reads truth place .conjunction (ts ++ link :: us) (b && b')
  | term {truth : Comparison → Bool} {place : Place} {ts : List Token} {b : Bool} :
      Reads truth place .conjunction ts b → Reads truth place .disjunction ts b
  | or {truth : Comparison → Bool} {place : Place} {link : Token} {ts us : List Token}
      {b b' : Bool} :
      Reads truth place .conjunction ts b → link.kind = .logical →
      connectiveOf link = .disjunction → Reads truth place .disjunction us b' →
      Reads truth place .disjunction (ts ++ link :: us) (b || b')

/-! ## From derivations to readings -/

/-- The tokens of a chain with these runs, read run by run. -/
inductive RunsRead (truth : Comparison → Bool) (place : Place) :
    List (List Node) → List Token → Prop where
  | last {run : List Node} {ts : List Token} :
      Reads truth place .conjunction ts (run.all (Node.holds truth)) →
      RunsRead truth place [run] ts
  | more {run : List Node} {runs : List (List Node)} {link : Token} {ts us : List Token} :
      Reads truth place .conjunction ts (run.all (Node.holds truth)) → link.kind = .logical →
      connectiveOf link = .disjunction → RunsRead truth place runs us →
      RunsRead truth place (run :: runs) (ts ++ link :: us)

theorem RunsRead.reads {truth : Comparison → Bool} {place : Place} {runs : List (List Node)}
    {ts : List Token} (h : RunsRead truth place runs ts) :
    Reads truth place .disjunction ts (Node.someRun truth runs) := by
  induction h with
  | @last run ts one =>
    have value : Node.someRun truth [run] = run.all (Node.holds truth) := Bool.or_false _
    rw [value]
    exact .term one
  | more one isLink isOr _ ih => exact .or one isLink isOr ih

theorem RunsRead.and {truth : Comparison → Bool} {place : Place} {runs : List (List Node)}
    {n : Node} {link : Token} {ts us : List Token} (h : RunsRead truth place runs us)
    (operand : Reads truth place .operand ts (n.holds truth)) (isLink : link.kind = .logical)
    (isAnd : connectiveOf link = .conjunction) :
    RunsRead truth place (runs.modifyHead (n :: ·)) (ts ++ link :: us) := by
  cases h with
  | last one => exact .last (.and operand isLink isAnd one)
  | @more run _ _ _ _ one isLink' isOr others =>
    have joined : Reads truth place .conjunction _ ((n :: run).all (Node.holds truth)) :=
      .and operand isLink isAnd one
    have read := RunsRead.more joined isLink' isOr others
    rwa [List.append_assoc, List.cons_append] at read

mutual

theorem Operand.Valid.reads {truth : Comparison → Bool} {place : Place} :
    {d : Operand} → d.Valid place → Reads truth place .operand d.tokens (d.tree.holds truth)
  | _, .group opens inner closes => .group opens inner.reads closes
  | _, .negation isWord opens inner closes => .negation isWord opens inner.reads closes
  | _, .presence isName isOperator word => .presence isName isOperator word
  | _, .comparison isName isOperator other word value =>
    .comparison isName isOperator other word value
  | .valuePath name _ inner _, .valuePath isName single opens valid closes => by
    have value : ((inner.tree.under (pathOf name)).holds truth) = _ :=
      Node.holds_under (pathOf name) inner.tree valid.plain_tree
    show Reads truth .filter .operand _ ((inner.tree.under (pathOf name)).holds truth)
    rw [value]
    exact .valuePath isName single opens valid.reads closes

theorem Links.Valid.runsRead {truth : Comparison → Bool} {place : Place} {n : Node}
    {ts : List Token} : {l : Links} → l.Valid place →
      Reads truth place .operand ts (n.holds truth) →
      RunsRead truth place (operandRuns n l.trees) (ts ++ l.tokens)
  | _, .nil, here => by
    have alone : [n].all (Node.holds truth) = n.holds truth := Bool.and_true _
    show RunsRead truth place [[n]] (ts ++ [])
    rw [List.append_nil]
    refine .last ?_
    rw [alone]
    exact .single here
  | .cons link operand more, .cons isLink operand' more', here => by
    have alone : [n].all (Node.holds truth) = n.holds truth := Bool.and_true _
    have later : RunsRead truth place (operandRuns operand.tree more.trees)
        (operand.tokens ++ more.tokens) := more'.runsRead operand'.reads
    show RunsRead truth place (operandRuns n ((connectiveOf link, operand.tree) :: more.trees))
      (ts ++ link :: (operand.tokens ++ more.tokens))
    unfold operandRuns
    rcases connectiveOf_cases link with isAnd | isOr
    · rw [if_pos isAnd]
      exact later.and here isLink isAnd
    · rw [if_neg (by rw [isOr]; decide)]
      refine .more ?_ isLink isOr later
      rw [alone]
      exact .single here

/-- **The tokens of a derivation have the truth value of its tree.** -/
theorem Chain.Valid.reads {truth : Comparison → Bool} {place : Place} :
    {c : Chain} → c.Valid place → Reads truth place .disjunction c.tokens (c.tree.holds truth)
  | .mk first more, .mk first' more' => by
    have value : (Chain.mk first more).tree.holds truth = _ :=
      Node.holds_chained first.tree more.trees
    rw [value]
    exact (more'.runsRead first'.reads).reads

end

/-! ## From readings to derivations -/

def Links.append : Links → Links → Links
  | .nil, l => l
  | .cons link operand more, l => .cons link operand (more.append l)

theorem Links.tokens_append : (l l' : Links) → (l.append l').tokens = l.tokens ++ l'.tokens
  | .nil, _ => rfl
  | .cons link operand more, l' => by
    show link :: (operand.tokens ++ (more.append l').tokens) = _
    rw [more.tokens_append l', ← List.append_assoc]
    rfl

theorem Links.trees_append : (l l' : Links) → (l.append l').trees = l.trees ++ l'.trees
  | .nil, _ => rfl
  | .cons link operand more, l' => by
    show (connectiveOf link, operand.tree) :: (more.append l').trees = _
    rw [more.trees_append l']
    rfl

theorem Links.Valid.append {place : Place} : {l l' : Links} → l.Valid place → l'.Valid place →
    (l.append l').Valid place
  | _, _, .nil, h' => h'
  | _, _, .cons isLink operand more, h' => .cons isLink operand (more.append h')

theorem operandRuns_append {n m : Node} {more others : List (Connective × Node)}
    (h : ∀ link ∈ more, link.1 = .conjunction) :
    operandRuns n (more ++ (.disjunction, m) :: others) =
      (n :: more.map Prod.snd) :: operandRuns m others := by
  induction more generalizing n with
  | nil => rfl
  | cons link more ih =>
    obtain ⟨kind, k⟩ := link
    obtain rfl : kind = .conjunction := h (kind, k) (List.mem_cons_self ..)
    have later := ih (n := k) fun l hl => h l (List.mem_cons_of_mem _ hl)
    show (operandRuns k (more ++ (.disjunction, m) :: others)).modifyHead (n :: ·) = _
    rw [later]
    rfl

/-- What a truth value of tokens says about their derivations. -/
def Means (truth : Comparison → Bool) (place : Place) : Level → List Token → Bool → Prop
  | .operand, ts, b => ∃ d : Operand, d.Valid place ∧ d.tokens = ts ∧ d.tree.holds truth = b
  | .conjunction, ts, b => ∃ (first : Operand) (more : Links), first.Valid place ∧
      more.Valid place ∧ first.tokens ++ more.tokens = ts ∧
      (∀ link ∈ more.trees, link.1 = .conjunction) ∧
      (first.tree :: more.trees.map Prod.snd).all (Node.holds truth) = b
  | .disjunction, ts, b => ∃ c : Chain, c.Valid place ∧ c.tokens = ts ∧ c.tree.holds truth = b

/-- **Tokens with a truth value have a derivation** of a tree with this value. -/
theorem Reads.means {truth : Comparison → Bool} {place : Place} {level : Level} {ts : List Token}
    {b : Bool} (h : Reads truth place level ts b) : Means truth place level ts b := by
  induction h with
  | presence isName isOperator word => exact ⟨_, .presence isName isOperator word, rfl, rfl⟩
  | comparison isName isOperator other word value =>
    exact ⟨_, .comparison isName isOperator other word value, rfl, rfl⟩
  | group opens _ closes inner =>
    obtain ⟨c, valid, rfl, rfl⟩ := inner
    exact ⟨_, .group opens valid closes, rfl, rfl⟩
  | negation isWord opens _ closes inner =>
    obtain ⟨c, valid, rfl, rfl⟩ := inner
    exact ⟨_, .negation isWord opens valid closes, rfl, rfl⟩
  | @valuePath truth name _ _ _ _ isName single opens _ closes inner =>
    obtain ⟨c, valid, rfl, rfl⟩ := inner
    exact ⟨_, .valuePath isName single opens valid closes, rfl,
      Node.holds_under (pathOf name) c.tree valid.plain_tree⟩
  | single _ operand =>
    obtain ⟨d, valid, rfl, rfl⟩ := operand
    exact ⟨d, .nil, valid, .nil, List.append_nil _, nofun, Bool.and_true _⟩
  | @and truth place link _ _ _ _ _ isLink isAnd _ operand rest =>
    obtain ⟨d, valid, rfl, rfl⟩ := operand
    obtain ⟨first, more, first', more', rfl, all, rfl⟩ := rest
    refine ⟨d, .cons link first more, valid, .cons isLink first' more', rfl, ?_, rfl⟩
    intro l hl
    rcases List.mem_cons.mp hl with rfl | hl
    · exact isAnd
    · exact all l hl
  | @term truth place _ _ _ run =>
    obtain ⟨first, more, first', more', rfl, all, rfl⟩ := run
    refine ⟨.mk first more, .mk first' more', rfl, ?_⟩
    show (Node.chained first.tree more.trees).holds truth = _
    rw [Node.holds_chained, Node.operandRuns_of_and all]
    exact Bool.or_false _
  | @or truth place link _ _ _ _ _ isLink isOr _ run rest =>
    obtain ⟨first, more, first', more', rfl, all, rfl⟩ := run
    obtain ⟨⟨operand, others⟩, valid, rfl, rfl⟩ := rest
    cases valid with
    | mk operand' others' =>
      refine ⟨.mk first (more.append (.cons link operand others)),
        .mk first' (more'.append (.cons isLink operand' others')), ?_, ?_⟩
      · show first.tokens ++ (more.append (.cons link operand others)).tokens = _
        rw [Links.tokens_append, ← List.append_assoc]
        rfl
      · show (Node.chained first.tree (more.append (.cons link operand others)).trees).holds truth =
          (_ || (Node.chained operand.tree others.trees).holds truth)
        rw [Links.trees_append]
        show (Node.chained first.tree
          (more.trees ++ (connectiveOf link, operand.tree) :: others.trees)).holds truth = _
        rw [isOr, Node.holds_chained, Node.holds_chained, operandRuns_append all]
        rfl

/-- **The tokens of a derivation have no other truth value** than its tree. -/
theorem Chain.Valid.reads_iff {truth : Comparison → Bool} {place : Place} {c : Chain}
    (h : c.Valid place) {b : Bool} :
    Reads truth place .disjunction c.tokens b ↔ c.tree.holds truth = b := by
  constructor
  · intro read
    obtain ⟨c', valid, tokens, value⟩ := read.means
    have same : c'.tokens ++ [] = c.tokens ++ [] := by rw [tokens]
    obtain ⟨rfl, -⟩ := valid.unique h unlinked_nil unlinked_nil same
    exact value
  · rintro rfl
    exact h.reads

end Phrase

end Scim
