import Scim.Proofs.Phrase.Leaf
import Scim.Proofs.Phrase.Tree

/-!
# Derivations

The grammar of filters over lists of tokens, apart from the reader.

* `Operand`, `Links`, `Chain`    derivations, with the tokens at their leaves: a chain is an operand
                                 and links, each a logical operator and an operand;
* `Chain.tokens`                 the tokens that a derivation derives;
* `Chain.Valid`                  its tokens are of the kinds that the grammar wants at a place;
* `Chain.tree`                   the tree that it stands for;
* `Vacant`                       no tokens, or nested groups with nothing inside.
-/

namespace Scim

open Grammar

namespace Phrase

mutual

inductive Operand where
  | group (opening : Token) (inner : Chain) (closing : Token)
  | negation (word opening : Token) (inner : Chain) (closing : Token)
  | presence (name operator : Token)
  | comparison (name operator literal : Token) (o : Operator) (v : Value)
  | valuePath (name opening : Token) (inner : Chain) (closing : Token)

/-- Logical operators, each with the operand after it. -/
inductive Links where
  | nil
  | cons (link : Token) (operand : Operand) (more : Links)

/-- An operand and the links behind it. -/
inductive Chain where
  | mk (first : Operand) (more : Links)

end

mutual

def Operand.tokens : Operand → List Token
  | .group opening inner closing => opening :: (inner.tokens ++ [closing])
  | .negation word opening inner closing => word :: opening :: (inner.tokens ++ [closing])
  | .presence name operator => [name, operator]
  | .comparison name operator literal _ _ => [name, operator, literal]
  | .valuePath name opening inner closing => name :: opening :: (inner.tokens ++ [closing])

def Links.tokens : Links → List Token
  | .nil => []
  | .cons link operand more => link :: (operand.tokens ++ more.tokens)

def Chain.tokens : Chain → List Token
  | .mk first more => first.tokens ++ more.tokens

end

theorem Operand.tokens_ne_nil (d : Operand) : d.tokens ≠ [] := by
  cases d <;> exact List.cons_ne_nil _ _

theorem Chain.tokens_ne_nil (c : Chain) : c.tokens ≠ [] := by
  cases c with
  | mk first more =>
    intro none
    exact first.tokens_ne_nil (List.append_eq_nil_iff.mp none).1

/-- The attribute path of a name. -/
def pathOf (name : Token) : AttributePath := .named name.text

theorem ofText_pathOf (name : Token) : AttributePath.ofText name.text = .ok (pathOf name) :=
  AttributePath.ofText_eq name.text

mutual

/-- The operands of the grammar at a place. -/
inductive Operand.Valid : Place → Operand → Prop where
  | group {place : Place} {opening closing : Token} {inner : Chain} :
      opening.kind = .openParen → inner.Valid place → closing.kind = .closeParen →
      (Operand.group opening inner closing).Valid place
  | negation {place : Place} {word opening closing : Token} {inner : Chain} :
      word.kind = .negation → opening.kind = .openParen → inner.Valid place →
      closing.kind = .closeParen → (Operand.negation word opening inner closing).Valid place
  | presence {place : Place} {name operator : Token} :
      name.kind = .name → operator.kind = .comparison →
      wordOf operator = Operator.pr.word.toList → (Operand.presence name operator).Valid place
  | comparison {place : Place} {name operator literal : Token} {o : Operator} {v : Value} :
      name.kind = .name → operator.kind = .comparison → o ≠ .pr →
      wordOf operator = o.word.toList → Literal literal v →
      (Operand.comparison name operator literal o v).Valid place
  /-- A value path does not stand inside the brackets of another one. -/
  | valuePath {name opening closing : Token} {inner : Chain} :
      name.kind = .name → (pathOf name).names.length = 1 → opening.kind = .openBracket →
      inner.Valid .brackets → closing.kind = .closeBracket →
      (Operand.valuePath name opening inner closing).Valid .filter

inductive Links.Valid : Place → Links → Prop where
  | nil {place : Place} : Links.nil.Valid place
  | cons {place : Place} {link : Token} {operand : Operand} {more : Links} :
      link.kind = .logical → operand.Valid place → more.Valid place →
      (Links.cons link operand more).Valid place

inductive Chain.Valid : Place → Chain → Prop where
  | mk {place : Place} {first : Operand} {more : Links} :
      first.Valid place → more.Valid place → (Chain.mk first more).Valid place

end

mutual

def Operand.tree : Operand → Node
  | .group _ inner _ => inner.tree
  | .negation _ _ inner _ => .negation inner.tree
  | .presence name _ => .comparison ⟨pathOf name, .pr, .null⟩
  | .comparison name _ _ o v => .comparison ⟨pathOf name, o, v⟩
  | .valuePath name _ inner _ => .valuePath (pathOf name) (inner.tree.under (pathOf name)) none

def Links.trees : Links → List (Connective × Node)
  | .nil => []
  | .cons link operand more => (connectiveOf link, operand.tree) :: more.trees

/-- The tree of a chain. -/
def Chain.tree : Chain → Node
  | .mk first more => .chained first.tree more.trees

end

/-- No tokens, or a group with nothing inside, possibly negated. -/
inductive Vacant : List Token → Prop where
  | nil : Vacant []
  | group {opening closing : Token} {inner : List Token} :
      opening.kind = .openParen → Vacant inner → closing.kind = .closeParen →
      Vacant (opening :: (inner ++ [closing]))
  | negation {word opening closing : Token} {inner : List Token} :
      word.kind = .negation → opening.kind = .openParen → Vacant inner →
      closing.kind = .closeParen → Vacant (word :: opening :: (inner ++ [closing]))

theorem connectiveOf_cases (link : Token) :
    connectiveOf link = .conjunction ∨ connectiveOf link = .disjunction := by
  unfold connectiveOf
  split
  · exact .inl rfl
  · exact .inr rfl

/-! ## The trees of derivations -/

mutual

theorem Operand.solid_tree : (d : Operand) → d.tree.Solid
  | .group _ inner _ => inner.solid_tree
  | .negation _ _ _ _ | .presence _ _ | .comparison _ _ _ _ _ | .valuePath _ _ _ _ => by
    intro kind same
    cases same

theorem Links.solid_trees : (l : Links) → ∀ link ∈ l.trees, link.2.Solid
  | .nil => by
    intro link hl
    cases hl
  | .cons _ operand more => by
    intro link hl
    rcases List.mem_cons.mp hl with rfl | hl
    · exact operand.solid_tree
    · exact more.solid_trees link hl

theorem Chain.solid_tree : (c : Chain) → c.tree.Solid
  | .mk first more => Node.solid_chained first.solid_tree more.solid_trees

end

theorem assemble_trees (first : Operand) (link : Token) (second : Operand) (more : Links) :
    assemble first.tree (Links.cons link second more).trees =
      .ok (Chain.mk first (.cons link second more)).tree :=
  Node.assemble_eq first.solid_tree (Links.cons link second more).solid_trees

mutual

theorem Operand.Valid.plain_tree : {d : Operand} → d.Valid .brackets → d.tree.Plain
  | _, .group _ inner _ => inner.plain_tree
  | _, .negation _ _ inner _ => .negation inner.plain_tree
  | _, .presence _ _ _ => .comparison _
  | _, .comparison _ _ _ _ _ => .comparison _

theorem Links.Valid.plain_trees : {l : Links} → l.Valid .brackets → ∀ link ∈ l.trees, link.2.Plain
  | _, .nil => by
    intro link hl
    cases hl
  | _, .cons _ operand more => by
    intro link hl
    rcases List.mem_cons.mp hl with rfl | hl
    · exact operand.plain_tree
    · exact more.plain_trees link hl

theorem Chain.Valid.plain_tree : {c : Chain} → c.Valid .brackets → c.tree.Plain
  | _, .mk first more => Node.plain_chained first.plain_tree more.plain_trees

end

end Phrase

end Scim
