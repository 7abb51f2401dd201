import Scim.Proofs.Parse.Accept
import Scim.Proofs.Phrase.Folded
import Scim.Proofs.Phrase.Meaning

/-!
# The meaning of a filter

* `Filter.holds_iff_reads`   a filter means what its text means in the standard reading, and its
                             connectives are those of the runs of its operands.
-/

namespace Scim

open Grammar Descent Phrase

/-- **Filters are parsed with the standard precedence.**  Whatever the truth values of the
comparisons are, the tree has the truth value that the tokens have when parentheses are read first,
then `not`, then `and`, then `or`.  In a list of operands, here and at any depth, those between
which `and` stands are folded first, and then the results of this. -/
theorem Filter.holds_iff_reads (text : String) (ts : List Token) (n : Node)
    (scanned : scan .filter text.toList 0 = .ok ts)
    (accepted : Filter.parse .unlimited text = .ok (some n)) :
    (∀ (truth : Comparison → Bool) (b : Bool),
        Reads truth .filter .disjunction ts b ↔ n.holds truth = b) ∧
      (∃ c : Chain, c.Valid .filter ∧ c.tokens = ts ∧ c.tree = n) ∧
      ∀ part : Chain, ∃ terms, List.Forall₂ (Folded .conjunction) part.runs terms ∧
        Folded .disjunction terms part.tree := by
  have derives : Derived .filter (some n) ts := (Mode.parse_eq_ok_iff scanned).mp accepted
  obtain ⟨c, valid, rfl, rfl⟩ := derives
  exact ⟨fun truth b => valid.reads_iff, ⟨c, valid, rfl, rfl⟩, Chain.folded⟩

/-- `and` binds tighter than `or` -/
theorem Filter.reads_and_before_or :
    let x : Comparison := ⟨⟨none, ["a"]⟩, .pr, .null⟩
    let y : Comparison := ⟨⟨none, ["b"]⟩, .pr, .null⟩
    let z : Comparison := ⟨⟨none, ["c"]⟩, .pr, .null⟩
    ∀ truth : Comparison → Bool, Reads truth .filter .disjunction
      [⟨.name, ['a'], 0⟩, ⟨.comparison, [' ', 'p', 'r'], 1⟩, ⟨.logical, [' ', 'o', 'r', ' '], 4⟩,
        ⟨.name, ['b'], 8⟩, ⟨.comparison, [' ', 'p', 'r'], 9⟩,
        ⟨.logical, [' ', 'a', 'n', 'd', ' '], 12⟩,
        ⟨.name, ['c'], 17⟩, ⟨.comparison, [' ', 'p', 'r'], 18⟩]
      (truth x || (truth y && truth z)) := by
  intro x y z truth
  have scanned : scan .filter "a pr or b pr and c pr".toList 0 = .ok
      [⟨.name, ['a'], 0⟩, ⟨.comparison, [' ', 'p', 'r'], 1⟩, ⟨.logical, [' ', 'o', 'r', ' '], 4⟩,
        ⟨.name, ['b'], 8⟩, ⟨.comparison, [' ', 'p', 'r'], 9⟩,
        ⟨.logical, [' ', 'a', 'n', 'd', ' '], 12⟩,
        ⟨.name, ['c'], 17⟩, ⟨.comparison, [' ', 'p', 'r'], 18⟩] := by rfl
  have presence {name operator : Token} (isName : name.kind = .name)
      (isOperator : operator.kind = .comparison)
      (word : wordOf operator = Operator.pr.word.toList) :
      (Operand.presence name operator).Valid .filter := .presence isName isOperator word
  have accepted : Filter.parse .unlimited "a pr or b pr and c pr" = .ok (some
      (.connective .disjunction [.comparison x,
        .connective .conjunction [.comparison y, .comparison z]])) :=
    (Mode.parse_eq_ok_iff scanned).mpr ⟨_, .mk (presence rfl rfl (by decide))
      (.cons rfl (presence rfl rfl (by decide)) (.cons rfl (presence rfl rfl (by decide)) .nil)),
      by rfl, rfl⟩
  refine ((Filter.holds_iff_reads _ _ _ scanned accepted).1 truth _).mpr ?_
  show (truth x || ((truth y && (truth z && true)) || false)) = _
  rw [Bool.and_true, Bool.or_false]

end Scim
