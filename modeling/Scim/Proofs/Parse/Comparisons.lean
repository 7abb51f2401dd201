import Scim.Proofs.Parse.Accept
import Scim.Proofs.Phrase.Origin

/-!
# The comparisons of a filter

* `Filter.comparisons_stand`   the comparisons of a filter are those that are read off the
                               comparison operators of its text, each once and in their order.
-/

namespace Scim

open Grammar Descent Phrase

/-- **No comparison is lost, repeated or moved.**  The tree of a filter has as many comparisons as
the text has comparison operators, and the comparison at the place of an operator among the
operators is read off the tokens around it. -/
theorem Filter.comparisons_stand (text : String) (ts : List Token) (node : Option Node)
    (scanned : scan .filter text.toList 0 = .ok ts)
    (accepted : Filter.parse .unlimited text = .ok node) :
    (node = none → ∀ t ∈ ts, t.kind ≠ .comparison) ∧
      ∀ n, node = some n → n.comparisons.length = ts.countP isOperator ∧
        ∀ before operator after, ts = before ++ operator :: after → operator.kind = .comparison →
          ∃ c, n.comparisons[before.countP isOperator]? = some c ∧
            Stands c ⟨before, operator, after⟩ := by
  have derives : Derived .filter node ts := (Mode.parse_eq_ok_iff scanned).mp accepted
  constructor
  · rintro rfl
    exact Vacant.kind_ne_comparison derives
  · rintro n rfl
    obtain ⟨c, valid, rfl, rfl⟩ := derives
    have scope : Scope .filter none [] (c.tokens ++ []) := .top unbracketed_nil.shut
    have whole : List.Forall₂ Stands c.tree.comparisons (operatorSpots [] [] c.tokens) := by
      have same : c.tree.comparisons.map (inside none) = c.tree.comparisons := List.map_id _
      have stands := valid.stands scope
      rwa [same] at stands
    refine ⟨?_, ?_⟩
    · rw [whole.length_eq, length_operatorSpots]
    · intro before operator after split isOperator
      have spot := getElem?_operatorSpots [] before after isOperator
      rw [← split, List.nil_append] at spot
      obtain ⟨short, found⟩ := List.getElem?_eq_some_iff.mp spot
      have within : before.countP Phrase.isOperator < c.tree.comparisons.length := by
        rw [whole.length_eq]
        exact short
      have here := whole.get within short
      rw [List.get_eq_getElem, List.get_eq_getElem, found] at here
      exact ⟨_, List.getElem?_eq_getElem within, here⟩

/-- a comparison in brackets, and one behind them -/
theorem Filter.comparisons_around_brackets :
    let a : Token := ⟨.name, ['a'], 0⟩
    let opening : Token := ⟨.openBracket, ['['], 1⟩
    let b : Token := ⟨.name, ['b'], 2⟩
    let eq : Token := ⟨.comparison, [' ', 'E', 'Q', ' '], 3⟩
    let one : Token := ⟨.number, ['1'], 7⟩
    let closing : Token := ⟨.closeBracket, [']'], 8⟩
    let link : Token := ⟨.logical, [' ', 'a', 'n', 'd', ' '], 9⟩
    let c : Token := ⟨.name, ['c'], 14⟩
    let pr : Token := ⟨.comparison, [' ', 'p', 'r'], 15⟩
    Filter.parse .unlimited "a[b EQ 1] and c pr" = .ok (some (.connective .conjunction
        [.valuePath ⟨none, ["a"]⟩ (.comparison ⟨⟨none, ["a", "b"]⟩, .eq, .int 1⟩) none,
          .comparison ⟨⟨none, ["c"]⟩, .pr, .null⟩])) ∧
      Stands ⟨⟨none, ["a", "b"]⟩, .eq, .int 1⟩
        ⟨[a, opening, b], eq, [one, closing, link, c, pr]⟩ ∧
      Stands ⟨⟨none, ["c"]⟩, .pr, .null⟩ ⟨[a, opening, b, eq, one, closing, link, c], pr, []⟩ := by
  intro a opening b eq one closing link c pr
  have scanned : scan .filter "a[b EQ 1] and c pr".toList 0 =
      .ok [a, opening, b, eq, one, closing, link, c, pr] := by rfl
  have inner : (Chain.mk (.comparison b eq one .eq (.int 1)) .nil).Valid .brackets :=
    .mk (.comparison rfl rfl (by decide) (by decide) (.whole rfl (by decide) (by decide))) .nil
  have valid : (Chain.mk (.valuePath a opening _ closing)
      (.cons link (.presence c pr) .nil)).Valid .filter :=
    .mk (.valuePath rfl rfl rfl inner rfl) (.cons rfl (.presence rfl rfl (by decide)) .nil)
  have accepted : Filter.parse .unlimited "a[b EQ 1] and c pr" = .ok (some (.connective .conjunction
      [.valuePath ⟨none, ["a"]⟩ (.comparison ⟨⟨none, ["a", "b"]⟩, .eq, .int 1⟩) none,
        .comparison ⟨⟨none, ["c"]⟩, .pr, .null⟩])) :=
    (Mode.parse_eq_ok_iff scanned).mpr ⟨_, valid, by rfl, rfl⟩
  have found := (Filter.comparisons_stand _ _ _ scanned accepted).2 _ rfl
  obtain ⟨x, hx, first⟩ := found.2 [a, opening, b] eq [one, closing, link, c, pr] rfl rfl
  obtain ⟨y, hy, second⟩ := found.2 [a, opening, b, eq, one, closing, link, c] pr [] rfl rfl
  obtain rfl := Option.some.inj hx
  obtain rfl := Option.some.inj hy
  exact ⟨accepted, first, second⟩

end Scim
