import Scim.Proofs.Parse.Limits
import Scim.Proofs.Phrase.Normal

/-!
# Parsed trees are normal

* `Filter.parse_normal`   the tree of a filter is in normal form, and so is the value path of a
                          path, but for its sub-attribute.
-/

namespace Scim

open Grammar Descent Phrase

/-- **Every tree that a text gives is in normal form**, whatever the limits are: the tree of a
filter, and the value path of a path, but for its sub-attribute. -/
theorem Filter.parse_normal (limits : Limits) (text : String) :
    (∀ n, Filter.parse limits text = .ok (some n) → n.Normal) ∧
      ∀ p inner sub, Path.parse limits text = .ok (some (.valuePath p inner sub)) →
        (Node.valuePath p inner none).Normal := by
  have derivation {mode : Mode} {n : Node} (h : mode.parse limits text = .ok (some n)) :
      ∃ ts, (∀ t ∈ ts, t.Lexed) ∧ mode.Derives (some n) ts := by
    obtain ⟨ts, tiles, derives⟩ :=
      Mode.parse_eq_ok_iff_exists.mp (Mode.parse_unlimited_of_ok h)
    exact ⟨ts, tiles.lexed, derives⟩
  constructor
  · intro n h
    have accepted : Mode.filter.parse limits text = .ok (some n) := h
    obtain ⟨ts, lexed, c, valid, rfl, rfl⟩ := derivation accepted
    exact valid.normal lexed
  · intro p inner sub h
    have accepted : Mode.path.parse limits text = .ok (some (.valuePath p inner sub)) := h
    obtain ⟨ts, lexed, derives⟩ := derivation accepted
    cases derives with
    | @valuePath name n _ ts behind isName single brackets _ =>
      obtain @⟨opening, closing, c, opens, valid, closes⟩ := brackets
      -- the same brackets in a filter
      have operand : (Operand.valuePath name opening c closing).Valid .filter :=
        .valuePath isName single opens valid closes
      have part : (Operand.valuePath name opening c closing).tokens <+:
          name :: opening :: (c.tokens ++ closing :: behind) := ⟨behind, by simp [Operand.tokens]⟩
      exact operand.normal fun t ht => lexed t (part.subset ht)

/-- brackets in a filter, and in a path with a sub-attribute -/
theorem Filter.parse_normal_brackets :
    let inner : Node := .comparison ⟨⟨none, ["a", "b"]⟩, .pr, .null⟩
    Filter.parse .unlimited "a[b pr]" = .ok (some (.valuePath ⟨none, ["a"]⟩ inner none)) ∧
      Path.parse .unlimited "a[b pr].c" =
        .ok (some (.valuePath ⟨none, ["a"]⟩ inner (some "c"))) ∧
      (Node.valuePath ⟨none, ["a"]⟩ inner none).Normal := by
  intro inner
  let a : Token := ⟨.name, ['a'], 0⟩
  let opening : Token := ⟨.openBracket, ['['], 1⟩
  let b : Token := ⟨.name, ['b'], 2⟩
  let pr : Token := ⟨.comparison, [' ', 'p', 'r'], 3⟩
  let closing : Token := ⟨.closeBracket, [']'], 6⟩
  let sub : Token := ⟨.subAttribute, ['.', 'c'], 7⟩
  have presence : (Chain.mk (.presence b pr) .nil).Valid .brackets :=
    .mk (.presence rfl rfl (by decide)) .nil
  have inFilter : scan .filter "a[b pr]".toList 0 = .ok [a, opening, b, pr, closing] := by rfl
  have filter : Mode.filter.parse .unlimited "a[b pr]" =
      .ok (some (.valuePath ⟨none, ["a"]⟩ inner none)) :=
    (Mode.parse_eq_ok_iff inFilter).mpr
      ⟨_, .mk (.valuePath rfl rfl rfl presence rfl) .nil, by rfl, rfl⟩
  have inPath : scan .path "a[b pr].c".toList 0 =
      .ok [a, opening, b, pr, closing, sub] := by rfl
  have brackets : Bracketed (pathOf a) [sub] inner [opening, b, pr, closing, sub] :=
    .mk (by rfl) presence (by rfl)
  have behind : SubAttribute (some "c") [sub] := @SubAttribute.some sub rfl
  have target : DerivedTarget (.valuePath (pathOf a) inner (some "c")) _ :=
    .valuePath (by rfl) (by rfl) brackets behind
  have path : Mode.path.parse .unlimited "a[b pr].c" =
      .ok (some (.valuePath ⟨none, ["a"]⟩ inner (some "c"))) :=
    (Mode.parse_eq_ok_iff inPath).mpr target
  exact ⟨filter, path, (Filter.parse_normal .unlimited "a[b pr].c").2 _ _ _ path⟩

end Scim
