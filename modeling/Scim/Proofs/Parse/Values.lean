import Scim.Proofs.Json.Finite
import Scim.Proofs.Parse.Limits
import Scim.Proofs.Phrase.Normal
import Scim.Proofs.Phrase.Origin

/-!
# What parsed trees are made of

* `DerivedTarget.cases_operand`   the target of a path is an attribute, or the value path of a
                                  filter with a sub-attribute;
* `Mode.parts_of_parse`           the parts of a parsed tree are in normal form;
* `Mode.literal_of_parse`         the values of a parsed tree are those of literals;
* `Literal.canonical`             a decimal number is a canonical double, or it is too large.
-/

namespace Scim

open Number (Double)
open Grammar Descent Phrase

theorem Descent.DerivedTarget.cases_operand {n : Node} {ts : List Token} (h : DerivedTarget n ts) :
    (∃ p, n = .path p) ∨ ∃ (d : Operand) (p : AttributePath) (inner : Node) (sub : Option String),
      d.Valid .filter ∧ d.tokens <+: ts ∧ d.tree = .valuePath p inner none ∧
        n = .valuePath p inner sub := by
  cases h with
  | simple _ => exact .inl ⟨_, rfl⟩
  | @valuePath name n sub ts behind isName single brackets _ =>
    obtain @⟨opening, closing, c, opens, valid, closes⟩ := brackets
    refine .inr ⟨.valuePath name opening c closing, _, _, sub,
      .valuePath isName single opens valid closes, ?_, rfl, rfl⟩
    exact ⟨behind, by simp [Operand.tokens]⟩

namespace Mode

variable {mode : Mode} {limits : Limits} {text : String} {n : Node}

theorem exists_derivation_of_parse (h : mode.parse limits text = .ok (some n)) :
    ∃ ts, (∀ t ∈ ts, t.Lexed) ∧ mode.Derives (some n) ts := by
  obtain ⟨ts, tiles, derives⟩ := parse_eq_ok_iff_exists.mp (parse_unlimited_of_ok h)
  exact ⟨ts, tiles.lexed, derives⟩

/-- **The parts of a parsed tree** are in normal form. -/
theorem parts_of_parse (h : mode.parse limits text = .ok (some n)) :
    (∃ p, n = .path p) ∨ n.Normal ∨
      ∃ p inner sub, n = .valuePath p inner sub ∧ (Node.valuePath p inner none).Normal := by
  obtain ⟨ts, lexed, derives⟩ := exists_derivation_of_parse h
  cases mode with
  | filter =>
    obtain ⟨c, valid, rfl, rfl⟩ := derives
    exact .inr (.inl (valid.normal lexed))
  | path =>
    rcases DerivedTarget.cases_operand derives with
      path | ⟨d, p, inner, sub, valid, part, tree, rfl⟩
    · exact .inl path
    · refine .inr (.inr ⟨p, inner, sub, rfl, ?_⟩)
      rw [← tree]
      exact valid.normal fun t ht => lexed t (part.subset ht)

end Mode

namespace Phrase

theorem Stands.literal {c : Comparison} {s : Spot} (h : Stands c s) :
    c.value = .null ∨ ∃ t, Literal t c.value := by
  rcases h.value with ⟨-, none⟩ | ⟨-, t, rest, -, known, read⟩
  · exact .inl none
  · exact .inr ⟨t, (value_eq_ok_iff known).mp read⟩

theorem literal_of_stands {cs : List Comparison} {spots : List Spot}
    (h : List.Forall₂ Stands (cs.map (inside none)) spots) :
    ∀ c ∈ cs, c.value = .null ∨ ∃ t, Literal t c.value := by
  induction cs generalizing spots with
  | nil => nofun
  | cons c cs ih =>
    obtain ⟨s, more, first, others, -⟩ := List.forall₂_cons_left_iff.mp h
    exact List.forall_mem_cons.mpr ⟨first.literal, ih others⟩

theorem Literal.canonical {t : Token} {x : Double} (h : Literal t (.double x)) :
    x.Canonical ∨ x = .infinite false := by
  cases h with
  | decimal _ _ _ => exact Double.canonical_ofDecimal false _ _

end Phrase

namespace Mode

variable {mode : Mode} {limits : Limits} {text : String} {n : Node}

/-- **The values of a parsed tree are those of literals.** -/
theorem literal_of_parse (h : mode.parse limits text = .ok (some n)) :
    ∀ c ∈ n.comparisons, c.value = .null ∨ ∃ t, Literal t c.value := by
  obtain ⟨ts, -, derives⟩ := exists_derivation_of_parse h
  cases mode with
  | filter =>
    obtain ⟨c, valid, rfl, rfl⟩ := derives
    have scope : Scope .filter none [] (c.tokens ++ []) := .top unbracketed_nil.shut
    exact literal_of_stands (valid.stands scope)
  | path =>
    rcases DerivedTarget.cases_operand derives with
      ⟨p, rfl⟩ | ⟨d, p, inner, sub, valid, -, tree, rfl⟩
    · nofun
    · have scope : Scope .filter none [] (d.tokens ++ []) := .top unbracketed_nil.shut
      have found := literal_of_stands (valid.stands scope)
      rw [tree] at found
      exact found

end Mode

end Scim
