import Scim.Proofs.Phrase.Basic

/-!
# The grammar is unambiguous

* `Unlinked`               no logical operator comes next;
* `Operand.Valid.unique`   two operands at the start of the same tokens are the same;
* `Chain.Valid.unique`     and so are two chains, if no logical operator follows them.
-/

namespace Scim

open Grammar

namespace Phrase

/-- No logical operator comes next. -/
def Unlinked (ts : List Token) : Prop := ∀ t ∈ ts.head?, t.kind ≠ .logical

theorem unlinked_nil : Unlinked [] := by
  intro t ht
  cases ht

theorem unlinked_cons {t : Token} {ts : List Token} (h : t.kind ≠ .logical) :
    Unlinked (t :: ts) := by
  intro t' ht
  obtain rfl := Option.some.inj ht
  exact h

theorem unlinked_of_kind {kind : Kind} {t : Token} {ts : List Token} (h : t.kind = kind)
    (other : kind ≠ .logical) : Unlinked (t :: ts) :=
  unlinked_cons (by rw [h]; exact other)

-- the kinds of the first two tokens tell the operands apart, but for the two comparisons: those are
-- told apart by the word of the operator

mutual

/-- **Two operands at the start of the same tokens** are the same. -/
theorem Operand.Valid.unique {place : Place} : {d d' : Operand} → {r r' : List Token} →
    d.Valid place → d'.Valid place → d.tokens ++ r = d'.tokens ++ r' → d = d' ∧ r = r'
  | _, d', r, r', .group opens inner closes, h', same => by
    cases h' with
    | group opens' inner' closes' =>
      simp only [Operand.tokens, List.cons_append, List.append_assoc, List.nil_append] at same
      obtain ⟨rfl, inside⟩ := List.cons.inj same
      obtain ⟨rfl, tails⟩ := inner.unique inner' (unlinked_of_kind closes (by decide))
        (unlinked_of_kind closes' (by decide)) inside
      obtain ⟨rfl, rfl⟩ := List.cons.inj tails
      exact ⟨rfl, rfl⟩
    | _ => simp_all [Operand.tokens]
  | _, d', r, r', .negation isWord opens inner closes, h', same => by
    cases h' with
    | negation isWord' opens' inner' closes' =>
      simp only [Operand.tokens, List.cons_append, List.append_assoc, List.nil_append] at same
      obtain ⟨rfl, behind⟩ := List.cons.inj same
      obtain ⟨rfl, inside⟩ := List.cons.inj behind
      obtain ⟨rfl, tails⟩ := inner.unique inner' (unlinked_of_kind closes (by decide))
        (unlinked_of_kind closes' (by decide)) inside
      obtain ⟨rfl, rfl⟩ := List.cons.inj tails
      exact ⟨rfl, rfl⟩
    | _ => simp_all [Operand.tokens]
  | _, d', r, r', .presence isName isOperator word, h', same => by
    cases h' with
    | presence isName' isOperator' word' =>
      simp only [Operand.tokens, List.cons_append, List.nil_append] at same
      obtain ⟨rfl, last⟩ := List.cons.inj same
      obtain ⟨rfl, rfl⟩ := List.cons.inj last
      exact ⟨rfl, rfl⟩
    | comparison isName' isOperator' other word' literal =>
      simp only [Operand.tokens, List.cons_append, List.nil_append] at same
      obtain ⟨rfl, behind⟩ := List.cons.inj same
      obtain ⟨rfl, -⟩ := List.cons.inj behind
      exact absurd (Operator.word_injective (word'.symm.trans word)) other
    | _ => simp_all [Operand.tokens]
  | _, d', r, r', .comparison isName isOperator other word literal, h', same => by
    cases h' with
    | comparison isName' isOperator' other' word' literal' =>
      simp only [Operand.tokens, List.cons_append, List.nil_append] at same
      obtain ⟨rfl, behind⟩ := List.cons.inj same
      obtain ⟨rfl, last⟩ := List.cons.inj behind
      obtain ⟨rfl, rfl⟩ := List.cons.inj last
      obtain rfl := Operator.word_injective (word.symm.trans word')
      obtain rfl := literal.unique literal'
      exact ⟨rfl, rfl⟩
    | presence isName' isOperator' word' =>
      simp only [Operand.tokens, List.cons_append, List.nil_append] at same
      obtain ⟨rfl, behind⟩ := List.cons.inj same
      obtain ⟨rfl, -⟩ := List.cons.inj behind
      exact absurd (Operator.word_injective (word.symm.trans word')) other
    | _ => simp_all [Operand.tokens]
  | _, d', r, r', .valuePath isName single opens inner closes, h', same => by
    cases h' with
    | valuePath isName' single' opens' inner' closes' =>
      simp only [Operand.tokens, List.cons_append, List.append_assoc, List.nil_append] at same
      obtain ⟨rfl, behind⟩ := List.cons.inj same
      obtain ⟨rfl, inside⟩ := List.cons.inj behind
      obtain ⟨rfl, tails⟩ := inner.unique inner' (unlinked_of_kind closes (by decide))
        (unlinked_of_kind closes' (by decide)) inside
      obtain ⟨rfl, rfl⟩ := List.cons.inj tails
      exact ⟨rfl, rfl⟩
    | _ => simp_all [Operand.tokens]

theorem Links.Valid.unique {place : Place} : {l l' : Links} → {r r' : List Token} →
    l.Valid place → l'.Valid place → Unlinked r → Unlinked r' →
    l.tokens ++ r = l'.tokens ++ r' → l = l' ∧ r = r'
  | _, _, _, _, .nil, .nil, _, _, same => ⟨rfl, same⟩
  | _, _, r, _, .nil, .cons isLink _ _, ends, _, same => by
    change r = _ at same
    rw [same] at ends
    exact absurd isLink (ends _ rfl)
  | _, _, _, r', .cons isLink _ _, .nil, _, ends, same => by
    change _ = r' at same
    rw [← same] at ends
    exact absurd isLink (ends _ rfl)
  | _, _, _, _, .cons _ operand more, .cons _ operand' more', ends, ends', same => by
    simp only [Links.tokens, List.cons_append, List.append_assoc] at same
    obtain ⟨rfl, behind⟩ := List.cons.inj same
    obtain ⟨rfl, later⟩ := operand.unique operand' behind
    obtain ⟨rfl, rfl⟩ := more.unique more' ends ends' later
    exact ⟨rfl, rfl⟩

/-- **Two chains at the start of the same tokens** are the same, if no logical operator follows. -/
theorem Chain.Valid.unique {place : Place} : {c c' : Chain} → {r r' : List Token} →
    c.Valid place → c'.Valid place → Unlinked r → Unlinked r' →
    c.tokens ++ r = c'.tokens ++ r' → c = c' ∧ r = r'
  | _, _, _, _, .mk first more, .mk first' more', ends, ends', same => by
    simp only [Chain.tokens, List.append_assoc] at same
    obtain ⟨rfl, later⟩ := first.unique first' same
    obtain ⟨rfl, rfl⟩ := more.unique more' ends ends' later
    exact ⟨rfl, rfl⟩

end

end Phrase

end Scim
