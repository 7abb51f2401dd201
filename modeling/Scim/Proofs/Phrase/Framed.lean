import Mathlib.Data.List.Chain
import Scim.Proofs.Descent.Outcome
import Scim.Proofs.Scan.Settled

/-!
# What stands beside parentheses and brackets

* `Beside`              two tokens in a row: behind an opening parenthesis or bracket stands no
                        operator, and before a closing one a token that cannot go on;
* `Framed`              tokens of which all stand beside each other so, and which could stand
                        between parentheses;
* `Chain.Valid.framed`, `Vacant.framed`    the tokens that the grammar derives are framed.
-/

namespace Scim

open Grammar Descent

namespace Phrase

/-- Two tokens in a row, of which one may be a parenthesis or bracket. -/
def Beside (t t' : Token) : Prop :=
  (t'.kind.closes = true → t.IsSettled) ∧ (t.kind.opens = true → t'.IsFresh)

theorem beside_of_plain {t t' : Token} (h : t.kind.opens = false) (h' : t'.kind.closes = false) :
    Beside t t' := by
  constructor
  · intro closes
    rw [h'] at closes
    cases closes
  · intro opens
    rw [h] at opens
    cases opens

/-- Tokens that could stand between parentheses. -/
structure Framed (ts : List Token) : Prop where
  first : ∀ t ∈ ts.head?, t.IsFresh ∧ t.kind.closes = false
  last : ∀ t ∈ ts.getLast?, t.IsSettled ∧ t.kind.opens = false
  inner : ts.IsChain Beside

theorem opens_of_closes {kind : Kind} (h : kind.closes = true) : kind.opens = false := by
  cases kind <;> first | rfl | cases h

theorem closes_of_opens {kind : Kind} (h : kind.opens = true) : kind.closes = false := by
  cases kind <;> first | rfl | cases h

theorem framed_nil : Framed [] := ⟨nofun, nofun, .nil⟩

theorem Framed.enclose {opening closing : Token} {ts : List Token} (h : Framed ts)
    (opens : opening.kind.opens = true) (closes : closing.kind.closes = true) :
    Framed (opening :: (ts ++ [closing])) := by
  obtain ⟨_, wall⟩ := Kind.exists_wall_of_opens opens
  obtain ⟨_, wall', -⟩ := Kind.exists_wall_of_closes closes
  have back : (ts ++ [closing]).IsChain Beside := by
    refine h.inner.append (.singleton closing) ?_
    intro x hx y hy
    obtain rfl := Option.some.inj hy
    obtain ⟨settled, notOpen⟩ := h.last x hx
    exact ⟨fun _ => settled, fun opens => absurd opens (by rw [notOpen]; decide)⟩
  refine ⟨?_, ?_, back.cons ?_⟩
  · intro t ht
    obtain rfl := Option.some.inj ht
    exact ⟨isFresh_of_wall wall, closes_of_opens opens⟩
  · intro t ht
    rw [← List.cons_append, List.getLast?_concat] at ht
    obtain rfl := Option.some.inj ht
    exact ⟨isSettled_of_wall wall', opens_of_closes closes⟩
  · intro y hy
    refine ⟨fun _ => isSettled_of_wall wall, fun _ => ?_⟩
    cases ts with
    | nil =>
      obtain rfl := Option.some.inj hy
      exact isFresh_of_wall wall'
    | cons t ts => exact (h.first y hy).1

theorem Framed.cons {t : Token} {ts : List Token} {kind : Kind} (h : Framed ts) (long : ts ≠ [])
    (isKind : t.kind = kind) (hk : kind = .name ∨ kind = .negation) : Framed (t :: ts) := by
  have plain : t.IsFresh ∧ t.kind.closes = false ∧ t.kind.opens = false := by
    rcases hk with rfl | rfl <;> exact ⟨isFresh_of_kind isKind (by decide), by rw [isKind]; rfl, by
      rw [isKind]; rfl⟩
  refine ⟨?_, ?_, h.inner.cons ?_⟩
  · intro x hx
    obtain rfl := Option.some.inj hx
    exact ⟨plain.1, plain.2.1⟩
  · intro x hx
    refine h.last x ?_
    obtain ⟨t', ts, rfl⟩ := List.exists_cons_of_ne_nil long
    rwa [List.getLast?_cons_cons] at hx
  · intro y hy
    exact beside_of_plain plain.2.2 (h.first y hy).2

theorem Framed.link {ts us : List Token} {link : Token} (h : Framed ts) (h' : Framed us)
    (long : us ≠ []) (first : ts ≠ []) (isLink : link.kind = .logical) :
    Framed (ts ++ link :: us) := by
  have back : (link :: us).IsChain Beside := by
    refine h'.inner.cons ?_
    intro y hy
    exact beside_of_plain (by rw [isLink]; rfl) (h'.first y hy).2
  refine ⟨?_, ?_, h.inner.append back ?_⟩
  · intro t ht
    obtain ⟨t', ts, rfl⟩ := List.exists_cons_of_ne_nil first
    exact h.first t ht
  · intro t ht
    refine h'.last t ?_
    obtain ⟨t', us, rfl⟩ := List.exists_cons_of_ne_nil long
    rwa [List.getLast?_append_cons, List.getLast?_cons_cons] at ht
  · intro x hx y hy
    obtain rfl := Option.some.inj hy
    exact beside_of_plain (h.last x hx).2 (by rw [isLink]; rfl)

mutual

theorem Operand.Valid.framed {place : Place} : {d : Operand} → d.Valid place → Framed d.tokens
  | _, .group opens inner closes =>
    inner.framed.enclose (by rw [opens]; rfl) (by rw [closes]; rfl)
  | _, .negation isWord opens inner closes =>
    (inner.framed.enclose (by rw [opens]; rfl) (by rw [closes]; rfl)).cons (List.cons_ne_nil _ _)
      isWord (.inr rfl)
  | .presence name operator, .presence isName isOperator word => by
    refine ⟨?_, ?_, ?_⟩
    · intro t ht
      obtain rfl := Option.some.inj ht
      exact ⟨isFresh_of_kind isName (by decide), by rw [isName]; rfl⟩
    · intro t ht
      obtain rfl : operator = t := Option.some.inj ht
      exact ⟨.inr (.inr (.inr ⟨isOperator, word⟩)), by rw [isOperator]; rfl⟩
    · have beside : Beside name operator :=
        beside_of_plain (by rw [isName]; rfl) (by rw [isOperator]; rfl)
      exact .cons_cons beside (.singleton operator)
  | .comparison name operator literal _ _, .comparison isName isOperator other word value => by
    have plain : ∀ k ∈ Kind.values, k.closes = false ∧ k.opens = false := by decide
    obtain ⟨notClose, notOpen⟩ := plain literal.kind value.mem_values
    refine ⟨?_, ?_, ?_⟩
    · intro t ht
      obtain rfl := Option.some.inj ht
      exact ⟨isFresh_of_kind isName (by decide), by rw [isName]; rfl⟩
    · intro t ht
      obtain rfl : literal = t := Option.some.inj ht
      exact ⟨.inl value.mem_values, notOpen⟩
    · have beside : Beside name operator :=
        beside_of_plain (by rw [isName]; rfl) (by rw [isOperator]; rfl)
      have beside' : Beside operator literal :=
        beside_of_plain (by rw [isOperator]; rfl) notClose
      exact .cons_cons beside (.cons_cons beside' (.singleton literal))
  | _, .valuePath isName _ opens inner closes =>
    (inner.framed.enclose (by rw [opens]; rfl) (by rw [closes]; rfl)).cons (List.cons_ne_nil _ _)
      isName (.inl rfl)

theorem Links.Valid.framed {place : Place} {ts : List Token} : {l : Links} → l.Valid place →
    Framed ts → ts ≠ [] → Framed (ts ++ l.tokens)
  | _, .nil, here, _ => by
    show Framed (ts ++ [])
    rwa [List.append_nil]
  | .cons link d more, .cons isLink valid more', here, long => by
    have later := more'.framed valid.framed d.tokens_ne_nil
    have some : d.tokens ++ more.tokens ≠ [] := by
      intro none
      exact d.tokens_ne_nil (List.append_eq_nil_iff.mp none).1
    exact here.link later some long isLink

/-- **The tokens of a derivation are framed.** -/
theorem Chain.Valid.framed {place : Place} : {c : Chain} → c.Valid place → Framed c.tokens
  | .mk first _, .mk first' more' => more'.framed first'.framed first.tokens_ne_nil

end

theorem Vacant.framed {ts : List Token} (h : Vacant ts) : Framed ts := by
  induction h with
  | nil => exact framed_nil
  | group opens _ closes inner => exact inner.enclose (by rw [opens]; rfl) (by rw [closes]; rfl)
  | negation isWord opens _ closes inner =>
    exact (inner.enclose (by rw [opens]; rfl) (by rw [closes]; rfl)).cons (List.cons_ne_nil _ _)
      isWord (.inr rfl)

theorem framed_of_derived {place : Place} {node : Option Node} {ts : List Token}
    (h : Derived place node ts) : Framed ts := by
  cases node with
  | none => exact Vacant.framed h
  | some n =>
    obtain ⟨c, valid, -, rfl⟩ := h
    exact valid.framed

end Phrase

end Scim
