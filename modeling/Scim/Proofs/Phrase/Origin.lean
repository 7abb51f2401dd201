import Scim.Proofs.Phrase.Spot

/-!
# Where comparisons come from

Every comparison of a tree is read off one comparison operator among the tokens, and their orders
are the same.

* `Stands`              a comparison is read off the tokens around its operator, and its attribute
                        is put below the name of the brackets around them;
* `Scope`               what stands before and after some tokens, and the name of the brackets
                        around them;
* `Chain.Valid.stands`  the comparisons of the tree of a derivation stand on the operators among
                        its tokens.
-/

namespace Scim

open Grammar

namespace Phrase

/-- The comparison `c` is read off the tokens around an operator. -/
structure Stands (c : Comparison) (s : Spot) : Prop where
  operator : wordOf s.token = c.operator.word.toList
  value : (c.operator = .pr ∧ c.value = .null) ∨
    c.operator ≠ .pr ∧ ∃ literal rest, s.after = literal :: rest ∧
      literal.kind ∈ Kind.values ∧ Grammar.value literal = .ok c.value
  path : ∃ front name, s.before = front ++ [name] ∧ name.kind = .name ∧
    (∀ outer, s.Within outer → c.path = (pathOf outer).under (pathOf name)) ∧
    ((∀ outer, ¬ s.Within outer) → c.path = pathOf name)

/-! ## Scopes -/

/-- The tokens between `before` and `after` stand at a place; inside brackets these are behind the
name `outer`. -/
inductive Scope : Place → (outer : Option Token) → (before after : List Token) → Prop where
  | top {before after : List Token} : Shut before → Scope .filter none before after
  | inside {front us vs more : List Token} {name opening closing : Token} :
      Shut (front ++ [name]) → opening.kind = .openBracket → Unbracketed us → Unbracketed vs →
      closing.kind = .closeBracket →
      Scope .brackets (some name) (front ++ name :: opening :: us) (vs ++ closing :: more)

/-- A comparison as the tree holds it below the name of the brackets around it. -/
def inside : (outer : Option Token) → Comparison → Comparison
  | none, c => c
  | some outer, c => c.under (pathOf outer)

variable {place : Place} {outer : Option Token} {before after : List Token}

theorem Scope.pass {ts : List Token} (h : Scope place outer before (ts ++ after)) (shut : Shut ts)
    (free : place = .brackets → Unbracketed ts) : Scope place outer (before ++ ts) after := by
  generalize behind : ts ++ after = after' at h
  cases h with
  | top front => exact .top (front.append shut)
  | @inside front us vs more name opening closing front' opens left right closes =>
    have plain := free rfl
    rcases List.append_eq_append_iff.mp behind with ⟨a, rfl, rfl⟩ | ⟨a, rfl, rest⟩
    · have later : Unbracketed a := fun t ht => right t (List.mem_append_right ts ht)
      have scope : Scope .brackets (some name) (front ++ name :: opening :: (us ++ ts))
          (a ++ closing :: more) := .inside front' opens (left.append plain) later closes
      simpa using scope
    · cases a with
      | nil =>
        obtain rfl : after = closing :: more := rest.symm
        have scope : Scope .brackets (some name) (front ++ name :: opening :: (us ++ (vs ++ [])))
            ([] ++ closing :: more) :=
          .inside front' opens (left.append plain) unbracketed_nil closes
        simpa using scope
      | cons t a =>
        -- the closing bracket is not among the tokens
        obtain ⟨rfl, -⟩ := List.cons.inj rest
        exact absurd closes (plain closing (by simp)).2

theorem Scope.pass_one {t : Token} {kind : Kind} (h : Scope place outer before (t :: after))
    (isKind : t.kind = kind) (hk : kind ≠ .openBracket ∧ kind ≠ .closeBracket) :
    Scope place outer (before ++ [t]) after := by
  have plain := Unbracketed.cons isKind hk unbracketed_nil
  have scope : Scope place outer before ([t] ++ after) := h
  exact scope.pass plain.shut fun _ => plain

theorem Operand.Valid.pass {d : Operand} (h : d.Valid place)
    (scope : Scope place outer before (d.tokens ++ after)) :
    Scope place outer (before ++ d.tokens) after := by
  cases place with
  | filter => exact scope.pass h.shut nofun
  | brackets => exact scope.pass h.unbracketed.shut fun _ => h.unbracketed

theorem Scope.within_iff {t : Token} {kind : Kind} {name : Token}
    (h : Scope place outer before (t :: after)) (isKind : t.kind = kind)
    (hk : kind ≠ .openBracket ∧ kind ≠ .closeBracket) :
    Spot.Within name ⟨before, t, after⟩ ↔ outer = some name := by
  generalize behind : t :: after = after' at h
  cases h with
  | top front => exact iff_of_false (not_within_of_shut front name) nofun
  | @inside front us vs more name' opening closing front' opens left right closes =>
    cases vs with
    | nil =>
      obtain ⟨rfl, -⟩ := List.cons.inj behind
      exact absurd (isKind.symm.trans closes) hk.2
    | cons t' vs =>
      obtain ⟨rfl, rfl⟩ := List.cons.inj behind
      have found : Spot.Within name ⟨front ++ name' :: opening :: us, t, vs ++ closing :: more⟩ ↔
          name = name' := Phrase.within_iff front' opens (left.append right) closes
      exact found.trans ⟨fun same => congrArg some same.symm, fun same => Option.some.inj same.symm⟩

/-! ## Operands and chains -/

theorem stands_inside {name operator : Token} {o : Operator} {v : Value}
    (scope : Scope place outer before (name :: operator :: after)) (isName : name.kind = .name)
    (isOperator : operator.kind = .comparison) (word : wordOf operator = o.word.toList)
    (value : (o = .pr ∧ v = .null) ∨ o ≠ .pr ∧ ∃ literal rest, after = literal :: rest ∧
      literal.kind ∈ Kind.values ∧ Grammar.value literal = .ok v) :
    Stands (inside outer ⟨pathOf name, o, v⟩) ⟨before ++ [name], operator, after⟩ := by
  have passed := scope.pass_one isName (by decide)
  have within (n : Token) : Spot.Within n ⟨before ++ [name], operator, after⟩ ↔ outer = some n :=
    passed.within_iff isOperator (by decide)
  cases outer with
  | none =>
    refine ⟨word, value, before, name, rfl, isName, ?_, fun _ => rfl⟩
    intro n around
    cases (within n).mp around
  | some n =>
    refine ⟨word, value, before, name, rfl, isName, ?_, ?_⟩
    · intro n' around
      obtain rfl := Option.some.inj ((within n').mp around)
      rfl
    · intro nowhere
      exact absurd ((within n).mpr rfl) (nowhere n)

mutual

theorem Operand.Valid.stands {place : Place} {outer : Option Token} {before after : List Token} :
    {d : Operand} → d.Valid place → Scope place outer before (d.tokens ++ after) →
      List.Forall₂ Stands (d.tree.comparisons.map (inside outer))
        (operatorSpots before after d.tokens)
  | .group opening inner closing, .group opens valid closes, scope => by
    have passed : Scope place outer (before ++ [opening]) (inner.tokens ++ closing :: after) := by
      simpa using scope.pass_one opens (by decide)
    have found := valid.stands passed
    rw [Operand.tokens, operatorSpots_enclosed opens closes (by decide) (by decide)]
    exact found
  | .negation word opening inner closing, .negation isWord opens valid closes, scope => by
    have passed : Scope place outer (before ++ [word] ++ [opening])
        (inner.tokens ++ closing :: after) := by
      simpa [Operand.tokens] using
        (scope.pass_one isWord (by decide)).pass_one opens (by decide)
    have found := valid.stands passed
    rw [Operand.tokens, operatorSpots_other isWord (by decide),
      operatorSpots_enclosed opens closes (by decide) (by decide)]
    exact found
  | .presence name operator, .presence isName isOperator word, scope => by
    have stands := stands_inside scope isName isOperator word (.inl ⟨rfl, rfl⟩)
    rw [Operand.tokens, operatorSpots_other isName (by decide), operatorSpots_operator isOperator]
    exact .cons stands .nil
  | .comparison name operator literal o v, .comparison isName isOperator other word value,
      scope => by
    have read := (value_eq_ok_iff value.mem_values).mpr value
    have plain : literal.kind ≠ .comparison := by
      have values : ∀ k ∈ Kind.values, k ≠ .comparison := by decide
      exact values literal.kind value.mem_values
    have stands := stands_inside scope isName isOperator word
      (.inr ⟨other, literal, after, rfl, value.mem_values, read⟩)
    rw [Operand.tokens, operatorSpots_other isName (by decide), operatorSpots_operator isOperator,
      operatorSpots_other rfl plain]
    exact .cons stands .nil
  | .valuePath name opening inner closing, .valuePath isName single opens valid closes, scope => by
    cases scope with
    | top front =>
      have named := (Unbracketed.cons isName (by decide) unbracketed_nil).shut
      have scope : Scope .brackets (some name) (before ++ [name] ++ [opening])
          (inner.tokens ++ (closing :: after)) := by
        have whole : Scope .brackets (some name) (before ++ name :: opening :: [])
            (inner.tokens ++ (closing :: after)) :=
          .inside (front.append named) opens unbracketed_nil valid.unbracketed closes
        simpa using whole
      have found := valid.stands scope
      have same : (Operand.valuePath name opening inner closing).tree.comparisons =
          inner.tree.comparisons.map (inside (some name)) :=
        Node.comparisons_under (pathOf name) inner.tree valid.plain_tree
      rw [Operand.tokens, operatorSpots_other isName (by decide),
        operatorSpots_enclosed opens closes (by decide) (by decide), same, List.map_map]
      exact found

theorem Links.Valid.stands {place : Place} {outer : Option Token} {before after : List Token} :
    {l : Links} → l.Valid place → Scope place outer before (l.tokens ++ after) →
      List.Forall₂ Stands
        (((l.trees.map Prod.snd).flatMap Node.comparisons).map (inside outer))
        (operatorSpots before after l.tokens)
  | _, .nil, _ => .nil
  | .cons link operand more, .cons isLink operand' more', scope => by
    have passed := scope.pass_one isLink (by decide)
    change Scope place outer _ (operand.tokens ++ more.tokens ++ after) at passed
    rw [List.append_assoc] at passed
    have here := operand'.stands passed
    have later := more'.stands (operand'.pass passed)
    rw [Links.tokens, operatorSpots_other isLink (by decide), operatorSpots_append]
    show List.Forall₂ Stands ((operand.tree.comparisons ++ _).map (inside outer)) _
    rw [List.map_append]
    exact List.rel_append here later

/-- **The comparisons of the tree of a derivation stand on the operators** among its tokens. -/
theorem Chain.Valid.stands {place : Place} {outer : Option Token} {before after : List Token} :
    {c : Chain} → c.Valid place → Scope place outer before (c.tokens ++ after) →
      List.Forall₂ Stands (c.tree.comparisons.map (inside outer))
        (operatorSpots before after c.tokens)
  | .mk first more, .mk first' more', scope => by
    change Scope place outer before (first.tokens ++ more.tokens ++ after) at scope
    rw [List.append_assoc] at scope
    have here := first'.stands scope
    have later := more'.stands (first'.pass scope)
    have parts := Node.additive_comparisons.chained first.tree more.trees
    show List.Forall₂ Stands ((Node.chained first.tree more.trees).comparisons.map _)
      (operatorSpots before after (first.tokens ++ more.tokens))
    rw [parts, List.map_append, operatorSpots_append]
    exact List.rel_append here later

end

theorem Vacant.kind_ne_comparison {ts : List Token} (h : Vacant ts) :
    ∀ t ∈ ts, t.kind ≠ .comparison := by
  induction h with
  | nil => nofun
  | group opens _ closes inner =>
    intro t ht
    simp only [List.mem_cons, List.mem_append, List.not_mem_nil, or_false] at ht
    rcases ht with rfl | ht | rfl
    · simp [opens]
    · exact inner t ht
    · simp [closes]
  | negation isWord opens _ closes inner =>
    intro t ht
    simp only [List.mem_cons, List.mem_append, List.not_mem_nil, or_false] at ht
    rcases ht with rfl | rfl | ht | rfl
    · simp [isWord]
    · simp [opens]
    · exact inner t ht
    · simp [closes]

end Phrase

end Scim
