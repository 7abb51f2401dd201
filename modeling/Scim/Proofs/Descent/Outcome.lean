import Scim.Proofs.Descent.Failure
import Scim.Proofs.Phrase.Balance
import Scim.Proofs.Scan.Slice

/-!
# What the descent returns

What a reader returns is derived by the grammar from the tokens that it reads, and its failures are
those that are allowed.

* `Derived`               the tokens of a tree, or of no filter;
* `meets_group`           a group;
* `meets_expression`      an expression within a budget;
* `meets_filterWithin`    a filter, and `meets_pathWithin` a path.
-/

namespace Scim

open Grammar Phrase

namespace Descent

/-! ## What is derived -/

/-- The tokens of a tree, or of no filter. -/
def Derived (place : Place) : Option Node → List Token → Prop
  | none, ts => Vacant ts
  | some n, ts => ∃ c : Chain, c.Valid place ∧ c.tree = n ∧ c.tokens = ts

/-- The tokens of an operand, or of an empty group. -/
def DerivedOperand (place : Place) : Option Node → List Token → Prop
  | none, ts => Vacant ts
  | some n, ts => ∃ d : Operand, d.Valid place ∧ d.tree = n ∧ d.tokens = ts

/-- A group with contents of a kind, and the tokens behind it. -/
inductive Grouped (contents : List Token → Prop) (rest : List Token) : List Token → Prop where
  | mk {opening closing : Token} {inner : List Token} :
      opening.kind = .openParen → closing.kind = .closeParen → contents inner →
      Grouped contents rest (opening :: (inner ++ closing :: rest))

variable {whole ts : List Token} {stop last : Int} {place : Place} {few : Prop}

/-! ## Comparisons -/

theorem meets_valid {α : Type} (x : Except Invalid α) :
    Meets (valid x) (fun a => x = .ok a) (Allowed whole stop (fun e => x = .error e) few) := by
  cases x with
  | ok a => exact rfl
  | error e => exact .invalid rfl

theorem meets_comparison {name : Token} (isName : name.kind = .name) (part : ts <:+: whole)
    (ends : Ends whole stop last) :
    Meets (comparison (pathOf name) last ts)
      (fun r => ∃ d : Operand, d.Valid place ∧ d.tree = r.1 ∧ name :: ts = d.tokens ++ r.2)
      (Allowed whole stop (Breaks place (name :: ts)) few) := by
  unfold comparison
  refine meets_take_bind part ends ?_
  rintro operator rest rfl isOperator part
  dsimp only
  split
  · next word =>
    rcases make_cases (pathOf name) operator .null with ⟨o, same, made⟩ | ⟨unknown, -⟩
    · have presence : o = .pr :=
        Operator.word_injective (same.symm.trans (word.trans Operator.toList_word_pr.symm))
      rw [made, presence]
      rw [presence] at same
      exact ⟨.presence name operator, .presence isName isOperator same, rfl, rfl⟩
    · exact absurd (word.trans Operator.toList_word_pr.symm) (unknown .pr)
  · next word =>
    refine (meets_take Kind.values part ends).bind Misplaced.lift ?_
    rintro ⟨literal, rest⟩ ⟨rfl, known⟩
    dsimp only
    have conversion : Meets (valid (value literal)) (fun v => value literal = .ok v)
        (Allowed whole stop (fun e => value literal = .error e) few) := meets_valid _
    refine conversion.bind (Allowed.lift ?_ id) ?_
    · intro e failed
      obtain ⟨long, rfl⟩ := value_eq_error_iff.mp failed
      exact .longNumber isName isOperator (by rwa [Operator.toList_word_pr]) long
    · intro v read
      have meaning := (value_eq_ok_iff known).mp read
      rcases make_cases (pathOf name) operator v with ⟨o, same, made⟩ | ⟨unknown, made⟩
      · have other : o ≠ .pr := by
          rintro rfl
          exact word (same.trans Operator.toList_word_pr)
        rw [made]
        exact ⟨.comparison name operator literal o v,
          .comparison isName isOperator other same meaning, rfl, rfl⟩
      · rw [made]
        exact .invalid (.unknownOperator isName isOperator unknown meaning)

/-! ## Groups and brackets -/

/-- What reads expressions within a budget keeps to the grammar. -/
def Keeps (whole : List Token) (stop : Int) (budget : Nat)
    (read : Place → Reader (Option Node)) : Prop :=
  ∀ place last ts, ts <:+: whole → Ends whole stop last →
    Meets (read place last ts) (fun r => ∃ used, ts = used ++ r.2 ∧ Derived place r.1 used)
      (Allowed whole stop (Breaks place ts) (budget < nesting ts))

/-- What reads the contents of groups and brackets within a budget keeps to the grammar. -/
def KeepsInner (whole : List Token) (stop : Int) (budget : Nat) : Inner → Prop
  | none => budget = 0
  | some read => ∃ less, budget = less + 1 ∧ Keeps whole stop less read

theorem meets_descend_bind {α : Type} {budget : Nat} {inner : Inner}
    (keeps : KeepsInner whole stop budget inner)
    {f : (Place → Reader (Option Node)) → Except Failed α} {wanted : α → Prop}
    {breaks : Invalid → Prop} (none : budget = 0 → few)
    (next : ∀ less read, budget = less + 1 → Keeps whole stop less read →
      Meets (f read) wanted (Allowed whole stop breaks few)) :
    Meets (descend inner >>= f) wanted (Allowed whole stop breaks few) := by
  cases inner with
  | none => exact .exhausted (none keeps)
  | some read =>
    obtain ⟨less, same, kept⟩ := keeps
    exact next less read same kept

theorem meets_toEnd {α β : Type} {x : Except Failed (α × List Token)}
    {derived : α → List Token → Prop} {f : α → β} {wanted : β → Prop} {breaks : Invalid → Prop}
    (read : Meets x (fun r => ∃ used, ts = used ++ r.2 ∧ derived r.1 used)
      (Allowed whole stop breaks few))
    (part : ts <:+: whole) (ends : Ends whole stop last)
    (result : ∀ a, derived a ts → wanted (f a)) :
    Meets (x >>= fun r => expectEnd last r.2 >>= fun _ => pure (f r.1)) wanted
      (Allowed whole stop breaks few) := by
  refine read.bind (fun _ => id) ?_
  rintro ⟨a, rest⟩ ⟨used, rfl, found⟩
  have behind : rest <:+: whole := (List.suffix_append used rest).isInfix.trans part
  refine (meets_expectEnd behind ends).bind Misplaced.lift ?_
  rintro - rfl
  rw [List.append_nil] at result
  exact result a found

theorem meets_contents {less : Nat} {read : Place → Reader (Option Node)}
    (keeps : Keeps whole stop less read) (part : ts <:+: whole)
    (ends : ∀ t, ts.getLast? = some t → Ends whole stop t.stop) :
    Meets (contents read place ts) (fun node => Derived place node ts)
      (Allowed whole stop (Breaks place ts) (less < nesting ts)) := by
  unfold contents
  cases hl : ts.getLast? with
  | none =>
    obtain rfl := List.getLast?_eq_none_iff.mp hl
    exact Vacant.nil
  | some t =>
    have read := keeps place t.stop ts part (ends t hl)
    exact meets_toEnd (f := id) read part (ends t hl) fun _ => id

theorem meets_group {budget : Nat} {inner : Inner} (keeps : KeepsInner whole stop budget inner)
    (part : ts <:+: whole) (ends : Ends whole stop last) :
    Meets (group inner place last ts)
      (fun r => Grouped (Derived place r.1) r.2 ts)
      (Allowed whole stop
        (fun e => ∃ rest, Grouped (fun us => Matched us ∧ Breaks place us e) rest ts)
        (budget < nesting ts)) := by
  unfold group
  refine meets_take_bind part ends ?_
  rintro opening rest rfl opens part
  have deeper : opening.kind.opens = true := by
    rw [opens]
    rfl
  refine meets_descend_bind keeps ?_ ?_
  · rintro rfl
    rw [nesting_cons_of_opens deeper]
    exact Nat.succ_pos _
  rintro less read rfl kept
  obtain ⟨after, split, -⟩ := Cursor.runUntil_append .closeParen (some .openParen) 0 rest
  have behind : rest.drop (enclosed rest).length = after := Cursor.drop_length_runUntil split
  change rest = enclosed rest ++ after at split
  rw [behind]
  have afterPart : after <:+: whole := by
    rw [split] at part
    exact (List.suffix_append _ _).isInfix.trans part
  refine meets_take_bind afterPart ends ?_
  rintro closing more rfl closes -
  have inside := matched_enclosed split
  generalize enclosed rest = us at split inside
  subst split
  have stops : ∀ t, us.getLast? = some t → Ends whole stop t.stop :=
    fun t hl => ends_of_getLast part hl closes
  refine (meets_contents kept ((List.prefix_append _ _).isInfix.trans part) stops).bind
    (Allowed.lift ?_ ?_) ?_
  · intro e broken
    exact ⟨more, .mk opens closes ⟨inside, broken⟩⟩
  · intro short
    exact Nat.lt_of_le_of_lt short (nesting_lt_of_opens deeper us (closing :: more))
  · intro node derived
    exact .mk opens closes derived

theorem meets_negation {budget : Nat} {inner : Inner} (keeps : KeepsInner whole stop budget inner)
    (part : ts <:+: whole) (ends : Ends whole stop last) :
    Meets (negation inner place last ts)
      (fun r => ∃ used, ts = used ++ r.2 ∧ DerivedOperand place r.1 used)
      (Allowed whole stop (Breaks place ts) (budget < nesting ts)) := by
  unfold negation
  refine meets_take_bind part ends ?_
  rintro word rest rfl isWord part
  refine (meets_group keeps part ends).bind (Allowed.lift ?_ ?_) ?_
  · rintro e ⟨more, opens, closes, inside, broken⟩
    exact .negation isWord opens inside closes broken
  · rw [nesting_cons_of_kind isWord (by decide)]
    exact id
  · rintro ⟨node, more⟩ ⟨opens, closes, derived⟩
    cases node with
    | none => exact ⟨_, by simp, Vacant.negation isWord opens derived closes⟩
    | some n =>
      obtain ⟨c, valid, rfl, rfl⟩ := derived
      exact ⟨_, by simp [Operand.tokens], .negation _ _ c _,
        .negation isWord opens valid closes, rfl, rfl⟩

theorem Grouped.operand {node : Option Node} {rest : List Token}
    (h : Grouped (Derived place node) rest ts) :
    ∃ used, ts = used ++ rest ∧ DerivedOperand place node used := by
  obtain ⟨opens, closes, derived⟩ := h
  cases node with
  | none => exact ⟨_, by simp, Vacant.group opens derived closes⟩
  | some n =>
    obtain ⟨c, valid, rfl, rfl⟩ := derived
    exact ⟨_, by simp [Operand.tokens], .group _ c _, .group opens valid closes, rfl, rfl⟩

/-- Brackets around a chain, below an attribute, and the tokens behind them. -/
inductive Bracketed (path : AttributePath) (rest : List Token) : Node → List Token → Prop where
  | mk {opening closing : Token} {inner : Chain} :
      opening.kind = .openBracket → inner.Valid .brackets → closing.kind = .closeBracket →
      Bracketed path rest (inner.tree.under path) (opening :: (inner.tokens ++ closing :: rest))

theorem meets_bracketed {budget : Nat} {inner : Inner} (keeps : KeepsInner whole stop budget inner)
    (path : AttributePath) (part : ts <:+: whole) (ends : Ends whole stop last) :
    Meets (bracketed inner path last ts)
      (fun r => Bracketed path r.2 r.1 ts)
      (Allowed whole stop
        (fun e => ∃ opening us, opening.kind = .openBracket ∧ ts = opening :: us ∧
          Breaks .brackets us e)
        (budget < nesting ts)) := by
  unfold bracketed
  refine meets_take_bind part ends ?_
  rintro opening rest rfl opens restPart
  have deeper : opening.kind.opens = true := by
    rw [opens]
    rfl
  refine meets_descend_bind keeps ?_ ?_
  · rintro rfl
    rw [nesting_cons_of_opens deeper]
    exact Nat.succ_pos _
  rintro less read rfl kept
  refine (kept .brackets last rest restPart ends).bind (Allowed.lift ?_ ?_) ?_
  · intro e broken
    exact ⟨opening, rest, opens, rfl, broken⟩
  · intro short
    rw [nesting_cons_of_opens deeper]
    exact Nat.succ_lt_succ short
  rintro ⟨node, more⟩ ⟨used, rfl, derived⟩
  have empty : Misplaced whole stop (faultAt (.emptyValuePath path.fullName) opening) :=
    .fault (located_of_mem (part.subset (List.mem_cons_self ..)) nofun)
  cases node with
  | none => exact Misplaced.lift _ empty
  | some n =>
    obtain ⟨c, valid, rfl, rfl⟩ := derived
    have plain := valid.plain_tree
    obtain ⟨tree, clear⟩ := Node.qualify_eq path c.tree plain
    dsimp only
    rw [Option.filter_some, if_pos plain.isCondition]
    have behind : more <:+: whole := (List.suffix_append _ _).isInfix.trans restPart
    refine meets_take_bind behind ends ?_
    rintro closing after rfl closes -
    dsimp only
    rw [clear, tree]
    exact .mk opens valid closes

/-! ## Operands -/

theorem within_eq {path : AttributePath} (h : path.names.length = 1) (n : Node)
    (sub : Option String) : Node.within path n sub = .ok (.valuePath path n sub) := if_pos h

theorem meets_condition {budget : Nat} {inner : Inner} (keeps : KeepsInner whole stop budget inner)
    (part : ts <:+: whole) (ends : Ends whole stop last) :
    Meets (condition inner place last ts)
      (fun r => ∃ used, ts = used ++ r.2 ∧ DerivedOperand place r.1 used)
      (Allowed whole stop (Breaks place ts) (budget < nesting ts)) := by
  unfold condition
  refine meets_take_bind part ends ?_
  rintro name rest rfl isName restPart
  have refused {cause : Cause} (grammatical : cause ≠ .strayCharacter) :
      Misplaced whole stop (faultAt cause name) :=
    .fault (located_of_mem (part.subset (List.mem_cons_self ..)) grammatical)
  dsimp only
  rw [ofText_pathOf]
  show Meets (ite _ _ _) _ _
  split
  · split
    · exact Misplaced.lift _ (refused nofun)
    · next top =>
      split
      · exact Misplaced.lift _ (refused nofun)
      · next single =>
        have single : (pathOf name).names.length = 1 := Decidable.not_not.mp single
        obtain rfl : place = .filter := by
          cases place with
          | filter => rfl
          | brackets => exact absurd rfl top
        refine (meets_bracketed keeps (pathOf name) restPart ends).bind (Allowed.lift ?_ ?_) ?_
        · rintro e ⟨opening, us, opens, rfl, broken⟩
          exact .valuePath isName single opens broken
        · rw [nesting_cons_of_kind isName (by decide)]
          exact id
        · rintro ⟨filter, more⟩ ⟨opens, valid, closes⟩
          dsimp only
          rw [within_eq single]
          exact ⟨_, by simp [Operand.tokens], .valuePath _ _ _ _,
            .valuePath isName single opens valid closes, rfl, rfl⟩
  · refine (meets_comparison isName restPart ends).bind (fun _ => id) ?_
    rintro ⟨node, more⟩ ⟨d, valid, rfl, same⟩
    exact ⟨d.tokens, same, d, valid, rfl, rfl⟩

theorem meets_operand {budget : Nat} {inner : Inner} (keeps : KeepsInner whole stop budget inner)
    (part : ts <:+: whole) (ends : Ends whole stop last) :
    Meets (operand inner place last ts)
      (fun r => ∃ used, ts = used ++ r.2 ∧ DerivedOperand place r.1 used)
      (Allowed whole stop (Breaks place ts) (budget < nesting ts)) := by
  have refused : Misplaced whole stop (missing (missingOperand place) last ts) :=
    misplaced_missing (by cases place <;> nofun) part ends
  unfold operand
  cases ts.head?.map Token.kind with
  | none => exact Misplaced.lift _ refused
  | some kind =>
    cases kind with
    | openParen =>
      refine (meets_group keeps part ends).mono (Allowed.lift ?_ id) fun r => Grouped.operand
      rintro e ⟨rest, opens, closes, inside, broken⟩
      exact .group opens inside closes broken
    | negation => exact meets_negation keeps part ends
    | name => exact meets_condition keeps part ends
    | _ => exact Misplaced.lift _ refused

/-! ## Chains -/

theorem meets_moreOperands {budget : Nat} {inner : Inner}
    (keeps : KeepsInner whole stop budget inner) (n : Nat) (part : ts <:+: whole)
    (ends : Ends whole stop last) :
    Meets (moreOperands (operand inner place) n last ts)
      (fun r => ∃ l : Links, l.Valid place ∧ l.trees = r.1 ∧ ts = l.tokens ++ r.2)
      (Allowed whole stop
        (fun e => ∀ before : Operand, before.Valid place → Breaks place (before.tokens ++ ts) e)
        (budget < nesting ts)) := by
  induction n generalizing ts with
  | zero => exact ⟨.nil, .nil, rfl, rfl⟩
  | succ n ih =>
    unfold moreOperands
    split
    · refine meets_take_bind part ends ?_
      rintro link rest rfl isLink restPart
      refine (meets_operand keeps restPart ends).bind (Allowed.lift ?_ ?_) ?_
      · intro e broken before valid
        exact .later valid isLink broken
      · rw [nesting_cons_of_kind isLink (by decide)]
        exact id
      rintro ⟨node, more⟩ ⟨used, rfl, derived⟩
      have empty : Misplaced whole stop (faultAt .emptyOperand link) :=
        .fault (located_of_mem (part.subset (List.mem_cons_self ..)) nofun)
      cases node with
      | none => exact Misplaced.lift _ empty
      | some n =>
        obtain ⟨d, valid, rfl, rfl⟩ := derived
        have behind : more <:+: whole := (List.suffix_append _ _).isInfix.trans restPart
        refine (ih behind).bind (Allowed.lift ?_ ?_) ?_
        · intro e broken before validBefore
          exact .later validBefore isLink (broken d valid)
        · intro short
          rw [nesting_cons_of_kind isLink (by decide)]
          exact Nat.lt_of_lt_of_le short (valid.balanced.nesting_le more)
        · rintro ⟨trees, after⟩ ⟨l, links, rfl, rfl⟩
          refine ⟨.cons link d l, .cons isLink valid links, rfl, ?_⟩
          simp [Links.tokens]
    · exact ⟨.nil, .nil, rfl, rfl⟩

theorem meets_expressionOver {budget : Nat} {inner : Inner}
    (keeps : KeepsInner whole stop budget inner) (part : ts <:+: whole)
    (ends : Ends whole stop last) :
    Meets (expressionOver inner place last ts)
      (fun r => ∃ used, ts = used ++ r.2 ∧ Derived place r.1 used)
      (Allowed whole stop (Breaks place ts) (budget < nesting ts)) := by
  unfold expressionOver
  refine (meets_operand keeps part ends).bind (fun _ => id) ?_
  rintro ⟨first, rest⟩ ⟨used, rfl, derived⟩
  cases first with
  | none => exact ⟨used, rfl, derived⟩
  | some n =>
    obtain ⟨d, valid, rfl, rfl⟩ := derived
    have behind : rest <:+: whole := (List.suffix_append _ _).isInfix.trans part
    refine (meets_moreOperands keeps rest.length behind ends).bind (Allowed.lift ?_ ?_) ?_
    · intro e broken
      exact broken d valid
    · intro short
      exact Nat.lt_of_lt_of_le short (valid.balanced.nesting_le rest)
    · rintro ⟨trees, after⟩ ⟨l, links, rfl, rfl⟩
      have derivation : ∃ used, d.tokens ++ (l.tokens ++ after) = used ++ after ∧
          Derived place (some (Chain.mk d l).tree) used :=
        ⟨_, (List.append_assoc ..).symm, .mk d l, .mk valid links, rfl, rfl⟩
      cases l with
      | nil => exact derivation
      | cons link operand more =>
        show Meets ((assemble d.tree (Links.cons link operand more).trees).bind _) _ _
        rw [assemble_trees]
        exact derivation

theorem keeps_nested (whole : List Token) (stop : Int) (budget : Nat) :
    KeepsInner whole stop budget (nested budget) := by
  induction budget with
  | zero => exact rfl
  | succ budget ih =>
    refine ⟨budget, rfl, ?_⟩
    intro place last ts part ends
    rw [expression_eq]
    exact meets_expressionOver ih part ends

/-- **An expression** is derived by the grammar, or fails as allowed. -/
theorem meets_expression (budget : Nat) (part : ts <:+: whole) (ends : Ends whole stop last) :
    Meets (expression budget place last ts)
      (fun r => ∃ used, ts = used ++ r.2 ∧ Derived place r.1 used)
      (Allowed whole stop (Breaks place ts) (budget < nesting ts)) := by
  rw [expression_eq]
  exact meets_expressionOver (keeps_nested whole stop budget) part ends

/-! ## Filters and paths -/

/-- **A filter** is derived by the grammar, or fails as allowed. -/
theorem meets_filterWithin (budget : Nat) (stop : Int) (ts : List Token) :
    Meets (filterWithin budget stop ts) (fun node => Derived .filter node ts)
      (Allowed ts stop (Breaks .filter ts) (budget < nesting ts)) := by
  unfold filterWithin
  split
  · next none =>
    obtain rfl := List.isEmpty_iff.mp none
    exact Vacant.nil
  · have part := List.infix_refl ts
    exact meets_toEnd (f := id) (meets_expression budget part .whole) part .whole fun _ => id

/-- The sub-attribute behind the brackets, or none. -/
inductive SubAttribute : Option String → List Token → Prop where
  | none : SubAttribute none []
  | some {t : Token} : t.kind = .subAttribute →
      SubAttribute (some (String.ofList (t.text.drop 1))) [t]

/-- The tokens of the target of a path. -/
inductive DerivedTarget : Node → List Token → Prop where
  | simple {name : Token} : name.kind = .name → DerivedTarget (.path (pathOf name)) [name]
  | valuePath {name : Token} {n : Node} {sub : Option String} {ts behind : List Token} :
      name.kind = .name → (pathOf name).names.length = 1 → Bracketed (pathOf name) behind n ts →
      SubAttribute sub behind → DerivedTarget (.valuePath (pathOf name) n sub) (name :: ts)

/-- The tokens of a path, or no tokens. -/
def DerivedPath : Option Node → List Token → Prop
  | none, ts => ts = []
  | some n, ts => DerivedTarget n ts

/-- The tokens of a path start with an attribute and a bracket, and those behind it follow the
grammar up to a comparison that the tree cannot hold. -/
inductive PathBreaks : List Token → Invalid → Prop where
  | brackets {name opening : Token} {inner : List Token} {e : Invalid} :
      name.kind = .name → (pathOf name).names.length = 1 → opening.kind = .openBracket →
      Breaks .brackets inner e → PathBreaks (name :: opening :: inner) e

theorem Bracketed.append {path : AttributePath} {rest more : List Token} {n : Node}
    (h : Bracketed path (rest ++ more) n ts) :
    ∃ used, ts = used ++ more ∧ Bracketed path rest n used := by
  obtain ⟨opens, valid, closes⟩ := h
  exact ⟨_, by simp, .mk opens valid closes⟩

theorem meets_subAttribute (part : ts <:+: whole) (ends : Ends whole stop last) :
    Meets (subAttribute last ts) (fun r => ∃ used, ts = used ++ r.2 ∧ SubAttribute r.1 used)
      (Misplaced whole stop) := by
  unfold subAttribute
  split
  · refine meets_take_bind part ends ?_
    rintro t rest rfl isSub -
    exact ⟨[t], rfl, .some isSub⟩
  · exact ⟨[], rfl, .none⟩

theorem meets_target (budget : Nat) (part : ts <:+: whole) (ends : Ends whole stop last) :
    Meets (target budget last ts) (fun r => ∃ used, ts = used ++ r.2 ∧ DerivedTarget r.1 used)
      (Allowed whole stop (PathBreaks ts) (budget < nesting ts)) := by
  unfold target
  refine meets_take_bind part ends ?_
  rintro name rest rfl isName restPart
  have refused : Misplaced whole stop (faultAt .deepValuePath name) :=
    .fault (located_of_mem (part.subset (List.mem_cons_self ..)) nofun)
  dsimp only
  rw [ofText_pathOf]
  show Meets (ite _ _ _) _ _
  split
  · split
    · exact Misplaced.lift _ refused
    · next many =>
      have single : (pathOf name).names.length = 1 := Decidable.not_not.mp many
      have keeps := keeps_nested whole stop budget
      refine (meets_bracketed keeps (pathOf name) restPart ends).bind (Allowed.lift ?_ ?_) ?_
      · rintro e ⟨opening, us, opens, rfl, broken⟩
        exact .brackets isName single opens broken
      · rw [nesting_cons_of_kind isName (by decide)]
        exact id
      rintro ⟨filter, more⟩ brackets
      have behind : more <:+: whole := by
        obtain ⟨used, rfl, -⟩ :=
          (show Bracketed (pathOf name) ([] ++ more) filter rest from brackets).append
        exact (List.suffix_append _ _).isInfix.trans restPart
      refine (meets_subAttribute behind ends).bind Misplaced.lift ?_
      rintro ⟨sub, after⟩ ⟨used, rfl, found⟩
      obtain ⟨inside, rfl, derived⟩ := brackets.append
      dsimp only
      rw [within_eq single]
      exact ⟨name :: inside, rfl, .valuePath isName single derived found⟩
  · exact ⟨[name], rfl, .simple isName⟩

/-- **A path** is derived by its grammar, or fails as allowed. -/
theorem meets_pathWithin (budget : Nat) (stop : Int) (ts : List Token) :
    Meets (pathWithin budget stop ts) (fun node => DerivedPath node ts)
      (Allowed ts stop (PathBreaks ts) (budget < nesting ts)) := by
  unfold pathWithin
  split
  · next none => exact List.isEmpty_iff.mp none
  · have part := List.infix_refl ts
    exact meets_toEnd (f := some) (meets_target budget part .whole) part .whole fun _ => id

end Descent

end Scim
