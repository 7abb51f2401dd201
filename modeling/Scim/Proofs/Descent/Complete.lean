import Scim.Proofs.Descent.Outcome
import Scim.Proofs.Phrase.Unique

/-!
# The descent reads every derivation

* `read_operand`     an operand of the grammar is read, whatever follows it;
* `read_chain`       a chain is read, if no logical operator follows it;
* `read_vacant`      a group with nothing inside is read as no filter;
* `fails_of_breaks`  tokens that follow the grammar up to a comparison that the tree cannot hold are
                     refused for it.

The budget is at least the number of tokens.
-/

namespace Scim

open Grammar Phrase

namespace Descent

variable {place : Place} {stop : Int}

/-! ## Steps -/

theorem take_one {kind : Kind} {t : Token} (h : t.kind = kind) (stop : Int) (rest : List Token) :
    take [kind] stop (t :: rest) = .ok (t, rest) := by
  unfold take
  dsimp only
  rw [if_pos (by rw [h]; simp)]

theorem take_value {t : Token} (h : t.kind ∈ Kind.values) (stop : Int) (rest : List Token) :
    take Kind.values stop (t :: rest) = .ok (t, rest) := by
  unfold take
  dsimp only
  rw [if_pos (List.contains_iff_mem.mpr h)]

theorem isNext_of_kind {kind : Kind} {t : Token} (h : t.kind = kind) (rest : List Token) :
    isNext kind (t :: rest) = true := by
  simp [isNext, h]

theorem isNext_of_ne {kind : Kind} {ts : List Token} (h : ∀ t ∈ ts.head?, t.kind ≠ kind) :
    isNext kind ts = false := by
  cases ts with
  | nil => rfl
  | cons t rest => simpa [isNext] using h t rfl

theorem nested_of_lt {n budget : Nat} (h : n < budget) :
    ∃ less, n ≤ less ∧ nested budget = some (expression less) := by
  cases budget with
  | zero => exact absurd h (Nat.not_lt_zero n)
  | succ less => exact ⟨less, Nat.le_of_lt_succ h, rfl⟩

theorem group_eq (read : Place → Reader (Option Node)) {opening closing : Token}
    {inner rest : List Token} (opens : opening.kind = .openParen) (inside : Matched inner)
    (closes : closing.kind = .closeParen) :
    group (some read) place stop (opening :: (inner ++ closing :: rest)) =
      (contents read place inner).bind fun node => .ok (node, rest) := by
  unfold group
  rw [take_one opens]
  show (take _ _ _).bind _ = _
  rw [enclosed_eq inside closes, List.drop_left, take_one closes]
  rfl

theorem negation_eq (read : Place → Reader (Option Node)) {word opening closing : Token}
    {inner rest : List Token} (isWord : word.kind = .negation) (opens : opening.kind = .openParen)
    (inside : Matched inner) (closes : closing.kind = .closeParen) :
    negation (some read) place stop (word :: opening :: (inner ++ closing :: rest)) =
      (contents read place inner).bind fun node => .ok (node.map .negation, rest) := by
  unfold negation
  rw [take_one isWord]
  show (group _ _ _ _).bind _ = _
  rw [group_eq read opens inside closes]
  cases contents read place inner <;> rfl

theorem operand_group {inner : Inner} {t : Token} (h : t.kind = .openParen) (rest : List Token) :
    operand inner place stop (t :: rest) = group inner place stop (t :: rest) := by
  simp [operand, h]

theorem operand_negation {inner : Inner} {t : Token} (h : t.kind = .negation) (rest : List Token) :
    operand inner place stop (t :: rest) = negation inner place stop (t :: rest) := by
  simp [operand, h]

theorem operand_name {inner : Inner} {t : Token} (h : t.kind = .name) (rest : List Token) :
    operand inner place stop (t :: rest) = condition inner place stop (t :: rest) := by
  simp [operand, h]

theorem contents_ok {read : Place → Reader (Option Node)} {ts : List Token} {node : Option Node}
    (long : ts ≠ []) (h : ∀ stop, read place stop ts = .ok (node, [])) :
    contents read place ts = .ok node := by
  unfold contents
  cases hl : ts.getLast? with
  | none => exact absurd (List.getLast?_eq_none_iff.mp hl) long
  | some last =>
    dsimp only
    rw [h]
    rfl

theorem contents_error {read : Place → Reader (Option Node)} {ts : List Token} {e : Failed}
    (long : ts ≠ []) (h : ∀ stop, read place stop ts = .error e) :
    contents read place ts = .error e := by
  unfold contents
  cases hl : ts.getLast? with
  | none => exact absurd (List.getLast?_eq_none_iff.mp hl) long
  | some last =>
    dsimp only
    rw [h]
    rfl

/-! ## Comparisons -/

theorem condition_comparison {inner : Inner} {name operator : Token} {rest : List Token}
    (isName : name.kind = .name) (isOperator : operator.kind = .comparison) :
    condition inner place stop (name :: operator :: rest) =
      (comparison (pathOf name) stop (operator :: rest)).bind fun r => .ok (some r.1, r.2) := by
  have other : isNext .openBracket (operator :: rest) = false := by simp [isNext, isOperator]
  unfold condition
  rw [take_one isName]
  show (valid (AttributePath.ofText name.text)).bind _ = _
  rw [ofText_pathOf]
  show ite _ _ _ = _
  rw [other]
  rfl

theorem comparison_presence {path : AttributePath} {operator : Token} {rest : List Token}
    (isOperator : operator.kind = .comparison) (word : wordOf operator = Operator.pr.word.toList) :
    comparison path stop (operator :: rest) = .ok (.comparison ⟨path, .pr, .null⟩, rest) := by
  unfold comparison
  rw [take_one isOperator]
  show ite _ _ _ = _
  rw [if_pos (word.trans Operator.toList_word_pr)]
  rcases make_cases path operator .null with ⟨o, same, made⟩ | ⟨unknown, -⟩
  · obtain rfl := Operator.word_injective (same.symm.trans word)
    rw [made]
    rfl
  · exact absurd word (unknown .pr)

theorem comparison_value {path : AttributePath} {operator literal : Token} {rest : List Token}
    (isOperator : operator.kind = .comparison) (word : wordOf operator ≠ Operator.pr.word.toList)
    (known : literal.kind ∈ Kind.values) :
    comparison path stop (operator :: literal :: rest) = (valid (value literal)).bind fun v =>
      (valid (Comparison.make path (String.ofList (wordOf operator)) v)).bind fun made =>
        .ok (.comparison made, rest) := by
  unfold comparison
  rw [take_one isOperator]
  show ite _ _ _ = _
  rw [if_neg (by rwa [Operator.toList_word_pr] at word), take_value known]
  rfl

/-! ## Value paths -/

theorem condition_valuePath {inner : Inner} {name opening : Token} {rest : List Token}
    (isName : name.kind = .name) (single : (pathOf name).names.length = 1)
    (opens : opening.kind = .openBracket) :
    condition inner .filter stop (name :: opening :: rest) =
      (bracketed inner (pathOf name) stop (opening :: rest)).bind fun r =>
        .ok (some (.valuePath (pathOf name) r.1 none), r.2) := by
  unfold condition
  rw [take_one isName]
  show (valid (AttributePath.ofText name.text)).bind _ = _
  rw [ofText_pathOf]
  show ite _ _ _ = _
  rw [if_pos (isNext_of_kind opens rest), if_neg (by decide), if_neg (by rw [single]; simp)]
  congr 1
  funext r
  obtain ⟨n, rest⟩ := r
  dsimp only
  rw [within_eq single]
  rfl

theorem bracketed_ok {read : Place → Reader (Option Node)} (path : AttributePath)
    {opening closing : Token} {inner : Chain} {rest : List Token}
    (opens : opening.kind = .openBracket) (inside : inner.Valid .brackets)
    (closes : closing.kind = .closeBracket)
    (h : read .brackets stop (inner.tokens ++ closing :: rest) =
      .ok (some inner.tree, closing :: rest)) :
    bracketed (some read) path stop (opening :: (inner.tokens ++ closing :: rest)) =
      .ok (inner.tree.under path, rest) := by
  have plain := inside.plain_tree
  obtain ⟨tree, clear⟩ := Node.qualify_eq path inner.tree plain
  unfold bracketed
  rw [take_one opens]
  show (read .brackets stop (inner.tokens ++ closing :: rest)).bind _ = _
  rw [h]
  dsimp only [Except.bind]
  rw [Option.filter_some, if_pos plain.isCondition]
  dsimp only
  rw [take_one closes, tree]
  dsimp only [bind, Except.bind]
  rw [clear]
  rfl

theorem bracketed_error {read : Place → Reader (Option Node)} (path : AttributePath)
    {opening : Token} {inner : List Token} {e : Failed} (opens : opening.kind = .openBracket)
    (h : read .brackets stop inner = .error e) :
    bracketed (some read) path stop (opening :: inner) = .error e := by
  unfold bracketed
  rw [take_one opens]
  show (read .brackets stop inner).bind _ = _
  rw [h]
  rfl

/-! ## Derivations -/

theorem contents_chain {budget : Nat} {c : Chain}
    (h : ∀ stop, expression budget place stop (c.tokens ++ []) = .ok (some c.tree, [])) :
    contents (expression budget) place c.tokens = .ok (some c.tree) := by
  rw [List.append_nil] at h
  exact contents_ok c.tokens_ne_nil h

mutual

/-- **An operand of the grammar is read**, whatever follows it. -/
theorem read_operand : (d : Operand) → ∀ {place : Place}, d.Valid place → ∀ (budget : Nat),
    d.tokens.length ≤ budget → ∀ (stop : Int) (rest : List Token),
      operand (nested budget) place stop (d.tokens ++ rest) = .ok (some d.tree, rest)
  | .group _ inner closing => by
    intro h budget enough stop rest
    cases h with
    | group opens valid closes =>
      simp only [Operand.tokens, List.length_cons, List.length_append] at enough
      have fewer : inner.tokens.length < budget := by omega
      obtain ⟨less, fits, level⟩ := nested_of_lt fewer
      have inside := contents_chain fun stop => read_chain inner valid less fits stop unlinked_nil
      simp only [Operand.tokens, List.cons_append, List.append_assoc, List.nil_append]
      rw [operand_group opens, level, group_eq _ opens valid.matched closes, inside]
      rfl
  | .negation _ _ inner closing => by
    intro h budget enough stop rest
    cases h with
    | negation isWord opens valid closes =>
      simp only [Operand.tokens, List.length_cons, List.length_append] at enough
      have fewer : inner.tokens.length < budget := by omega
      obtain ⟨less, fits, level⟩ := nested_of_lt fewer
      have inside := contents_chain fun stop => read_chain inner valid less fits stop unlinked_nil
      simp only [Operand.tokens, List.cons_append, List.append_assoc, List.nil_append]
      rw [operand_negation isWord, level, negation_eq _ isWord opens valid.matched closes, inside]
      rfl
  | .presence _ _ => by
    intro h budget enough stop rest
    cases h with
    | presence isName isOperator word =>
      simp only [Operand.tokens, List.cons_append, List.nil_append]
      rw [operand_name isName, condition_comparison isName isOperator,
        comparison_presence isOperator word]
      rfl
  | .comparison name operator _ o v => by
    intro h budget enough stop rest
    cases h with
    | comparison isName isOperator other word literal =>
      have long : wordOf operator ≠ Operator.pr.word.toList := by
        intro presence
        exact other (Operator.word_injective (word.symm.trans presence))
      simp only [Operand.tokens, List.cons_append, List.nil_append]
      rw [operand_name isName, condition_comparison isName isOperator,
        comparison_value isOperator long literal.mem_values,
        (value_eq_ok_iff literal.mem_values).mpr literal]
      rcases make_cases (pathOf name) operator v with ⟨o', same, made⟩ | ⟨unknown, -⟩
      · obtain rfl := Operator.word_injective (same.symm.trans word)
        show ((valid (Comparison.make _ _ v)).bind _).bind _ = _
        rw [made]
        rfl
      · exact absurd word (unknown o)
  | .valuePath name _ inner closing => by
    intro h budget enough stop rest
    cases h with
    | valuePath isName single opens valid closes =>
      simp only [Operand.tokens, List.length_cons, List.length_append] at enough
      have fewer : inner.tokens.length < budget := by omega
      obtain ⟨less, fits, level⟩ := nested_of_lt fewer
      have inside := read_chain inner valid less fits stop
        (show Unlinked (closing :: rest) from unlinked_of_kind closes (by decide))
      simp only [Operand.tokens, List.cons_append, List.append_assoc, List.nil_append]
      rw [operand_name isName, condition_valuePath isName single opens, level,
        bracketed_ok (pathOf name) opens valid closes inside]
      rfl

theorem read_links : (l : Links) → ∀ {place : Place}, l.Valid place → ∀ (budget : Nat),
    l.tokens.length ≤ budget → ∀ (stop : Int) {rest : List Token}, Unlinked rest → ∀ {n : Nat},
      (l.tokens ++ rest).length ≤ n →
        moreOperands (operand (nested budget) place) n stop (l.tokens ++ rest) = .ok (l.trees, rest)
  | .nil => by
    intro _ budget _ stop rest ends n _
    cases n with
    | zero => rfl
    | succ n =>
      unfold moreOperands
      show ite (isNext .logical rest = true) _ _ = _
      rw [isNext_of_ne ends]
      rfl
  | .cons link d more => by
    intro h budget enough stop rest ends n short
    cases h with
    | cons isLink valid links =>
      simp only [Links.tokens, List.cons_append, List.length_cons, List.length_append,
        List.append_assoc] at enough short ⊢
      obtain ⟨m, rfl⟩ : ∃ m, n = m + 1 := ⟨n - 1, by omega⟩
      have first := read_operand d valid budget (by omega) stop (more.tokens ++ rest)
      have later := read_links more links budget (by omega) stop ends (n := m)
        (by rw [List.length_append]; omega)
      unfold moreOperands
      rw [if_pos (isNext_of_kind isLink _), take_one isLink]
      show (operand _ _ _ _).bind _ = _
      rw [first]
      show (moreOperands _ _ _ _).bind _ = _
      rw [later]
      rfl

/-- **A chain of the grammar is read**, if no logical operator follows it. -/
theorem read_chain : (c : Chain) → ∀ {place : Place}, c.Valid place → ∀ (budget : Nat),
    c.tokens.length ≤ budget → ∀ (stop : Int) {rest : List Token}, Unlinked rest →
      expression budget place stop (c.tokens ++ rest) = .ok (some c.tree, rest)
  | .mk d more => by
    intro h budget enough stop rest ends
    cases h with
    | mk valid links =>
      simp only [Chain.tokens, List.length_append, List.append_assoc] at enough ⊢
      have first := read_operand d valid budget (by omega) stop (more.tokens ++ rest)
      have later := read_links more links budget (by omega) stop ends (Nat.le_refl _)
      rw [expression_eq]
      unfold expressionOver
      rw [first]
      show (moreOperands _ _ _ _).bind _ = _
      rw [later]
      show ite _ _ _ = _
      cases more with
      | nil => rfl
      | cons link operand more =>
        show (assemble d.tree (Links.cons link operand more).trees).bind _ = _
        rw [assemble_trees]
        rfl

end

/-! ## Groups with nothing inside -/

theorem expression_of_operand_none {budget : Nat} {ts rest : List Token}
    (h : operand (nested budget) place stop ts = .ok (none, rest)) :
    expression budget place stop ts = .ok (none, rest) := by
  rw [expression_eq]
  unfold expressionOver
  rw [h]
  rfl

theorem contents_none {budget : Nat} {ts : List Token} (long : ts ≠ [])
    (h : ∀ (stop : Int) (rest : List Token),
      operand (nested budget) place stop (ts ++ rest) = .ok (none, rest)) :
    contents (expression budget) place ts = .ok none := by
  refine contents_ok long fun stop => expression_of_operand_none ?_
  have alone := h stop []
  rwa [List.append_nil] at alone

/-- **A group with nothing inside is read as no filter.** -/
theorem read_vacant {ts : List Token} (h : Vacant ts) (budget : Nat) (enough : ts.length ≤ budget) :
    contents (expression budget) place ts = .ok none ∧
      (ts ≠ [] → ∀ (stop : Int) (rest : List Token),
        operand (nested budget) place stop (ts ++ rest) = .ok (none, rest)) := by
  induction h generalizing budget with
  | nil => exact ⟨rfl, fun long => absurd rfl long⟩
  | @group opening closing us opens empty closes ih =>
    have read (stop : Int) (rest : List Token) :
        operand (nested budget) place stop (opening :: (us ++ [closing]) ++ rest) =
          .ok (none, rest) := by
      simp only [List.length_cons, List.length_append] at enough
      have fewer : us.length < budget := by omega
      obtain ⟨less, fits, level⟩ := nested_of_lt fewer
      rw [List.cons_append, List.append_assoc, operand_group opens, level]
      show group _ _ _ (opening :: (us ++ closing :: rest)) = _
      rw [group_eq _ opens empty.matched closes, (ih less fits).1]
      rfl
    exact ⟨contents_none (List.cons_ne_nil _ _) read, fun _ => read⟩
  | @negation word opening closing us isWord opens empty closes ih =>
    have read (stop : Int) (rest : List Token) :
        operand (nested budget) place stop (word :: opening :: (us ++ [closing]) ++ rest) =
          .ok (none, rest) := by
      simp only [List.length_cons, List.length_append] at enough
      have fewer : us.length < budget := by omega
      obtain ⟨less, fits, level⟩ := nested_of_lt fewer
      rw [List.cons_append, List.cons_append, List.append_assoc, operand_negation isWord, level]
      show negation _ _ _ (word :: opening :: (us ++ closing :: rest)) = _
      rw [negation_eq _ isWord opens empty.matched closes, (ih less fits).1]
      rfl
    exact ⟨contents_none (List.cons_ne_nil _ _) read, fun _ => read⟩

/-! ## Comparisons that the tree cannot hold -/

/-- Reading a chain fails at its start and behind a logical operator. -/
structure Fails (budget : Nat) (place : Place) (ts : List Token) (e : Failed) : Prop where
  whole : ∀ stop, expression budget place stop ts = .error e
  linked : ∀ (stop : Int) (link : Token) (n : Nat), link.kind = .logical → ts.length < n →
    moreOperands (operand (nested budget) place) n stop (link :: ts) = .error e

theorem fails_of_operand {budget : Nat} {ts : List Token} {e : Failed}
    (h : ∀ stop, operand (nested budget) place stop ts = .error e) : Fails budget place ts e where
  whole := by
    intro stop
    rw [expression_eq]
    unfold expressionOver
    rw [h]
    rfl
  linked := by
    intro stop link n isLink long
    obtain ⟨m, rfl⟩ : ∃ m, n = m + 1 := ⟨n - 1, by omega⟩
    unfold moreOperands
    rw [if_pos (isNext_of_kind isLink _), take_one isLink]
    show (operand _ _ _ _).bind _ = _
    rw [h]
    rfl

theorem Fails.behind {budget : Nat} {ts : List Token} {e : Failed} {d : Operand} {link : Token}
    (h : Fails budget place ts e) (valid : d.Valid place) (enough : d.tokens.length ≤ budget)
    (isLink : link.kind = .logical) : Fails budget place (d.tokens ++ link :: ts) e where
  whole := by
    intro stop
    rw [expression_eq]
    unfold expressionOver
    rw [read_operand d valid budget enough]
    show (moreOperands _ _ _ _).bind _ = _
    rw [h.linked stop link (link :: ts).length isLink (Nat.lt_succ_self _)]
    rfl
  linked := by
    intro stop link' n isLink' long
    rw [List.length_append, List.length_cons] at long
    obtain ⟨m, rfl⟩ : ∃ m, n = m + 1 := ⟨n - 1, by omega⟩
    unfold moreOperands
    rw [if_pos (isNext_of_kind isLink' _), take_one isLink']
    show (operand _ _ _ _).bind _ = _
    rw [read_operand d valid budget enough]
    show (moreOperands _ _ _ _).bind _ = _
    rw [h.linked stop link m isLink (by omega)]
    rfl

/-- **Tokens that follow the grammar up to a comparison that the tree cannot hold** are refused for
it. -/
theorem fails_of_breaks {ts : List Token} {e : Invalid} (h : Breaks place ts e) (budget : Nat)
    (enough : ts.length ≤ budget) : Fails budget place ts (.invalid e) := by
  induction h generalizing budget with
  | longNumber isName isOperator word long =>
    refine fails_of_operand fun stop => ?_
    have known : Kind.number ∈ Kind.values := by decide
    rw [operand_name isName, condition_comparison isName isOperator,
      comparison_value isOperator word (by rw [long.1]; exact known),
      value_eq_error_iff.mpr ⟨long, rfl⟩]
    rfl
  | @unknownOperator place name operator literal v rest isName isOperator unknown meaning =>
    refine fails_of_operand fun stop => ?_
    rw [operand_name isName, condition_comparison isName isOperator,
      comparison_value isOperator (unknown .pr) meaning.mem_values,
      (value_eq_ok_iff meaning.mem_values).mpr meaning]
    rcases make_cases (pathOf name) operator v with ⟨o, same, -⟩ | ⟨-, made⟩
    · exact absurd same (unknown o)
    · show ((valid (Comparison.make _ _ v)).bind _).bind _ = _
      rw [made]
      rfl
  | @group place opening closing us rest e opens inside closes broken ih =>
    refine fails_of_operand fun stop => ?_
    simp only [List.length_cons, List.length_append] at enough
    have fewer : us.length < budget := by omega
    obtain ⟨less, fits, level⟩ := nested_of_lt fewer
    rw [operand_group opens, level, group_eq _ opens inside closes,
      contents_error broken.ne_nil (ih less fits).whole]
    rfl
  | @negation place word opening closing us rest e isWord opens inside closes broken ih =>
    refine fails_of_operand fun stop => ?_
    simp only [List.length_cons, List.length_append] at enough
    have fewer : us.length < budget := by omega
    obtain ⟨less, fits, level⟩ := nested_of_lt fewer
    rw [operand_negation isWord, level, negation_eq _ isWord opens inside closes,
      contents_error broken.ne_nil (ih less fits).whole]
    rfl
  | @valuePath name opening us e isName single opens broken ih =>
    refine fails_of_operand fun stop => ?_
    simp only [List.length_cons] at enough
    have fewer : us.length < budget := by omega
    obtain ⟨less, fits, level⟩ := nested_of_lt fewer
    rw [operand_name isName, condition_valuePath isName single opens, level,
      bracketed_error (pathOf name) opens ((ih less fits).whole stop)]
    rfl
  | @later place d link us e valid isLink broken ih =>
    rw [List.length_append, List.length_cons] at enough
    exact (ih budget (by omega)).behind valid (by omega) isLink

/-! ## Filters and paths -/

theorem filter_of_expression {ts : List Token} {node : Option Node} (long : ts ≠ [])
    (h : expression ts.length .filter stop ts = .ok (node, [])) : filter stop ts = .ok node := by
  unfold filter filterWithin
  rw [List.isEmpty_eq_false_iff.mpr long, h]
  rfl

theorem filter_of_derived {ts : List Token} {node : Option Node} (h : Derived .filter node ts) :
    filter stop ts = .ok node := by
  cases node with
  | none =>
    cases hts : ts with
    | nil => rfl
    | cons t rest =>
      rw [← hts]
      have long : ts ≠ [] := by
        rw [hts]
        exact List.cons_ne_nil t rest
      have alone : operand (nested ts.length) .filter stop (ts ++ []) = .ok (none, []) :=
        (read_vacant h ts.length (Nat.le_refl _)).2 long stop []
      rw [List.append_nil] at alone
      exact filter_of_expression long (expression_of_operand_none alone)
  | some n =>
    obtain ⟨c, valid, rfl, rfl⟩ := h
    have alone := read_chain c valid _ (Nat.le_refl _) stop unlinked_nil
    rw [List.append_nil] at alone
    exact filter_of_expression c.tokens_ne_nil alone

theorem filter_of_breaks {ts : List Token} {e : Invalid} (h : Breaks .filter ts e) :
    filter stop ts = .error (.invalid e) := by
  unfold filter filterWithin
  rw [List.isEmpty_eq_false_iff.mpr h.ne_nil, (fails_of_breaks h _ (Nat.le_refl _)).whole]
  rfl

theorem target_valuePath {budget : Nat} {name opening : Token} {rest : List Token}
    (isName : name.kind = .name) (single : (pathOf name).names.length = 1)
    (opens : opening.kind = .openBracket) :
    target budget stop (name :: opening :: rest) =
      (bracketed (nested budget) (pathOf name) stop (opening :: rest)).bind fun r =>
        (subAttribute stop r.2).bind fun s => .ok (.valuePath (pathOf name) r.1 s.1, s.2) := by
  unfold target
  rw [take_one isName]
  show (valid (AttributePath.ofText name.text)).bind _ = _
  rw [ofText_pathOf]
  show ite _ _ _ = _
  rw [if_pos (isNext_of_kind opens rest), if_neg (by rw [single]; simp)]
  congr 1
  funext r
  obtain ⟨n, behind⟩ := r
  dsimp only
  congr 1
  funext s
  obtain ⟨sub, after⟩ := s
  dsimp only
  rw [within_eq single]
  rfl

theorem subAttribute_eq {sub : Option String} {ts : List Token} (h : SubAttribute sub ts) :
    subAttribute stop ts = .ok (sub, []) := by
  cases h with
  | none => rfl
  | some isSub =>
    unfold subAttribute
    rw [if_pos (isNext_of_kind isSub []), take_one isSub]
    rfl

theorem path_of_derived {ts : List Token} {node : Option Node} (h : DerivedPath node ts) :
    path stop ts = .ok node := by
  cases node with
  | none =>
    obtain rfl : ts = [] := h
    rfl
  | some n =>
    cases h with
    | simple isName =>
      unfold path pathWithin target
      rw [take_one isName]
      show (((valid (AttributePath.ofText _)).bind _).bind _) = _
      rw [ofText_pathOf]
      rfl
    | @valuePath name n sub ts behind isName single brackets found =>
      cases brackets with
      | @mk opening closing inner opens inside closes =>
        have fits : inner.tokens.length ≤
            (opening :: (inner.tokens ++ closing :: behind)).length := by
          rw [List.length_cons, List.length_append]
          omega
        have read := read_chain inner inside _ fits stop
          (show Unlinked (closing :: behind) from unlinked_of_kind closes (by decide))
        unfold path pathWithin
        show (target _ _ _).bind _ = _
        rw [target_valuePath isName single opens]
        show ((bracketed (some (expression _)) _ _ _).bind _).bind _ = _
        rw [bracketed_ok (pathOf name) opens inside closes read]
        show ((subAttribute _ _).bind _).bind _ = _
        rw [subAttribute_eq found]
        rfl

theorem path_of_breaks {ts : List Token} {e : Invalid} (h : PathBreaks ts e) :
    path stop ts = .error (.invalid e) := by
  cases h with
  | @brackets name opening inner e isName single opens broken =>
    have failed := (fails_of_breaks broken (inner.length + 1) (Nat.le_succ _)).whole stop
    unfold path pathWithin
    show (target _ _ _).bind _ = _
    rw [target_valuePath isName single opens]
    show ((bracketed (some (expression (inner.length + 1))) _ _ _).bind _).bind _ = _
    rw [bracketed_error (pathOf name) opens failed]
    rfl

end Descent

end Scim
