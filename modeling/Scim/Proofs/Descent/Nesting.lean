import Scim.Proofs.Descent.Complete
import Scim.Proofs.Phrase.Parts

/-!
# Value paths inside brackets

The contents of brackets follow the grammar of filters, but for value paths.

* `chain_brackets_or_nested`    the tokens of a filter are those of the contents of brackets if
                                      its tree holds no value path, and otherwise are refused there;
* `filter_bracketed`                  a name with the tokens of a filter in brackets behind it is
                                      refused for a value path, unless it is one.
-/

namespace Scim

open Grammar Phrase

namespace Descent

/-- Inside brackets a chain that starts with the tokens is refused for a value path among them. -/
def Nested (ts : List Token) : Prop :=
  ∃ name, ∀ budget, ts.length ≤ budget → ∀ rest,
    Fails budget .brackets (ts ++ rest) (faultAt .nestedValuePath name)

theorem Nested.behind {d : Operand} {link : Token} {ts : List Token} (h : Nested ts)
    (valid : d.Valid .brackets) (isLink : link.kind = .logical) :
    Nested (d.tokens ++ link :: ts) := by
  obtain ⟨name, failed⟩ := h
  refine ⟨name, fun budget enough rest => ?_⟩
  rw [List.length_append, List.length_cons] at enough
  rw [List.append_assoc, List.cons_append]
  exact (failed budget (by omega) rest).behind valid (by omega) isLink

theorem Nested.append {ts : List Token} (h : Nested ts) (us : List Token) : Nested (ts ++ us) := by
  obtain ⟨name, failed⟩ := h
  refine ⟨name, fun budget enough rest => ?_⟩
  rw [List.length_append] at enough
  rw [List.append_assoc]
  exact failed budget (by omega) (us ++ rest)

theorem Nested.contents {c : Chain} (h : Nested c.tokens) :
    ∃ name, ∀ budget, c.tokens.length ≤ budget →
      contents (expression budget) .brackets c.tokens = .error (faultAt .nestedValuePath name) := by
  obtain ⟨name, failed⟩ := h
  refine ⟨name, fun budget enough => contents_error c.tokens_ne_nil fun stop => ?_⟩
  have alone := (failed budget enough []).whole stop
  rwa [List.append_nil] at alone

mutual

theorem operand_brackets_or_nested : {d : Operand} → d.Valid .filter →
    (d.tree.valuePaths = [] ∧ d.Valid .brackets) ∨ (d.tree.valuePaths ≠ [] ∧ Nested d.tokens)
  | .group opening inner closing, .group opens valid closes => by
    rcases chain_brackets_or_nested valid with ⟨none, valid'⟩ | ⟨some, nested⟩
    · exact .inl ⟨none, .group opens valid' closes⟩
    · obtain ⟨name, failed⟩ := nested.contents
      refine .inr ⟨some, name, fun budget enough rest => fails_of_operand fun stop => ?_⟩
      simp only [Operand.tokens, List.length_cons, List.length_append] at enough
      have fewer : inner.tokens.length < budget := by omega
      obtain ⟨less, fits, level⟩ := nested_of_lt fewer
      rw [Operand.tokens, List.cons_append, List.append_assoc, operand_group opens, level]
      show Descent.group _ _ _ (opening :: (inner.tokens ++ closing :: rest)) = _
      rw [group_eq _ opens valid.matched closes, failed less fits]
      rfl
  | .negation word opening inner closing, .negation isWord opens valid closes => by
    rcases chain_brackets_or_nested valid with ⟨none, valid'⟩ | ⟨some, nested⟩
    · exact .inl ⟨none, .negation isWord opens valid' closes⟩
    · obtain ⟨name, failed⟩ := nested.contents
      refine .inr ⟨some, name, fun budget enough rest => fails_of_operand fun stop => ?_⟩
      simp only [Operand.tokens, List.length_cons, List.length_append] at enough
      have fewer : inner.tokens.length < budget := by omega
      obtain ⟨less, fits, level⟩ := nested_of_lt fewer
      rw [Operand.tokens, List.cons_append, List.cons_append, List.append_assoc,
        operand_negation isWord, level]
      show Descent.negation _ _ _ (word :: opening :: (inner.tokens ++ closing :: rest)) = _
      rw [negation_eq _ isWord opens valid.matched closes, failed less fits]
      rfl
  | .presence _ _, .presence isName isOperator word =>
    .inl ⟨rfl, .presence isName isOperator word⟩
  | .comparison _ _ _ _ _, .comparison isName isOperator other word value =>
    .inl ⟨rfl, .comparison isName isOperator other word value⟩
  | .valuePath name opening inner closing, .valuePath isName _ opens _ _ => by
    refine .inr ⟨List.cons_ne_nil _ _, name, fun budget _ rest => fails_of_operand fun stop => ?_⟩
    rw [Operand.tokens, List.cons_append, operand_name isName]
    unfold condition
    rw [take_one isName]
    show (Descent.valid (AttributePath.ofText name.text)).bind _ = _
    rw [ofText_pathOf]
    show ite _ _ _ = _
    rw [List.cons_append, if_pos (isNext_of_kind opens _)]
    rfl

theorem links_brackets_or_nested : {l : Links} → l.Valid .filter →
    ((l.trees.map Prod.snd).flatMap Node.valuePaths = [] ∧ l.Valid .brackets) ∨
      ((l.trees.map Prod.snd).flatMap Node.valuePaths ≠ [] ∧
        ∀ {d : Operand}, d.Valid .brackets → Nested (d.tokens ++ l.tokens))
  | _, .nil => .inl ⟨rfl, .nil⟩
  | .cons link d' more, .cons isLink valid links => by
    have listed : ((Links.cons link d' more).trees.map Prod.snd).flatMap Node.valuePaths =
        d'.tree.valuePaths ++ (more.trees.map Prod.snd).flatMap Node.valuePaths :=
      List.flatMap_cons
    rw [listed]
    rcases operand_brackets_or_nested valid with ⟨none, valid'⟩ | ⟨some, nested⟩
    · rcases links_brackets_or_nested links with ⟨none', links'⟩ | ⟨some, nested⟩
      · exact .inl ⟨by rw [none, none']; rfl, .cons isLink valid' links'⟩
      · refine .inr ⟨List.append_ne_nil_of_right_ne_nil _ some, fun valid'' => ?_⟩
        exact (nested valid').behind valid'' isLink
    · refine .inr ⟨List.append_ne_nil_of_left_ne_nil some _, fun valid'' => ?_⟩
      exact (nested.append more.tokens).behind valid'' isLink

/-- **The tokens of a filter inside brackets**: without a value path they are contents of brackets,
and otherwise they are refused. -/
theorem chain_brackets_or_nested : {c : Chain} → c.Valid .filter →
    (c.tree.valuePaths = [] ∧ c.Valid .brackets) ∨ (c.tree.valuePaths ≠ [] ∧ Nested c.tokens)
  | .mk first more, .mk valid links => by
    have listed : (Chain.mk first more).tree.valuePaths =
        first.tree.valuePaths ++ (more.trees.map Prod.snd).flatMap Node.valuePaths :=
      Node.additive_valuePaths.chained first.tree more.trees
    rw [listed]
    rcases operand_brackets_or_nested valid with ⟨none, valid'⟩ | ⟨some, nested⟩
    · rcases links_brackets_or_nested links with ⟨none', links'⟩ | ⟨some, nested⟩
      · exact .inl ⟨by rw [none, none']; rfl, .mk valid' links'⟩
      · exact .inr ⟨List.append_ne_nil_of_right_ne_nil _ some, nested valid'⟩
    · exact .inr ⟨List.append_ne_nil_of_left_ne_nil some _, nested.append more.tokens⟩

end

/-! ## Brackets behind a name -/

variable {stop : Int} {name opening closing : Token} {ts : List Token}

/-- The tokens are refused for a value path. -/
def RefusedValuePath (x : Except Failed (Option Node)) : Prop :=
  ∃ f : Fault, f.cause.isValuePath = true ∧ x = .error (.fault f)

theorem filter_error {ts : List Token} {e : Failed} (long : ts ≠ [])
    (h : expression ts.length .filter stop ts = .error e) : filter stop ts = .error e := by
  unfold filter filterWithin
  rw [List.isEmpty_eq_false_iff.mpr long, h]
  rfl

theorem filter_name_error {e : Failed} (isName : name.kind = .name)
    (h : condition (nested (name :: ts).length) .filter stop (name :: ts) = .error e) :
    filter stop (name :: ts) = .error e := by
  refine filter_error (List.cons_ne_nil name ts) ?_
  rw [expression_eq]
  unfold expressionOver
  rw [operand_name isName, h]
  rfl

theorem filter_deep (isName : name.kind = .name) (deep : (pathOf name).names.length ≠ 1)
    (opens : opening.kind = .openBracket) :
    filter stop (name :: opening :: ts) = .error (faultAt .deepValuePath name) := by
  refine filter_name_error isName ?_
  unfold condition
  rw [take_one isName]
  show (Descent.valid (AttributePath.ofText name.text)).bind _ = _
  rw [ofText_pathOf]
  show ite _ _ _ = _
  rw [if_pos (isNext_of_kind opens _)]
  show ite _ _ _ = _
  rw [if_neg (by decide), if_pos deep]

theorem filter_bracketed_error {e : Failed} (isName : name.kind = .name)
    (single : (pathOf name).names.length = 1) (opens : opening.kind = .openBracket)
    (h : ∀ budget, (opening :: ts).length ≤ budget →
      bracketed (nested budget) (pathOf name) stop (opening :: ts) = .error e) :
    filter stop (name :: opening :: ts) = .error e := by
  refine filter_name_error isName ?_
  have failed := h (name :: opening :: ts).length (Nat.le_succ _)
  rw [condition_valuePath isName single opens, failed]
  rfl

theorem bracketed_vacant {budget : Nat} (path : AttributePath) (opens : opening.kind = .openBracket)
    (h : expression budget .brackets stop ts = .ok (none, closing :: [])) :
    bracketed (some (expression budget)) path stop (opening :: ts) =
      .error (faultAt (.emptyValuePath path.fullName) opening) := by
  unfold bracketed
  rw [take_one opens]
  show (expression budget .brackets stop ts).bind _ = _
  rw [h]
  rfl

theorem filter_vacant (isName : name.kind = .name) (single : (pathOf name).names.length = 1)
    (opens : opening.kind = .openBracket) (vacant : Vacant ts)
    (closes : closing.kind = .closeBracket) :
    RefusedValuePath (filter stop (name :: opening :: (ts ++ [closing]))) := by
  cases hts : ts with
  | nil =>
    refine ⟨⟨.expectedComparison, some closing.text, closing.position⟩, rfl, ?_⟩
    refine filter_bracketed_error isName single opens fun budget enough => ?_
    obtain ⟨less, -, level⟩ := nested_of_lt (Nat.lt_of_succ_le enough)
    rw [level]
    refine bracketed_error (pathOf name) opens ?_
    rw [List.nil_append, expression_eq]
    unfold expressionOver Descent.operand
    simp only [List.head?_cons, Option.map_some, closes]
    rfl
  | cons t rest =>
    rw [← hts]
    have long : ts ≠ [] := by
      rw [hts]
      exact List.cons_ne_nil t rest
    refine ⟨⟨.emptyValuePath (pathOf name).fullName, some opening.text, opening.position⟩, rfl, ?_⟩
    refine filter_bracketed_error isName single opens fun budget enough => ?_
    rw [List.length_cons, List.length_append] at enough
    obtain ⟨less, fits, level⟩ := nested_of_lt (Nat.lt_of_succ_le enough)
    rw [List.length_singleton] at fits
    have read : operand (nested less) .brackets stop (ts ++ [closing]) = .ok (none, [closing]) :=
      (read_vacant vacant less (Nat.le_of_succ_le fits)).2 long stop [closing]
    rw [level]
    exact bracketed_vacant (pathOf name) opens (expression_of_operand_none read)

/-- **A name with a filter in brackets behind it** is refused for a value path if it is deep, the
filter is empty or holds a value path itself. -/
theorem filter_bracketed {node : Option Node} (isName : name.kind = .name)
    (opens : opening.kind = .openBracket) (derived : Derived .filter node ts)
    (closes : closing.kind = .closeBracket)
    (unfit : (pathOf name).names.length ≠ 1 ∨ ∀ n, node = some n → n.valuePaths ≠ []) :
    RefusedValuePath (filter stop (name :: opening :: (ts ++ [closing]))) := by
  by_cases single : (pathOf name).names.length = 1
  · cases node with
    | none => exact filter_vacant isName single opens derived closes
    | some n =>
      have held := unfit.resolve_left (not_not_intro single) n rfl
      obtain ⟨c, valid, rfl, rfl⟩ := derived
      rcases chain_brackets_or_nested valid with ⟨none, -⟩ | ⟨-, inner, failed⟩
      · exact absurd none held
      · refine ⟨⟨.nestedValuePath, some inner.text, inner.position⟩, rfl, ?_⟩
        refine filter_bracketed_error isName single opens fun budget enough => ?_
        rw [List.length_cons, List.length_append] at enough
        obtain ⟨less, fits, level⟩ := nested_of_lt (Nat.lt_of_succ_le enough)
        rw [level]
        exact bracketed_error (pathOf name) opens ((failed less (by omega) [closing]).whole stop)
  · exact ⟨⟨.deepValuePath, some name.text, name.position⟩, rfl, filter_deep isName single opens⟩

end Descent

end Scim
