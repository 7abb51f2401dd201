import Mathlib.Data.List.Forall2
import Scim.Proofs.Parse.Basic
import Scim.Proofs.Phrase.Naming

/-!
# Tokens that say the same but for names

Two lists of tokens whose names are the same once `f` has been applied to them have the same
derivations, whose trees are the same once `f` has been applied to their names.

* `Spelled f`                two tokens of one kind with the same word and value, and with names
                             that `f` does not tell apart;
* `Chain.Valid.spelled`      tokens that are spelled alike have alike derivations;
* `Mode.Derives.spelled`     so the grammar derives the same from them, but for names.
-/

namespace Scim

open Grammar Descent

namespace Phrase

/-- Two tokens that say the same, but for names that `f` does not tell apart. -/
structure Spelled (f : String → String) (t t' : Token) : Prop where
  kind : t'.kind = t.kind
  word : wordOf t' = wordOf t
  value : t.kind ∈ Kind.values → Grammar.value t' = Grammar.value t
  path : t.kind = .name → (pathOf t').mapNames f = (pathOf t).mapNames f
  sub : t.kind = .subAttribute →
    f (String.ofList (t'.text.drop 1)) = f (String.ofList (t.text.drop 1))

/-! ## Lists of related items -/

section

variable {α β : Type} {R : α → β → Prop}

theorem exists_append_of_forall₂ {as bs : List α} {cs : List β}
    (h : List.Forall₂ R (as ++ bs) cs) :
    ∃ us vs, cs = us ++ vs ∧ List.Forall₂ R as us ∧ List.Forall₂ R bs vs := by
  induction as generalizing cs with
  | nil => exact ⟨[], cs, rfl, .nil, h⟩
  | cons a as ih =>
    obtain ⟨c, cs, first, tail, rfl⟩ := List.forall₂_cons_left_iff.mp h
    obtain ⟨us, vs, rfl, front, back⟩ := ih tail
    exact ⟨c :: us, vs, rfl, .cons first front, back⟩

theorem exists_enclosed_of_forall₂ {opening closing : α} {inner rest : List α} {bs : List β}
    (h : List.Forall₂ R (opening :: (inner ++ closing :: rest)) bs) :
    ∃ opening' inner' closing' rest', bs = opening' :: (inner' ++ closing' :: rest') ∧
      R opening opening' ∧ List.Forall₂ R inner inner' ∧ R closing closing' ∧
      List.Forall₂ R rest rest' := by
  obtain ⟨opening', bs, first, tail, rfl⟩ := List.forall₂_cons_left_iff.mp h
  obtain ⟨us, vs, rfl, middle, tail⟩ := exists_append_of_forall₂ tail
  obtain ⟨closing', rest', last, behind, rfl⟩ := List.forall₂_cons_left_iff.mp tail
  exact ⟨opening', us, closing', rest', rfl, first, middle, last, behind⟩

end

/-! ## Single tokens -/

namespace Spelled

variable {f : String → String} {t t' : Token}

theorem symm (h : Spelled f t t') : Spelled f t' t where
  kind := h.kind.symm
  word := h.word.symm
  value known := (h.value (h.kind ▸ known)).symm
  path isName := (h.path (h.kind.symm.trans isName)).symm
  sub isSub := (h.sub (h.kind.symm.trans isSub)).symm

theorem of_kind (h : Spelled f t t') {kind : Kind} (isKind : t.kind = kind) : t'.kind = kind :=
  h.kind.trans isKind

theorem connectiveOf_eq (h : Spelled f t t') : connectiveOf t' = connectiveOf t := by
  unfold connectiveOf
  rw [h.word]

theorem literal (h : Spelled f t t') {v : Value} (value : Literal t v) : Literal t' v := by
  have known := value.mem_values
  have known' : t'.kind ∈ Kind.values := by
    rw [h.kind]
    exact known
  rw [← value_eq_ok_iff known', h.value known]
  exact (value_eq_ok_iff known).mpr value

theorem length_names (h : Spelled f t t') (isName : t.kind = .name) :
    (pathOf t').names.length = (pathOf t).names.length := by
  have names := congrArg AttributePath.names (h.path isName)
  simpa [AttributePath.mapNames] using congrArg List.length names

theorem comparison_eq (h : Spelled f t t') (isName : t.kind = .name) (o : Operator) (v : Value) :
    (Node.comparison ⟨pathOf t', o, v⟩).mapNames f =
      (Node.comparison ⟨pathOf t, o, v⟩).mapNames f :=
  congrArg (fun p => Node.comparison ⟨p, o, v⟩) (h.path isName)

end Spelled

/-! ## Derivations -/

variable {f : String → String}

mutual

theorem Operand.Valid.spelled {place : Place} : {d : Operand} → d.Valid place → {ts : List Token} →
    List.Forall₂ (Spelled f) d.tokens ts → ∃ d' : Operand, d'.Valid place ∧ d'.tokens = ts ∧
      d'.tree.mapNames f = d.tree.mapNames f
  | .group _ inner _, .group opens valid closes, _, h => by
    obtain ⟨opening', us, closing', _, rfl, hopen, hinner, hclose, ⟨⟩⟩ :=
      exists_enclosed_of_forall₂ h
    obtain ⟨c, valid', rfl, same⟩ := valid.spelled hinner
    exact ⟨.group opening' c closing', .group (hopen.of_kind opens) valid' (hclose.of_kind closes),
      rfl, same⟩
  | .negation _ _ inner _, .negation isWord opens valid closes, _, h => by
    obtain ⟨word', rest, hword, tail, rfl⟩ := List.forall₂_cons_left_iff.mp h
    obtain ⟨opening', us, closing', _, rfl, hopen, hinner, hclose, ⟨⟩⟩ :=
      exists_enclosed_of_forall₂ tail
    obtain ⟨c, valid', rfl, same⟩ := valid.spelled hinner
    exact ⟨.negation word' opening' c closing', .negation (hword.of_kind isWord)
      (hopen.of_kind opens) valid' (hclose.of_kind closes), rfl, congrArg Node.negation same⟩
  | .presence _ _, .presence isName isOperator word, _, h => by
    obtain ⟨name', rest, hname, tail, rfl⟩ := List.forall₂_cons_left_iff.mp h
    obtain ⟨operator', _, hoperator, ⟨⟩, rfl⟩ := List.forall₂_cons_left_iff.mp tail
    exact ⟨.presence name' operator', .presence (hname.of_kind isName)
      (hoperator.of_kind isOperator) (hoperator.word.trans word), rfl,
      hname.comparison_eq isName .pr .null⟩
  | .comparison _ _ _ o v, .comparison isName isOperator other word value, _, h => by
    obtain ⟨name', rest, hname, tail, rfl⟩ := List.forall₂_cons_left_iff.mp h
    obtain ⟨operator', rest, hoperator, last, rfl⟩ := List.forall₂_cons_left_iff.mp tail
    obtain ⟨literal', _, hliteral, ⟨⟩, rfl⟩ := List.forall₂_cons_left_iff.mp last
    exact ⟨.comparison name' operator' literal' o v, .comparison (hname.of_kind isName)
      (hoperator.of_kind isOperator) other (hoperator.word.trans word) (hliteral.literal value),
      rfl, hname.comparison_eq isName o v⟩
  | .valuePath name _ inner _, .valuePath isName single opens valid closes, _, h => by
    obtain ⟨name', rest, hname, tail, rfl⟩ := List.forall₂_cons_left_iff.mp h
    obtain ⟨opening', us, closing', _, rfl, hopen, hinner, hclose, ⟨⟩⟩ :=
      exists_enclosed_of_forall₂ tail
    obtain ⟨c, valid', rfl, same⟩ := valid.spelled hinner
    refine ⟨.valuePath name' opening' c closing', .valuePath (hname.of_kind isName)
      ((hname.length_names isName).trans single) (hopen.of_kind opens) valid'
      (hclose.of_kind closes), rfl, ?_⟩
    show Node.valuePath ((pathOf name').mapNames f) ((c.tree.under (pathOf name')).mapNames f)
        none =
      Node.valuePath ((pathOf name).mapNames f) ((inner.tree.under (pathOf name)).mapNames f) none
    rw [Node.mapNames_under, Node.mapNames_under, hname.path isName, same]

theorem Links.Valid.spelled {place : Place} : {l : Links} → l.Valid place → {ts : List Token} →
    List.Forall₂ (Spelled f) l.tokens ts → ∃ l' : Links, l'.Valid place ∧ l'.tokens = ts ∧
      Node.mapLinks f l'.trees = Node.mapLinks f l.trees
  | _, .nil, _, .nil => ⟨.nil, .nil, rfl, rfl⟩
  | .cons link d more, .cons isLink valid more', _, h => by
    obtain ⟨link', rest, hlink, tail, rfl⟩ := List.forall₂_cons_left_iff.mp h
    obtain ⟨us, vs, rfl, hoperand, behind⟩ := exists_append_of_forall₂ tail
    obtain ⟨d', valid', rfl, tree⟩ := valid.spelled hoperand
    obtain ⟨l', more'', rfl, trees⟩ := more'.spelled behind
    refine ⟨.cons link' d' l', .cons (hlink.of_kind isLink) valid' more'', rfl, ?_⟩
    show (connectiveOf link', d'.tree.mapNames f) :: Node.mapLinks f l'.trees =
      (connectiveOf link, d.tree.mapNames f) :: Node.mapLinks f more.trees
    rw [hlink.connectiveOf_eq, tree, trees]

/-- **Tokens that are spelled alike have alike derivations**, of the same tree but for names. -/
theorem Chain.Valid.spelled {place : Place} : {c : Chain} → c.Valid place → {ts : List Token} →
    List.Forall₂ (Spelled f) c.tokens ts → ∃ c' : Chain, c'.Valid place ∧ c'.tokens = ts ∧
      c'.tree.mapNames f = c.tree.mapNames f
  | .mk first more, .mk valid more', _, h => by
    obtain ⟨us, vs, rfl, hfirst, behind⟩ := exists_append_of_forall₂ h
    obtain ⟨d, valid', rfl, tree⟩ := valid.spelled hfirst
    obtain ⟨l, more'', rfl, trees⟩ := more'.spelled behind
    refine ⟨.mk d l, .mk valid' more'', rfl, ?_⟩
    show (Node.chained d.tree l.trees).mapNames f = (Node.chained first.tree more.trees).mapNames f
    rw [Node.mapNames_chained, Node.mapNames_chained, tree, trees]

end

theorem Vacant.spelled {ts us : List Token} (h : Vacant ts)
    (same : List.Forall₂ (Spelled f) ts us) : Vacant us := by
  induction h generalizing us with
  | nil =>
    cases same
    exact .nil
  | group opens _ closes ih =>
    obtain ⟨opening', us, closing', _, rfl, hopen, hinner, hclose, ⟨⟩⟩ :=
      exists_enclosed_of_forall₂ same
    exact .group (hopen.of_kind opens) (ih hinner) (hclose.of_kind closes)
  | negation isWord opens _ closes ih =>
    obtain ⟨word', rest, hword, tail, rfl⟩ := List.forall₂_cons_left_iff.mp same
    obtain ⟨opening', us, closing', _, rfl, hopen, hinner, hclose, ⟨⟩⟩ :=
      exists_enclosed_of_forall₂ tail
    exact .negation (hword.of_kind isWord) (hopen.of_kind opens) (ih hinner) (hclose.of_kind closes)

end Phrase

namespace Descent

open Phrase

variable {f : String → String}

theorem Derived.spelled {place : Place} {node : Option Node} {ts us : List Token}
    (h : Derived place node ts) (same : List.Forall₂ (Spelled f) ts us) :
    ∃ node', Derived place node' us ∧ node'.map (Node.mapNames f) = node.map (Node.mapNames f) := by
  cases node with
  | none => exact ⟨none, Vacant.spelled h same, rfl⟩
  | some n =>
    obtain ⟨c, valid, rfl, rfl⟩ := h
    obtain ⟨c', valid', rfl, tree⟩ := valid.spelled same
    exact ⟨some c'.tree, ⟨c', valid', rfl, rfl⟩, congrArg some tree⟩

theorem SubAttribute.spelled {sub : Option String} {ts us : List Token} (h : SubAttribute sub ts)
    (same : List.Forall₂ (Spelled f) ts us) :
    ∃ sub', SubAttribute sub' us ∧ sub'.map f = sub.map f := by
  cases h with
  | none =>
    cases same
    exact ⟨Option.none, .none, rfl⟩
  | some isSub =>
    obtain ⟨t', _, ht, ⟨⟩, rfl⟩ := List.forall₂_cons_left_iff.mp same
    exact ⟨_, .some (ht.of_kind isSub), congrArg Option.some (ht.sub isSub)⟩

theorem DerivedTarget.spelled {n : Node} {ts us : List Token} (h : DerivedTarget n ts)
    (same : List.Forall₂ (Spelled f) ts us) :
    ∃ n', DerivedTarget n' us ∧ n'.mapNames f = n.mapNames f := by
  cases h with
  | simple isName =>
    obtain ⟨name', _, hname, ⟨⟩, rfl⟩ := List.forall₂_cons_left_iff.mp same
    exact ⟨_, .simple (hname.of_kind isName), congrArg Node.path (hname.path isName)⟩
  | @valuePath name _ sub _ _ isName single bracketed behind =>
    obtain ⟨name', _, hname, tail, rfl⟩ := List.forall₂_cons_left_iff.mp same
    obtain ⟨opens, valid, closes⟩ := bracketed
    obtain ⟨opening', us, closing', rest', rfl, hopen, hinner, hclose, hrest⟩ :=
      exists_enclosed_of_forall₂ tail
    obtain ⟨c', valid', rfl, tree⟩ := valid.spelled hinner
    obtain ⟨sub', behind', subs⟩ := SubAttribute.spelled behind hrest
    refine ⟨_, .valuePath (hname.of_kind isName) ((hname.length_names isName).trans single)
      (.mk (hopen.of_kind opens) valid' (hclose.of_kind closes)) behind', ?_⟩
    rw [Node.mapNames, Node.mapNames, Node.mapNames_under, Node.mapNames_under, hname.path isName,
      tree, subs]

end Descent

open Phrase

/-- **The grammar derives the same but for names** from tokens that are spelled alike. -/
theorem Mode.Derives.spelled {f : String → String} {mode : Mode} {node : Option Node}
    {ts us : List Token} (h : mode.Derives node ts) (same : List.Forall₂ (Spelled f) ts us) :
    ∃ node', mode.Derives node' us ∧ node'.map (Node.mapNames f) = node.map (Node.mapNames f) := by
  cases mode with
  | filter => exact Derived.spelled h same
  | path =>
    cases node with
    | none =>
      obtain rfl : ts = [] := h
      cases same
      exact ⟨none, rfl, rfl⟩
    | some n =>
      obtain ⟨n', derived, names⟩ := DerivedTarget.spelled h same
      exact ⟨some n', derived, congrArg some names⟩

end Scim
