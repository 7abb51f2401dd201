import Scim.Proofs.Parse.Accept
import Scim.Proofs.Parse.Guards
import Scim.Proofs.Phrase.Qualify

/-!
# Attributes before the comparisons in brackets

An attribute is put before each comparison between its brackets, once, and the path that this gives
is noted.

* `Node.bracketComparisons`    the comparisons between the brackets of value paths;
* `Node.moved`                 their paths;
* `Traced.Tells`               what is noted on the way to a result is read off the result;
* `Traced.tells_nested`        the readers of groups and brackets note what their tree has moved;
* `Mode.qualifies_once`        what is put before a tree, and what reading a text notes.
-/

namespace Scim

open Grammar

namespace Node

/-! ## Comparisons in brackets -/

mutual

/-- The comparisons between the brackets of value paths, from left to right. -/
def bracketComparisons : Node → List Comparison
  | negation inner => inner.bracketComparisons
  | connective _ children => bracketComparisonsOfAll children
  | valuePath _ inner _ => inner.comparisons
  | _ => []

/-- The comparisons of several trees between the brackets of value paths. -/
def bracketComparisonsOfAll : List Node → List Comparison
  | [] => []
  | n :: ns => n.bracketComparisons ++ bracketComparisonsOfAll ns

end

theorem bracketComparisonsOfAll_eq (ns : List Node) :
    bracketComparisonsOfAll ns = ns.flatMap bracketComparisons := by
  induction ns with
  | nil => rfl
  | cons n ns ih => rw [bracketComparisonsOfAll, ih, List.flatMap_cons]

mutual

theorem bracketComparisons_sublist : (n : Node) → n.bracketComparisons.Sublist n.comparisons
  | comparison _ => List.nil_sublist _
  | negation inner => bracketComparisons_sublist inner
  | connective _ children => bracketComparisonsOfAll_sublist children
  | valuePath _ _ _ => List.Sublist.refl _
  | path _ | missing => List.Sublist.refl _

theorem bracketComparisonsOfAll_sublist :
    (ns : List Node) → (bracketComparisonsOfAll ns).Sublist (comparisonsOfAll ns)
  | [] => List.Sublist.refl _
  | n :: ns => (bracketComparisons_sublist n).append (bracketComparisonsOfAll_sublist ns)

end

/-- The paths that were put below another one. -/
def moved (n : Node) : List AttributePath := n.bracketComparisons.map Comparison.path

theorem additive_moved : Additive moved := by
  intro kind children
  show (bracketComparisonsOfAll children).map Comparison.path = children.flatMap moved
  rw [bracketComparisonsOfAll_eq, List.map_flatMap]
  rfl

theorem Plain.moved {n : Node} (h : n.Plain) : n.moved = [] := by
  induction h with
  | comparison _ => rfl
  | negation _ ih => exact ih
  | connective kind _ ih => rw [additive_moved, List.flatMap_eq_nil_iff.mpr ih]

end Node

/-- The paths that were put below another one, if there is a tree. -/
def movedIn (n : Option Node) : List AttributePath := n.elim [] Node.moved

/-! ## What is noted on the way -/

/-- Behind `before`, what is noted on the way to a result is `notes` of the result. -/
def Traced.Tells {α : Type} (before : List AttributePath) (notes : α → List AttributePath)
    (x : Traced α) : Prop := ∀ a, x.result = .ok a → before ++ x.renamed = notes a

namespace Traced

variable {α β : Type} {before : List AttributePath} {notes : α → List AttributePath}

theorem tells_pure {a : α} (h : before = notes a) : (pure a : Traced α).Tells before notes := by
  intro b same
  obtain rfl := Except.ok.inj same
  exact (List.append_nil before).trans h

theorem tells_fail (e : Failed) : (fail e : Traced α).Tells before notes := nofun

theorem tells_note (paths : List AttributePath) :
    (note paths).Tells before fun _ => before ++ paths := fun _ _ => rfl

theorem tells_ofFailed {x : Except Failed α} (h : ∀ a, x = .ok a → before = notes a) :
    (ofFailed x).Tells before notes := by
  cases x with
  | ok a => exact tells_pure (h a rfl)
  | error e => exact tells_fail e

theorem tells_ofInvalid {x : Except Invalid α} (h : ∀ a, x = .ok a → before = notes a) :
    (ofInvalid x).Tells before notes := by
  cases x with
  | ok a => exact tells_pure (h a rfl)
  | error e => exact tells_fail (.invalid e)

theorem tells_ofFault (x : Except Fault α) : (ofFault x).Tells before fun _ => before := by
  cases x with
  | ok a => exact tells_pure rfl
  | error f => exact tells_fail (.fault f)

/-- **Notes are put together**: the second step starts behind those of the first. -/
theorem Tells.bind {x : Traced α} {f : α → Traced β} {all : β → List AttributePath}
    (h : x.Tells before notes) (next : ∀ a, (f a).Tells (notes a) all) :
    (x >>= f).Tells before all := by
  intro b same
  rw [result_bind] at same
  rw [renamed_bind]
  cases first : x.result with
  | error e =>
    rw [first] at same
    cases same
  | ok a =>
    rw [first] at same
    dsimp only
    rw [← List.append_assoc, h a first]
    exact next a b same

theorem Tells.behind {x : Traced α} (h : x.Tells [] notes) :
    x.Tells before fun a => before ++ notes a :=
  fun a same => congrArg (before ++ ·) (h a same)

theorem silent_bind {x : Except Fault α} {f : α → Traced β} {all : β → List AttributePath}
    (next : ∀ a, (f a).Tells before all) : (ofFault x >>= f).Tells before all :=
  (tells_ofFault x).bind next

theorem invalid_bind {x : Except Invalid α} {f : α → Traced β} {all : β → List AttributePath}
    (next : ∀ a, (f a).Tells before all) : (ofInvalid x >>= f).Tells before all :=
  (tells_ofInvalid fun _ _ => rfl).bind next

theorem tells_comparison (path : AttributePath) (c : Cursor) :
    (Grammar.comparison path c).Tells [] fun r => r.1.moved := by
  unfold Grammar.comparison Grammar.take
  refine silent_bind fun operator => ?_
  dsimp only
  split
  · exact invalid_bind fun _ => tells_pure rfl
  · refine silent_bind fun literal => ?_
    exact invalid_bind fun _ => invalid_bind fun _ => tells_pure rfl

theorem tells_within (path : AttributePath) (filter : Node) (sub : Option String) :
    (ofInvalid (Node.within path filter sub)).Tells (filter.comparisons.map Comparison.path)
      Node.moved := by
  refine tells_ofInvalid fun node built => ?_
  unfold Node.within at built
  split at built
  · obtain rfl := Except.ok.inj built
    rfl
  · cases built

theorem tells_assemble (first : Node) (more : List (Connective × Node)) :
    (ofFailed (Grammar.assemble first more)).Tells
      (first.moved ++ (more.map Prod.snd).flatMap Node.moved) Node.moved :=
  tells_ofFailed fun _ built => (Node.additive_moved.assemble built).symm

/-- What reads contents notes what its tree has moved. -/
def TellsInner (inner : Grammar.Inner) : Prop :=
  ∀ read ∈ inner, ∀ place c, (read place c).Tells [] fun r => movedIn r.1

section

variable {inner : Grammar.Inner} (h : TellsInner inner) (mode : Mode) (place : Place) (c : Cursor)

include h

theorem tells_descend_bind {f : (Place → Grammar.Reader) → Traced β}
    {all : β → List AttributePath}
    (next : ∀ read, (∀ place c, (read place c).Tells [] fun r => movedIn r.1) →
      (f read).Tells before all) :
    (Grammar.descend inner >>= f).Tells before all := by
  cases inner with
  | none => exact tells_fail .exhausted
  | some read => exact next read (h read rfl)

theorem tells_group : (Grammar.group mode inner place c).Tells [] fun r => movedIn r.1 := by
  unfold Grammar.group Grammar.take
  refine silent_bind fun _ => tells_descend_bind h fun read tells => ?_
  refine silent_bind fun _ => ?_
  dsimp only
  split
  · exact tells_pure rfl
  · refine silent_bind fun _ => (tells _ _).bind fun _ => ?_
    exact silent_bind fun _ => tells_pure rfl

theorem tells_negation : (Grammar.negation mode inner place c).Tells [] fun r => movedIn r.1 := by
  unfold Grammar.negation Grammar.take
  refine silent_bind fun _ => (tells_group h mode place _).bind fun ⟨node, _⟩ => tells_pure ?_
  cases node <;> rfl

theorem tells_bracketed (path : AttributePath) :
    (Grammar.bracketed inner path c).Tells [] fun r => r.1.comparisons.map Comparison.path := by
  unfold Grammar.bracketed Grammar.take
  refine silent_bind fun _ => tells_descend_bind h fun read tells => ?_
  refine (tells _ _).bind fun ⟨node, _⟩ => ?_
  dsimp only
  split
  · exact tells_fail _
  · next n filtered =>
    obtain ⟨rfl, -⟩ := Option.filter_eq_some_iff.mp filtered
    refine silent_bind fun _ => (tells_note _).bind fun _ => ?_
    split
    · exact tells_fail _
    · next clear =>
      refine tells_pure ?_
      show n.moved ++ _ = _
      rw [(Node.obstacle_eq_none_iff.mp clear).moved, Node.renamed_qualify path n clear]
      rfl

theorem tells_condition : (Grammar.condition inner place c).Tells [] fun r => movedIn r.1 := by
  unfold Grammar.condition Grammar.take
  refine silent_bind fun _ => invalid_bind fun path => ?_
  dsimp only
  split
  · split
    · exact tells_fail _
    · split
      · exact tells_fail _
      · refine (tells_bracketed h _ path).bind fun ⟨filter, _⟩ => ?_
        exact (tells_within path filter none).bind fun _ => tells_pure rfl
  · exact (tells_comparison _ _).bind fun _ => tells_pure rfl

theorem tells_operand : (Grammar.operand mode inner place c).Tells [] fun r => movedIn r.1 := by
  unfold Grammar.operand
  split
  · exact tells_group h mode place c
  · exact tells_negation h mode place c
  · exact tells_condition h place c
  · exact tells_fail _

theorem tells_moreOperands (n : Nat) :
    (Grammar.moreOperands (Grammar.operand mode inner place) n c).Tells []
      fun r => (r.1.map Prod.snd).flatMap Node.moved := by
  induction n generalizing c with
  | zero => exact tells_pure rfl
  | succ n ih =>
    unfold Grammar.moreOperands Grammar.take
    split
    · refine silent_bind fun _ => (tells_operand h mode place _).bind ?_
      rintro ⟨none | node, c⟩
      · exact tells_fail _
      · exact (ih c).behind.bind fun _ => tells_pure rfl
    · exact tells_pure rfl

theorem tells_expressionOver :
    (Grammar.expressionOver mode inner place c).Tells [] fun r => movedIn r.1 := by
  unfold Grammar.expressionOver
  refine (tells_operand h mode place c).bind fun ⟨first, _⟩ => ?_
  cases first with
  | none => exact tells_pure rfl
  | some node =>
    refine (tells_moreOperands h mode place _ _).behind.bind fun ⟨more, _⟩ => ?_
    dsimp only
    split
    · next alone =>
      obtain rfl := List.isEmpty_iff.mp alone
      exact tells_pure (List.append_nil _)
    · exact (tells_assemble node more).bind fun _ => tells_pure rfl

end

/-- **The readers of groups and brackets** note what their tree has moved. -/
theorem tells_nested (mode : Mode) (budget : Nat) : TellsInner (Grammar.nested mode budget) := by
  induction budget with
  | zero => nofun
  | succ budget ih =>
    intro read same place c
    obtain rfl := Option.some.inj same
    rw [Grammar.expression_eq]
    exact tells_expressionOver ih mode place c

theorem tells_subAttribute (c : Cursor) : (Path.subAttribute c).Tells before fun _ => before := by
  unfold Path.subAttribute Grammar.take
  split
  · exact silent_bind fun _ => tells_pure rfl
  · exact tells_pure rfl

theorem tells_target (budget : Nat) (c : Cursor) :
    (Path.target budget c).Tells [] fun r => r.1.moved := by
  unfold Path.target Grammar.take
  refine silent_bind fun _ => invalid_bind fun path => ?_
  dsimp only
  split
  · split
    · exact tells_fail _
    · refine (tells_bracketed (tells_nested .path budget) _ path).bind fun ⟨filter, _⟩ => ?_
      refine (tells_subAttribute _).bind fun ⟨sub, _⟩ => ?_
      exact (tells_within path filter sub).bind fun _ => tells_pure rfl
  · exact tells_pure rfl

end Traced

namespace Mode

open Traced

theorem tells_read (mode : Mode) (limits : Limits) (text : String) :
    (mode.read limits text).Tells [] movedIn := by
  cases mode with
  | filter =>
    refine (tells_ofFailed fun _ _ => rfl).bind fun c => ?_
    unfold Filter.readAt
    split
    · rw [Grammar.expression_eq]
      refine (tells_expressionOver (tells_nested .filter _) .filter .filter c).bind fun _ => ?_
      exact silent_bind fun _ => tells_pure rfl
    · exact tells_pure rfl
  | path =>
    refine (tells_ofFailed fun _ _ => rfl).bind fun c => ?_
    unfold Path.readAt
    split
    · refine (tells_target _ c).bind fun _ => ?_
      exact silent_bind fun _ => tells_pure rfl
    · exact tells_pure rfl

/-- **An attribute is put before each comparison in its brackets, exactly and once.**  The steps
that put `p` before a tree meet no obstacle if and only if the tree is made of comparisons,
negations and connectives; any obstacle is none of these, and an internal problem.  Without one the
tree stays as it is, but for the schema and the names of its comparisons.  To put `q` and then `p`
there is to put one path there.  And the names that are noted while a text is read are those of the
comparisons in the brackets of its tree, in their order, each once. -/
theorem qualifies_once :
    (∀ (p : AttributePath) (n : Node),
      ((n.qualify p).obstacle = none ↔ n.Plain) ∧
      (¬ n.Plain → ∃ o, (n.qualify p).obstacle = some o ∧ isCondition o = false ∧
        (Problem.obstacle p o).kind = .internal) ∧
      (n.Plain → n.Placed p (n.qualify p).tree ∧
        (n.qualify p).tree.comparisons = n.comparisons.map fun c =>
          ⟨⟨p.schema, p.names ++ c.path.names⟩, c.operator, c.value⟩) ∧
      ∀ q : AttributePath,
        (n.qualify q).tree.qualify p = n.qualify ⟨p.schema, p.names ++ q.names⟩) ∧
    ∀ (mode : Mode) (limits : Limits) (text : String) (node : Option Node),
      mode.parse limits text = .ok node →
        (mode.read limits text).renamed.map AttributePath.fullName =
            (node.elim [] Node.bracketComparisons).map (fun c => c.path.fullName) ∧
          (node.elim [] Node.bracketComparisons).Sublist (node.elim [] Node.comparisons) := by
  refine ⟨fun p n => ⟨Node.obstacle_eq_none_iff, ?_, ?_, fun q => Node.qualify_qualify p q n⟩, ?_⟩
  · intro other
    obtain ⟨o, met⟩ := Node.exists_obstacle other p
    exact ⟨o, met, Node.isCondition_obstacle n met, rfl⟩
  · intro plain
    refine ⟨Node.placed_qualify plain, ?_⟩
    rw [(Node.qualify_eq p n plain).1, Node.comparisons_under p n plain]
    rfl
  · intro mode limits text node accepted
    rw [parse_eq_read] at accepted
    have told := mode.tells_read limits text node (refuse_eq_ok_iff.mp accepted)
    rw [List.nil_append] at told
    rw [told]
    cases node with
    | none => exact ⟨rfl, List.Sublist.refl _⟩
    | some n => exact ⟨List.map_map .., n.bracketComparisons_sublist⟩

/-- an attribute path is an obstacle, a negated comparison is none; and of three comparisons the two
in brackets are noted -/
theorem notes_around_brackets :
    let a : AttributePath := ⟨none, ["a"]⟩
    let negated : Node := .negation (.comparison ⟨⟨some "urn", ["c"]⟩, .eq, .int 1⟩)
    let tree : Node := .connective .disjunction
      [.valuePath a (.connective .conjunction [.comparison ⟨⟨none, ["a", "b"]⟩, .pr, .null⟩,
          .negation (.comparison ⟨⟨none, ["a", "c"]⟩, .eq, .int 1⟩)]) none,
        .comparison ⟨⟨none, ["d"]⟩, .pr, .null⟩]
    (¬ (Node.path a).Plain ∧ ∃ o, ((Node.path a).qualify a).obstacle = some o ∧
      isCondition o = false ∧ (Problem.obstacle a o).kind = .internal) ∧
    (negated.Plain ∧ negated.Placed a (negated.qualify a).tree ∧
      (negated.qualify a).tree.comparisons = [⟨⟨none, ["a", "c"]⟩, .eq, .int 1⟩]) ∧
    Mode.filter.parse .unlimited "a[b pr and not(c EQ 1)] or d pr" = .ok (some tree) ∧
      (Mode.filter.read .unlimited "a[b pr and not(c EQ 1)] or d pr").renamed.map
        AttributePath.fullName = ["a.b", "a.c"] := by
  intro a negated tree
  have scanned : scan .filter "a[b pr and not(c EQ 1)] or d pr".toList 0 = .ok
      [⟨.name, ['a'], 0⟩, ⟨.openBracket, ['['], 1⟩, ⟨.name, ['b'], 2⟩,
        ⟨.comparison, [' ', 'p', 'r'], 3⟩, ⟨.logical, [' ', 'a', 'n', 'd', ' '], 6⟩,
        ⟨.negation, ['n', 'o', 't'], 11⟩, ⟨.openParen, ['('], 14⟩, ⟨.name, ['c'], 15⟩,
        ⟨.comparison, [' ', 'E', 'Q', ' '], 16⟩, ⟨.number, ['1'], 20⟩, ⟨.closeParen, [')'], 21⟩,
        ⟨.closeBracket, [']'], 22⟩, ⟨.logical, [' ', 'o', 'r', ' '], 23⟩, ⟨.name, ['d'], 27⟩,
        ⟨.comparison, [' ', 'p', 'r'], 28⟩] := by rfl
  have group : (Phrase.Chain.mk (.comparison ⟨.name, ['c'], 15⟩
      ⟨.comparison, [' ', 'E', 'Q', ' '], 16⟩ ⟨.number, ['1'], 20⟩ .eq (.int 1)) .nil).Valid
        .brackets :=
    .mk (.comparison rfl rfl (by decide) (by decide) (.whole rfl (by decide) (by decide))) .nil
  have inner : (Phrase.Chain.mk (.presence ⟨.name, ['b'], 2⟩ ⟨.comparison, [' ', 'p', 'r'], 3⟩)
      (.cons ⟨.logical, [' ', 'a', 'n', 'd', ' '], 6⟩
        (.negation ⟨.negation, ['n', 'o', 't'], 11⟩ ⟨.openParen, ['('], 14⟩ _
          ⟨.closeParen, [')'], 21⟩) .nil)).Valid .brackets :=
    .mk (.presence rfl rfl (by decide)) (.cons rfl (.negation rfl rfl group rfl) .nil)
  have valid : (Phrase.Chain.mk (.valuePath ⟨.name, ['a'], 0⟩ ⟨.openBracket, ['['], 1⟩ _
      ⟨.closeBracket, [']'], 22⟩) (.cons ⟨.logical, [' ', 'o', 'r', ' '], 23⟩
        (.presence ⟨.name, ['d'], 27⟩ ⟨.comparison, [' ', 'p', 'r'], 28⟩) .nil)).Valid .filter :=
    .mk (.valuePath rfl rfl rfl inner rfl) (.cons rfl (.presence rfl rfl (by decide)) .nil)
  have accepted : Mode.filter.parse .unlimited "a[b pr and not(c EQ 1)] or d pr" =
      .ok (some tree) := (Mode.parse_eq_ok_iff scanned).mpr ⟨_, valid, by rfl, rfl⟩
  have other : ¬ (Node.path a).Plain := nofun
  have plain : negated.Plain := .negation (.comparison _)
  obtain ⟨-, obstacle, -, -⟩ := qualifies_once.1 a (.path a)
  obtain ⟨-, -, placed, -⟩ := qualifies_once.1 a negated
  exact ⟨⟨other, obstacle other⟩, ⟨plain, (placed plain).1, (placed plain).2⟩, accepted,
    (qualifies_once.2 _ _ _ _ accepted).1⟩

end Mode

end Scim
