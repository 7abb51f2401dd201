import Scim.Proofs.Parse.Basic

/-!
# Guards that no text meets

Some steps are guarded against trees that no step before them builds: an attribute path needs a
name, a connective two children, a value path a top-level attribute, linked operands make a
connective, and what stands between brackets can be put below an attribute.

* `Refusal.isGuard`             a refusal by one of the guards;
* `Traced.Named`                every path that is made on the way, also to a failure, has a name;
* `Traced.named_nested`         the readers of groups and brackets make no other paths;
* `Mode.refused_by_no_guard`    no text meets a guard.
-/

namespace Scim

open Grammar Descent

/-- A refusal by a guard: of an internal problem, of an attribute path without a name, of a
connective or a value path that cannot be built, or of no operands at all. -/
def Refusal.isGuard : Refusal → Bool
  | problem p => p.kind == .internal
  | invalid .noName | invalid (.fewChildren _) | invalid .deepValuePath | invalid .noChild => true
  | invalid _ => false

theorem Refusal.isGuard_ofFault (mode : Mode) (text : String) (f : Fault) :
    (Refusal.problem (.ofFault mode text f)).isGuard = false := by
  unfold Problem.ofFault Refusal.isGuard
  cases f.cause.isValuePath <;> rfl

theorem Descent.Breaks.isGuard {place : Place} {ts : List Token} {e : Invalid}
    (h : Breaks place ts e) : (Refusal.invalid e).isGuard = false := by
  induction h with
  | longNumber _ _ _ _ => rfl
  | unknownOperator _ _ _ _ => rfl
  | group _ _ _ _ ih | negation _ _ _ _ _ ih | valuePath _ _ _ _ ih | later _ _ _ ih => exact ih

theorem Mode.Breaks.isGuard {mode : Mode} {ts : List Token} {e : Invalid} (h : mode.Breaks ts e) :
    (Refusal.invalid e).isGuard = false := by
  cases mode with
  | filter => exact Descent.Breaks.isGuard h
  | path =>
    cases h with
    | brackets _ _ _ broken => exact broken.isGuard

/-! ## Paths on the way -/

/-- Every path that is made on the way has a name. -/
def Traced.Named {α : Type} (x : Traced α) : Prop := ∀ p ∈ x.renamed, p.names ≠ []

namespace Traced

variable {α β : Type}

theorem named_pure (a : α) : (pure a : Traced α).Named := List.forall_mem_nil _

theorem named_fail (e : Failed) : (fail e : Traced α).Named := List.forall_mem_nil _

theorem named_ofFailed (x : Except Failed α) : (ofFailed x).Named := by
  cases x <;> exact List.forall_mem_nil _

theorem named_ofFault (x : Except Fault α) : (ofFault x).Named := by
  cases x <;> exact List.forall_mem_nil _

theorem named_ofInvalid (x : Except Invalid α) : (ofInvalid x).Named := by
  cases x <;> exact List.forall_mem_nil _

theorem Named.bind {x : Traced α} {f : α → Traced β} (h : x.Named) (next : ∀ a, (f a).Named) :
    (x >>= f).Named := by
  intro p mem
  rw [renamed_bind] at mem
  rcases List.mem_append.mp mem with mem | mem
  · exact h p mem
  · split at mem
    · exact next _ p mem
    · cases mem

end Traced

mutual

theorem Node.exists_under_of_qualify (outer : AttributePath) : (n : Node) →
    ∀ p ∈ (n.qualify outer).renamed, ∃ q, p = outer.under q
  | .comparison c => fun _ mem => ⟨c.path, List.mem_singleton.mp mem⟩
  | .negation inner => exists_under_of_qualify outer inner
  | .connective _ children => exists_under_of_qualifyAll outer children
  | .path _ => List.forall_mem_nil _
  | .valuePath _ _ _ => List.forall_mem_nil _
  | .missing => List.forall_mem_nil _

theorem Node.exists_under_of_qualifyAll (outer : AttributePath) : (ns : List Node) →
    ∀ p ∈ (qualifyAll outer ns).renamed, ∃ q, p = outer.under q
  | [] => List.forall_mem_nil _
  | n :: ns => by
    have here := exists_under_of_qualify outer n
    have later := exists_under_of_qualifyAll outer ns
    unfold qualifyAll
    dsimp only
    split
    · exact here
    · intro p mem
      exact (List.mem_append.mp mem).elim (here p) (later p)

end

namespace Traced

theorem named_qualify {outer : AttributePath} (named : outer.names ≠ []) (n : Node) :
    (note (n.qualify outer).renamed).Named := by
  intro p mem
  obtain ⟨q, rfl⟩ := n.exists_under_of_qualify outer p mem
  exact List.append_ne_nil_of_left_ne_nil named q.names

theorem named_comparison (path : AttributePath) (c : Cursor) :
    (Grammar.comparison path c).Named := by
  unfold Grammar.comparison Grammar.take
  refine (named_ofFault _).bind fun operator => ?_
  dsimp only
  split
  · exact (named_ofInvalid _).bind fun _ => named_pure _
  · refine (named_ofFault _).bind fun literal => ?_
    exact (named_ofInvalid _).bind fun _ => (named_ofInvalid _).bind fun _ => named_pure _

/-- What reads contents makes paths with names only. -/
def NamedInner (inner : Grammar.Inner) : Prop :=
  ∀ read ∈ inner, ∀ place c, (read place c).Named

section

variable {inner : Grammar.Inner} (h : NamedInner inner) (mode : Mode) (place : Place) (c : Cursor)

include h

theorem named_descend_bind {β : Type} {f : (Place → Grammar.Reader) → Traced β}
    (next : ∀ read, (∀ place c, (read place c).Named) → (f read).Named) :
    (Grammar.descend inner >>= f).Named := by
  cases inner with
  | none => exact named_fail .exhausted
  | some read => exact next read (h read rfl)

theorem named_group : (Grammar.group mode inner place c).Named := by
  unfold Grammar.group Grammar.take
  refine (named_ofFault _).bind fun _ => named_descend_bind h fun read named => ?_
  refine (named_ofFault _).bind fun _ => ?_
  dsimp only
  split
  · exact named_pure _
  · refine (named_ofFault _).bind fun _ => (named _ _).bind fun _ => ?_
    exact (named_ofFault _).bind fun _ => named_pure _

theorem named_negation : (Grammar.negation mode inner place c).Named := by
  unfold Grammar.negation Grammar.take
  refine (named_ofFault _).bind fun _ => ?_
  exact (named_group h mode place _).bind fun _ => named_pure _

theorem named_bracketed {path : AttributePath} (single : path.names.length = 1) :
    (Grammar.bracketed inner path c).Named := by
  have named : path.names ≠ [] := List.ne_nil_of_length_eq_add_one single
  unfold Grammar.bracketed Grammar.take
  refine (named_ofFault _).bind fun _ => named_descend_bind h fun read inside => ?_
  refine (inside _ _).bind fun ⟨node, _⟩ => ?_
  dsimp only
  split
  · exact named_fail _
  · refine (named_ofFault _).bind fun _ => (named_qualify named _).bind fun _ => ?_
    split
    · exact named_fail _
    · exact named_pure _

theorem named_condition : (Grammar.condition inner place c).Named := by
  unfold Grammar.condition Grammar.take
  refine (named_ofFault _).bind fun _ => (named_ofInvalid _).bind fun path => ?_
  dsimp only
  split
  · split
    · exact named_fail _
    · split
      · exact named_fail _
      · next single =>
        refine (named_bracketed h _ (Decidable.not_not.mp single)).bind fun _ => ?_
        exact (named_ofInvalid _).bind fun _ => named_pure _
  · exact (named_comparison _ _).bind fun _ => named_pure _

theorem named_operand : (Grammar.operand mode inner place c).Named := by
  unfold Grammar.operand
  split
  · exact named_group h mode place c
  · exact named_negation h mode place c
  · exact named_condition h place c
  · exact named_fail _

theorem named_moreOperands (n : Nat) :
    (Grammar.moreOperands (Grammar.operand mode inner place) n c).Named := by
  induction n generalizing c with
  | zero => exact named_pure _
  | succ n ih =>
    unfold Grammar.moreOperands Grammar.take
    split
    · refine (named_ofFault _).bind fun _ => (named_operand h mode place _).bind fun _ => ?_
      split
      · exact named_fail _
      · exact (ih _).bind fun _ => named_pure _
    · exact named_pure _

theorem named_expressionOver : (Grammar.expressionOver mode inner place c).Named := by
  unfold Grammar.expressionOver
  refine (named_operand h mode place c).bind fun ⟨first, _⟩ => ?_
  cases first with
  | none => exact named_pure _
  | some node =>
    refine (named_moreOperands h mode place _ _).bind fun _ => ?_
    dsimp only
    split
    · exact named_pure _
    · exact (named_ofFailed _).bind fun _ => named_pure _

end

/-- **The readers of groups and brackets** make paths with names only. -/
theorem named_nested (mode : Mode) (budget : Nat) : NamedInner (Grammar.nested mode budget) := by
  induction budget with
  | zero => nofun
  | succ budget ih =>
    intro read same place c
    obtain rfl := Option.some.inj same
    rw [Grammar.expression_eq]
    exact named_expressionOver ih mode place c

theorem named_subAttribute (c : Cursor) : (Path.subAttribute c).Named := by
  unfold Path.subAttribute Grammar.take
  split
  · exact (named_ofFault _).bind fun _ => named_pure _
  · exact named_pure _

theorem named_target (budget : Nat) (c : Cursor) : (Path.target budget c).Named := by
  unfold Path.target Grammar.take
  refine (named_ofFault _).bind fun _ => (named_ofInvalid _).bind fun path => ?_
  dsimp only
  split
  · split
    · exact named_fail _
    · next single =>
      have top := Decidable.not_not.mp single
      refine (named_bracketed (named_nested .path budget) _ top).bind fun _ => ?_
      refine (named_subAttribute _).bind fun _ => ?_
      exact (named_ofInvalid _).bind fun _ => named_pure _
  · exact named_pure _

end Traced

namespace Mode

open Traced

/-- The reader of a language, which notes the paths that it makes. -/
def read : Mode → Limits → String → Traced (Option Node)
  | filter => Filter.read
  | path => Path.read

theorem parse_eq_read (mode : Mode) (limits : Limits) (text : String) :
    mode.parse limits text = refuse mode text (mode.read limits text).result := by
  cases mode <;> rfl

theorem named_read (mode : Mode) (limits : Limits) (text : String) :
    (mode.read limits text).Named := by
  cases mode with
  | filter =>
    refine (named_ofFailed _).bind fun c => ?_
    unfold Filter.readAt
    split
    · rw [Grammar.expression_eq]
      refine (named_expressionOver (named_nested .filter _) .filter .filter c).bind fun _ => ?_
      exact (named_ofFault _).bind fun _ => named_pure _
    · exact named_pure _
  | path =>
    refine (named_ofFailed _).bind fun c => ?_
    unfold Path.readAt
    split
    · refine (named_target _ c).bind fun _ => ?_
      exact (named_ofFault _).bind fun _ => named_pure _
    · exact named_pure _

/-- **No text meets a guard**, whatever the limits are: none is refused by one, and no path is made
without a name on the way to a tree or to a refusal. -/
theorem refused_by_no_guard (mode : Mode) (limits : Limits) (text : String) :
    (∀ r, mode.parse limits text = .error r → r.isGuard = false) ∧
      ∀ p ∈ (mode.read limits text).renamed, p.names ≠ [] := by
  refine ⟨?_, named_read mode limits text⟩
  intro r refused
  cases refused_of_parse refused with
  | length _ => rfl
  | depth _ _ => rfl
  | stray _ => exact Refusal.isGuard_ofFault mode text _
  | fault _ _ => exact Refusal.isGuard_ofFault mode text _
  | invalid _ breaks => exact breaks.isGuard

/-- a path is made below the brackets, before the operator at the end is refused -/
theorem refused_behind_brackets :
    ∃ r, Mode.filter.parse .unlimited "a[b pr] or" = .error r ∧ r.isGuard = false ∧
      (Mode.filter.read .unlimited "a[b pr] or").renamed = [⟨none, ["a", "b"]⟩] ∧
      ∀ p ∈ (Mode.filter.read .unlimited "a[b pr] or").renamed, p.names ≠ [] := by
  have scanned : scan .filter "a[b pr] or".toList 0 = .ok
      [⟨.name, ['a'], 0⟩, ⟨.openBracket, ['['], 1⟩, ⟨.name, ['b'], 2⟩,
        ⟨.comparison, [' ', 'p', 'r'], 3⟩, ⟨.closeBracket, [']'], 6⟩,
        ⟨.name, ['o', 'r'], 8⟩] := by rfl
  have refused : Mode.filter.parse .unlimited "a[b pr] or" = .error
      (.problem (.ofFault .filter "a[b pr] or" ⟨.danglingOperator, some ['o', 'r'], 8⟩)) := by
    rw [Mode.parse_unlimited scanned]
    rfl
  have length : "a[b pr] or".length = 10 := by rfl
  have made : (Mode.filter.read .unlimited "a[b pr] or").renamed = [⟨none, ["a", "b"]⟩] := by
    show (Traced.ofFailed (Limits.unlimited.start .filter "a[b pr] or") >>=
      Filter.readAt "a[b pr] or".length).renamed = _
    rw [Limits.start_unlimited, scanned, length]
    rfl
  obtain ⟨unguarded, named⟩ := refused_by_no_guard .filter .unlimited "a[b pr] or"
  exact ⟨_, refused, unguarded _ refused, made, named⟩

end Mode

end Scim
