import Scim.Proofs.Phrase.Alike

/-!
# Reading tokens that say the same

The descent reads two lists of tokens that are alike side by side: it returns the same from both, or
meets the same failure in both, if places and the texts of operators do not count.

* `Failed.Like`                    failures that differ in the token and the place at most;
* `Parallel R x y`                 results that are related, or like failures;
* `Parallel.bind`                  two steps one after the other;
* `parallel_expressionOver`        an expression, if groups and brackets are read side by side;
* `Mode.parallel_descend`          filters and paths.
-/

namespace Scim

open Grammar Phrase

/-- Failures for the same cause, wherever it shows. -/
inductive Failed.Like : Failed → Failed → Prop where
  | fault {f g : Fault} : g.cause = f.cause → Like (.fault f) (.fault g)
  | same (e : Failed) : Like e e

namespace Descent

variable {α β γ δ : Type}

/-- Related results, or like failures. -/
inductive Parallel (R : α → β → Prop) : Except Failed α → Except Failed β → Prop where
  | ok {a : α} {b : β} : R a b → Parallel R (.ok a) (.ok b)
  | error {e e' : Failed} : e.Like e' → Parallel R (.error e) (.error e')

theorem Parallel.bind {R : α → β → Prop} {S : γ → δ → Prop} {x : Except Failed α}
    {y : Except Failed β} {f : α → Except Failed γ} {g : β → Except Failed δ} (h : Parallel R x y)
    (next : ∀ a b, R a b → Parallel S (f a) (g b)) : Parallel S (x >>= f) (y >>= g) := by
  cases h with
  | ok related => exact next _ _ related
  | error like => exact .error like

theorem Parallel.step {S : γ → δ → Prop} (x : Except Failed α) {f : α → Except Failed γ}
    {g : α → Except Failed δ} (next : ∀ a, Parallel S (f a) (g a)) :
    Parallel S (x >>= f) (x >>= g) := by
  cases x with
  | ok a => exact next a
  | error e => exact .error (.same e)

/-- Related results before lists of tokens that are alike. -/
def Beside (R : α → β → Prop) (p : α × List Token) (q : β × List Token) : Prop :=
  R p.1 q.1 ∧ List.Forall₂ Alike p.2 q.2

def ParallelReaders (u v : Reader α) : Prop :=
  ∀ stop stop' ts us, List.Forall₂ Alike ts us → Parallel (Beside Eq) (u stop ts) (v stop' us)

/-- What reads contents of groups and brackets side by side. -/
def ParallelInner : Inner → Inner → Prop
  | none, none => True
  | some u, some v => ∀ place, ParallelReaders (u place) (v place)
  | _, _ => False

variable {stop stop' : Int} {ts us : List Token} (h : List.Forall₂ Alike ts us)

/-! ## Single tokens -/

/-- Alike tokens of one of the kinds. -/
def Taken (kinds : List Kind) (t u : Token) : Prop := Alike t u ∧ t.kind ∈ kinds

include h

theorem parallel_take (kinds : List Kind) :
    Parallel (Beside (Taken kinds)) (take kinds stop ts) (take kinds stop' us) := by
  cases h with
  | nil => exact .error (.fault rfl)
  | @cons t u ts us first rest =>
    unfold take
    dsimp only
    rw [first.kind]
    split
    · next known => exact .ok ⟨⟨first, List.contains_iff_mem.mp known⟩, rest⟩
    · exact .error (.fault rfl)

theorem parallel_expectEnd : Parallel Eq (expectEnd stop ts) (expectEnd stop' us) := by
  cases h with
  | nil => exact .ok rfl
  | @cons t u ts us first rest =>
    have same : isDangling u = isDangling t := by
      unfold isDangling
      by_cases isName : t.kind = .name
      · rw [first.kind, first.text_eq isName (by decide)]
      · rw [first.kind, beq_false_of_ne isName, Bool.false_and, Bool.false_and]
    unfold expectEnd
    dsimp only
    rw [same]
    split
    · exact .error (.fault rfl)
    · exact .error (.fault rfl)

theorem isNext_alike (kind : Kind) : isNext kind us = isNext kind ts := by
  cases h with
  | nil => rfl
  | cons first rest =>
    show (_ == kind) = (_ == kind)
    rw [first.kind]

/-! ## Comparisons -/

theorem parallel_comparison (path : AttributePath) :
    Parallel (Beside Eq) (comparison path stop ts) (comparison path stop' us) := by
  unfold comparison
  refine (parallel_take h _).bind ?_
  rintro ⟨operator, ts⟩ ⟨operator', us⟩ ⟨⟨alike, -⟩, rest⟩
  dsimp only
  rw [alike.word]
  split
  · exact .step _ fun made => .ok ⟨rfl, rest⟩
  · refine (parallel_take rest _).bind ?_
    rintro ⟨literal, ts⟩ ⟨literal', us⟩ ⟨⟨alike, known⟩, rest⟩
    dsimp only
    rw [alike.value_eq known]
    exact .step _ fun v => .step _ fun made => .ok ⟨rfl, rest⟩

/-! ## Groups and brackets -/

theorem forall₂_runUntil (close : Kind) (opening : Option Kind) (depth : Nat) :
    List.Forall₂ Alike (Cursor.runUntil close opening depth ts)
        (Cursor.runUntil close opening depth us) ∧
      List.Forall₂ Alike (ts.drop (Cursor.runUntil close opening depth ts).length)
        (us.drop (Cursor.runUntil close opening depth us).length) := by
  induction h generalizing depth with
  | nil => exact ⟨.nil, .nil⟩
  | @cons t u ts us first rest ih =>
    have goesOn (depth : Nat) := And.imp_left (List.Forall₂.cons first) (ih depth)
    unfold Cursor.runUntil
    rw [first.kind]
    split
    · cases depth with
      | zero => exact ⟨.nil, .cons first rest⟩
      | succ depth => exact goesOn depth
    · split
      · exact goesOn (depth + 1)
      · exact goesOn depth

theorem forall₂_enclosed : List.Forall₂ Alike (enclosed ts) (enclosed us) ∧
    List.Forall₂ Alike (ts.drop (enclosed ts).length) (us.drop (enclosed us).length) :=
  forall₂_runUntil h .closeParen (some .openParen) 0

theorem parallel_contents {u v : Place → Reader (Option Node)} {place : Place}
    (inner : ParallelReaders (u place) (v place)) :
    Parallel Eq (contents u place ts) (contents v place us) := by
  unfold contents
  cases h with
  | nil => exact .ok rfl
  | @cons t t' ts us first rest =>
    rw [List.getLast?_eq_some_getLast (List.cons_ne_nil t ts),
      List.getLast?_eq_some_getLast (List.cons_ne_nil t' us)]
    dsimp only
    refine (inner _ _ _ _ (.cons first rest)).bind ?_
    rintro ⟨node, ts⟩ ⟨node', us⟩ ⟨rfl, rest⟩
    exact (parallel_expectEnd rest).bind fun _ _ _ => .ok rfl

section

variable {x y : Inner} (inner : ParallelInner x y) (place : Place)

include inner

omit h in
theorem parallel_descend_bind {S : γ → δ → Prop}
    {f : (Place → Reader (Option Node)) → Except Failed γ}
    {g : (Place → Reader (Option Node)) → Except Failed δ}
    (next : ∀ u v, (∀ place, ParallelReaders (u place) (v place)) → Parallel S (f u) (g v)) :
    Parallel S (descend x >>= f) (descend y >>= g) := by
  cases x with
  | none =>
    cases y with
    | none => exact .error (.same _)
    | some v => cases inner
  | some u =>
    cases y with
    | none => cases inner
    | some v => exact next u v inner

theorem parallel_group : Parallel (Beside Eq) (group x place stop ts) (group y place stop' us) := by
  unfold group
  refine (parallel_take h _).bind ?_
  rintro ⟨opening, ts⟩ ⟨opening', us⟩ ⟨-, rest⟩
  refine parallel_descend_bind inner fun u v readers => ?_
  obtain ⟨inside, behind⟩ := forall₂_enclosed rest
  refine (parallel_take behind _).bind ?_
  rintro ⟨closing, ts'⟩ ⟨closing', us'⟩ ⟨-, behind⟩
  refine (parallel_contents inside (readers place)).bind ?_
  rintro node _ rfl
  exact .ok ⟨rfl, behind⟩

theorem parallel_negation :
    Parallel (Beside Eq) (negation x place stop ts) (negation y place stop' us) := by
  unfold negation
  refine (parallel_take h _).bind ?_
  rintro ⟨word, ts⟩ ⟨word', us⟩ ⟨-, rest⟩
  refine (parallel_group rest inner place).bind ?_
  rintro ⟨node, ts⟩ ⟨node', us⟩ ⟨rfl, rest⟩
  exact .ok ⟨rfl, rest⟩

theorem parallel_bracketed (path : AttributePath) :
    Parallel (Beside Eq) (bracketed x path stop ts) (bracketed y path stop' us) := by
  unfold bracketed
  refine (parallel_take h _).bind ?_
  rintro ⟨opening, ts⟩ ⟨opening', us⟩ ⟨-, rest⟩
  refine parallel_descend_bind inner fun u v readers => ?_
  refine (readers .brackets _ _ _ _ rest).bind ?_
  rintro ⟨node, ts⟩ ⟨node', us⟩ ⟨rfl, rest⟩
  dsimp only
  split
  · exact .error (.fault rfl)
  · refine (parallel_take rest _).bind ?_
    rintro ⟨closing, ts⟩ ⟨closing', us⟩ ⟨-, rest⟩
    dsimp only
    split
    · exact .error (.same _)
    · exact .ok ⟨rfl, rest⟩

theorem parallel_condition :
    Parallel (Beside Eq) (condition x place stop ts) (condition y place stop' us) := by
  unfold condition
  refine (parallel_take h _).bind ?_
  rintro ⟨name, ts⟩ ⟨name', us⟩ ⟨⟨alike, known⟩, rest⟩
  dsimp only
  rw [alike.text_eq (List.mem_singleton.mp known) (by decide), isNext_alike rest]
  refine .step _ fun path => ?_
  split
  · split
    · exact .error (.fault rfl)
    · split
      · exact .error (.fault rfl)
      · refine (parallel_bracketed rest inner path).bind ?_
        rintro ⟨filter, ts⟩ ⟨filter', us⟩ ⟨rfl, rest⟩
        exact .step _ fun node => .ok ⟨rfl, rest⟩
  · refine (parallel_comparison rest path).bind ?_
    rintro ⟨node, ts⟩ ⟨node', us⟩ ⟨rfl, rest⟩
    exact .ok ⟨rfl, rest⟩

/-! ## Chains -/

theorem parallel_operand :
    Parallel (Beside Eq) (operand x place stop ts) (operand y place stop' us) := by
  have first : us.head?.map Token.kind = ts.head?.map Token.kind := by
    cases h with
    | nil => rfl
    | cons first rest => exact congrArg some first.kind
  unfold operand
  rw [first]
  split
  · exact parallel_group h inner place
  · exact parallel_negation h inner place
  · exact parallel_condition h inner place
  · exact .error (.fault rfl)

theorem parallel_moreOperands (n : Nat) :
    Parallel (Beside Eq) (moreOperands (operand x place) n stop ts)
      (moreOperands (operand y place) n stop' us) := by
  induction n generalizing ts us with
  | zero => exact .ok ⟨rfl, h⟩
  | succ n ih =>
    unfold moreOperands
    rw [isNext_alike h]
    split
    · refine (parallel_take h _).bind ?_
      rintro ⟨link, ts⟩ ⟨link', us⟩ ⟨⟨alike, -⟩, rest⟩
      refine (parallel_operand rest inner place).bind ?_
      rintro ⟨node, ts⟩ ⟨node', us⟩ ⟨rfl, rest⟩
      cases node with
      | none => exact .error (.fault rfl)
      | some node =>
        refine (ih rest).bind ?_
        rintro ⟨more, ts⟩ ⟨more', us⟩ ⟨rfl, rest⟩
        dsimp only
        rw [alike.connectiveOf_eq]
        exact .ok ⟨rfl, rest⟩
    · exact .ok ⟨rfl, h⟩

/-- **An expression**, if groups and brackets are read side by side. -/
theorem parallel_expressionOver :
    Parallel (Beside Eq) (expressionOver x place stop ts) (expressionOver y place stop' us) := by
  unfold expressionOver
  refine (parallel_operand h inner place).bind ?_
  rintro ⟨first, ts⟩ ⟨first', us⟩ ⟨rfl, rest⟩
  cases first with
  | none => exact .ok ⟨rfl, rest⟩
  | some node =>
    dsimp only
    rw [← rest.length_eq]
    refine (parallel_moreOperands rest inner place _).bind ?_
    rintro ⟨more, ts⟩ ⟨more', us⟩ ⟨rfl, rest⟩
    dsimp only
    split
    · exact .ok ⟨rfl, rest⟩
    · exact .step _ fun tree => .ok ⟨rfl, rest⟩

end

omit h

theorem parallel_nested (budget : Nat) : ParallelInner (nested budget) (nested budget) := by
  induction budget with
  | zero => trivial
  | succ budget ih =>
    intro place stop stop' ts us h
    rw [expression_eq]
    exact parallel_expressionOver h ih place

include h

/-! ## Filters and paths -/

theorem parallel_filter : Parallel Eq (filter stop ts) (filter stop' us) := by
  unfold filter filterWithin
  rw [← h.length_eq, expression_eq]
  cases h with
  | nil => exact .ok rfl
  | cons first rest =>
    refine (parallel_expressionOver (.cons first rest) (parallel_nested _) .filter).bind ?_
    rintro ⟨node, ts⟩ ⟨node', us⟩ ⟨rfl, behind⟩
    exact (parallel_expectEnd behind).bind fun _ _ _ => .ok rfl

theorem parallel_subAttribute :
    Parallel (Beside Eq) (subAttribute stop ts) (subAttribute stop' us) := by
  unfold subAttribute
  rw [isNext_alike h]
  split
  · refine (parallel_take h _).bind ?_
    rintro ⟨sub, ts⟩ ⟨sub', us⟩ ⟨⟨alike, known⟩, rest⟩
    dsimp only
    rw [alike.text_eq (List.mem_singleton.mp known) (by decide)]
    exact .ok ⟨rfl, rest⟩
  · exact .ok ⟨rfl, h⟩

theorem parallel_target (budget : Nat) :
    Parallel (Beside Eq) (target budget stop ts) (target budget stop' us) := by
  unfold target
  refine (parallel_take h _).bind ?_
  rintro ⟨name, ts⟩ ⟨name', us⟩ ⟨⟨alike, known⟩, rest⟩
  dsimp only
  rw [alike.text_eq (List.mem_singleton.mp known) (by decide), isNext_alike rest]
  refine .step _ fun path => ?_
  split
  · split
    · exact .error (.fault rfl)
    · refine (parallel_bracketed rest (parallel_nested budget) path).bind ?_
      rintro ⟨filter, ts⟩ ⟨filter', us⟩ ⟨rfl, rest⟩
      refine (parallel_subAttribute rest).bind ?_
      rintro ⟨sub, ts⟩ ⟨sub', us⟩ ⟨rfl, rest⟩
      exact .step _ fun node => .ok ⟨rfl, rest⟩
  · exact .ok ⟨rfl, rest⟩

theorem parallel_path : Parallel Eq (path stop ts) (path stop' us) := by
  unfold path pathWithin
  rw [← h.length_eq]
  cases h with
  | nil => exact .ok rfl
  | cons first rest =>
    refine (parallel_target (.cons first rest) _).bind ?_
    rintro ⟨node, ts⟩ ⟨node', us⟩ ⟨rfl, behind⟩
    exact (parallel_expectEnd behind).bind fun _ _ _ => .ok rfl

end Descent

open Descent

/-- **The descent reads tokens that are alike** side by side. -/
theorem Mode.parallel_descend (mode : Mode) {ts us : List Token} (h : List.Forall₂ Alike ts us)
    (stop stop' : Int) : Parallel Eq (mode.descend stop ts) (mode.descend stop' us) := by
  cases mode with
  | filter => exact parallel_filter h
  | path => exact parallel_path h

end Scim
