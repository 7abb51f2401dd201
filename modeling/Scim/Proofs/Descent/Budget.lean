import Scim.Proofs.Descent.Outcome

/-!
# The budget of nesting does not matter

A larger budget changes nothing unless the smaller one is used up, and the depth of the tokens is
enough.

* `Widens x y`         the first computation uses up its budget, or both do the same;
* `widens_nested`      expressions within two budgets;
* `filterWithin_eq`    a filter within a budget of at least the depth of its tokens;
* `pathWithin_eq`      a path within such a budget.
-/

namespace Scim

open Grammar

namespace Descent

variable {α β : Type}

/-- The first computation uses up its budget, or both do the same. -/
def Widens (x y : Except Failed α) : Prop := x = .error .exhausted ∨ x = y

theorem Widens.refl (x : Except Failed α) : Widens x x := .inr rfl

theorem Widens.bind {x y : Except Failed α} {f g : α → Except Failed β} (h : Widens x y)
    (next : ∀ a, Widens (f a) (g a)) : Widens (x >>= f) (y >>= g) := by
  rcases h with rfl | rfl
  · exact .inl rfl
  · cases x with
    | ok a => exact next a
    | error e => exact .inr rfl

theorem Widens.step {f g : α → Except Failed β} (x : Except Failed α)
    (next : ∀ a, Widens (f a) (g a)) : Widens (x >>= f) (x >>= g) :=
  (Widens.refl x).bind next

/-- What reads contents within a budget, and within a larger one. -/
def WidensInner : Inner → Inner → Prop
  | none, _ => True
  | some u, some v => ∀ place stop ts, Widens (u place stop ts) (v place stop ts)
  | some _, none => False

section

variable {x y : Inner} (h : WidensInner x y) (place : Place) (stop : Int) (ts : List Token)

include h

theorem widens_descend_bind {f g : (Place → Reader (Option Node)) → Except Failed α}
    (next : ∀ u v, (∀ place stop ts, Widens (u place stop ts) (v place stop ts)) →
      Widens (f u) (g v)) : Widens (descend x >>= f) (descend y >>= g) := by
  cases x with
  | none => exact .inl rfl
  | some u =>
    cases y with
    | none => cases h
    | some v => exact next u v h

omit h in
theorem widens_contents {u v : Place → Reader (Option Node)}
    (huv : ∀ place stop ts, Widens (u place stop ts) (v place stop ts)) :
    Widens (contents u place ts) (contents v place ts) := by
  unfold contents
  split
  · exact .refl _
  · exact (huv _ _ _).bind fun _ => .refl _

theorem widens_group : Widens (group x place stop ts) (group y place stop ts) := by
  unfold group
  refine .step _ fun opening => ?_
  refine widens_descend_bind h fun u v huv => ?_
  refine .step _ fun closing => ?_
  exact (widens_contents place _ huv).bind fun _ => .refl _

theorem widens_negation : Widens (negation x place stop ts) (negation y place stop ts) := by
  unfold negation
  refine .step _ fun word => ?_
  exact (widens_group h place stop _).bind fun _ => .refl _

theorem widens_bracketed (path : AttributePath) :
    Widens (bracketed x path stop ts) (bracketed y path stop ts) := by
  unfold bracketed
  refine .step _ fun opening => ?_
  refine widens_descend_bind h fun u v huv => ?_
  exact (huv _ _ _).bind fun _ => .refl _

theorem widens_condition : Widens (condition x place stop ts) (condition y place stop ts) := by
  unfold condition
  refine .step _ fun name => ?_
  refine .step _ fun path => ?_
  dsimp only
  split
  · split
    · exact .refl _
    · split
      · exact .refl _
      · exact (widens_bracketed h stop _ path).bind fun _ => .refl _
  · exact .refl _

theorem widens_operand : Widens (operand x place stop ts) (operand y place stop ts) := by
  unfold operand
  split
  · exact widens_group h place stop ts
  · exact widens_negation h place stop ts
  · exact widens_condition h place stop ts
  · exact .refl _

theorem widens_moreOperands (n : Nat) : Widens (moreOperands (operand x place) n stop ts)
    (moreOperands (operand y place) n stop ts) := by
  induction n generalizing ts with
  | zero => exact .refl _
  | succ n ih =>
    unfold moreOperands
    split
    · refine .step _ fun link => ?_
      refine (widens_operand h place stop _).bind fun read => ?_
      split
      · exact .refl _
      · exact (ih _).bind fun _ => .refl _
    · exact .refl _

theorem widens_expressionOver :
    Widens (expressionOver x place stop ts) (expressionOver y place stop ts) := by
  unfold expressionOver
  refine (widens_operand h place stop ts).bind fun first => ?_
  dsimp only
  split
  · exact .refl _
  · exact (widens_moreOperands h place stop _ _).bind fun _ => .refl _

end

theorem widens_nested {budget larger : Nat} (h : budget ≤ larger) :
    WidensInner (nested budget) (nested larger) := by
  induction budget generalizing larger with
  | zero => trivial
  | succ budget ih =>
    cases larger with
    | zero => cases h
    | succ larger =>
      intro place stop ts
      rw [expression_eq, expression_eq]
      exact widens_expressionOver (ih (Nat.le_of_succ_le_succ h)) place stop ts

theorem widens_filterWithin {budget larger : Nat} (h : budget ≤ larger) (stop : Int)
    (ts : List Token) : Widens (filterWithin budget stop ts) (filterWithin larger stop ts) := by
  unfold filterWithin
  split
  · exact .refl _
  · rw [expression_eq, expression_eq]
    exact (widens_expressionOver (widens_nested h) .filter stop ts).bind fun _ => .refl _

theorem widens_pathWithin {budget larger : Nat} (h : budget ≤ larger) (stop : Int)
    (ts : List Token) : Widens (pathWithin budget stop ts) (pathWithin larger stop ts) := by
  unfold pathWithin target
  split
  · exact .refl _
  · refine Widens.bind ?_ fun _ => .refl _
    refine .step _ fun name => ?_
    refine .step _ fun path => ?_
    dsimp only
    split
    · split
      · exact .refl _
      · exact (widens_bracketed (widens_nested h) stop _ path).bind fun _ => .refl _
    · exact .refl _

/-! ## Enough for any text -/

theorem eq_of_widens {run : Nat → Except Failed α}
    (widens : ∀ {budget larger}, budget ≤ larger → Widens (run budget) (run larger))
    {budget other : Nat} (enough : run budget ≠ .error .exhausted)
    (plenty : run other ≠ .error .exhausted) : run budget = run other := by
  rcases Nat.le_total budget other with less | more
  · exact (widens less).resolve_left enough
  · exact ((widens more).resolve_left plenty).symm

section

variable {budget : Nat} (stop : Int) {ts : List Token}

theorem ne_exhausted {stop : Int} {breaks : Invalid → Prop} {x : Except Failed α}
    {wanted : α → Prop} (meets : Meets x wanted (Allowed ts stop breaks (budget < nesting ts)))
    (h : nesting ts ≤ budget) : x ≠ .error .exhausted := by
  intro failed
  cases meets.error failed with
  | exhausted few => exact absurd h (Nat.not_le.mpr few)

/-- **A filter within a budget** of at least the depth of its tokens. -/
theorem filterWithin_eq (h : nesting ts ≤ budget) : filterWithin budget stop ts = filter stop ts :=
  eq_of_widens (fun larger => widens_filterWithin larger stop ts)
    (ne_exhausted (meets_filterWithin budget stop ts) h)
    (ne_exhausted (meets_filterWithin ts.length stop ts) (nesting_le_length ts))

/-- **A path within a budget** of at least the depth of its tokens. -/
theorem pathWithin_eq (h : nesting ts ≤ budget) : pathWithin budget stop ts = path stop ts :=
  eq_of_widens (fun larger => widens_pathWithin larger stop ts)
    (ne_exhausted (meets_pathWithin budget stop ts) h)
    (ne_exhausted (meets_pathWithin ts.length stop ts) (nesting_le_length ts))

end

end Descent

end Scim
