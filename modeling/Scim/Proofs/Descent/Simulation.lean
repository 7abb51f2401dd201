import Scim.Proofs.Descent.Basic
import Scim.Proofs.Scan.Slice

/-!
# Scanning groups again changes nothing

The reader that scans the contents of every group again, step by step beside the descent over the
one list of tokens.

* `Follows c x y`            a reader at the cursor `c` and a descent over its tokens fail alike, or
                             read the same number of tokens with the same result;
* `Follows.bind`             two readers one after the other;
* `follows_group`            a group, where the contents are scanned again;
* `follows_expression`       an expression.
-/

namespace Scim

open Grammar

namespace Descent

variable {α β γ : Type}

/-- A reader at a cursor and a descent over the same tokens: the same failure, or the same result
after the same number of tokens. -/
def Follows (c : Cursor) (x : Traced (α × Cursor)) (y : Except Failed (α × List Token)) : Prop :=
  (∃ a n, x.result = .ok (a, c.skip n) ∧ y = .ok (a, c.rest.drop n)) ∨
    ∃ e, x.result = .error e ∧ y = .error e

/-- A step that reads no token. -/
def Agrees (x : Traced α) (y : Except Failed α) : Prop := x.result = y

/-! ## Steps -/

theorem follows_pure (c : Cursor) (a : α) : Follows c (pure (a, c)) (.ok (a, c.rest)) :=
  .inl ⟨a, 0, rfl, rfl⟩

theorem follows_fail (c : Cursor) (e : Failed) : Follows (α := α) c (.fail e) (.error e) :=
  .inr ⟨e, rfl, rfl⟩

theorem agrees_ofFailed (x : Except Failed α) : Agrees (.ofFailed x) x := by
  cases x <;> rfl

theorem agrees_ofInvalid (x : Except Invalid α) : Agrees (.ofInvalid x) (valid x) := by
  cases x <;> rfl

theorem Follows.bind {c : Cursor} {x : Traced (α × Cursor)} {y : Except Failed (α × List Token)}
    {f : α × Cursor → Traced (β × Cursor)} {g : α × List Token → Except Failed (β × List Token)}
    (h : Follows c x y)
    (next : ∀ a n, Follows (c.skip n) (f (a, c.skip n)) (g (a, (c.skip n).rest))) :
    Follows c (x >>= f) (y >>= g) := by
  unfold Follows
  rw [Traced.result_bind]
  rcases h with ⟨a, n, first, rfl⟩ | ⟨e, first, rfl⟩
  · rw [first]
    rcases next a n with ⟨b, m, second, same⟩ | ⟨e, second, same⟩
    · refine .inl ⟨b, n + m, ?_, ?_⟩
      · rw [← Cursor.skip_skip]
        exact second
      · rw [← List.drop_drop]
        exact same
    · exact .inr ⟨e, second, same⟩
  · rw [first]
    exact .inr ⟨e, rfl, rfl⟩

theorem Follows.inside {c d : Cursor} {x : Traced (α × Cursor)}
    {y : Except Failed (α × List Token)} {f : α × Cursor → Traced (β × Cursor)}
    {g : α × List Token → Except Failed (β × List Token)} (h : Follows c x y)
    (next : ∀ a n, Follows d (f (a, c.skip n)) (g (a, (c.skip n).rest))) :
    Follows d (x >>= f) (y >>= g) := by
  unfold Follows
  rw [Traced.result_bind]
  rcases h with ⟨a, n, first, rfl⟩ | ⟨e, first, rfl⟩
  · rw [first]
    exact next a n
  · rw [first]
    exact .inr ⟨e, rfl, rfl⟩

theorem Follows.agrees {c : Cursor} {x : Traced (α × Cursor)} {y : Except Failed (α × List Token)}
    {f : α × Cursor → Traced β} {g : α × List Token → Except Failed β} (h : Follows c x y)
    (next : ∀ a n, Agrees (f (a, c.skip n)) (g (a, (c.skip n).rest))) :
    Agrees (x >>= f) (y >>= g) := by
  unfold Agrees
  rw [Traced.result_bind]
  rcases h with ⟨a, n, first, rfl⟩ | ⟨e, first, rfl⟩
  · rw [first]
    exact next a n
  · rw [first]
    rfl

theorem Agrees.map {x : Traced α} {y : Except Failed α} (h : Agrees x y) (b : β) :
    Agrees (x >>= fun _ => pure b) (y >>= fun _ => pure b) := by
  unfold Agrees at h ⊢
  rw [Traced.result_bind, h]
  cases y <;> rfl

theorem Agrees.bind {c : Cursor} {x : Traced α} {y : Except Failed α}
    {f : α → Traced (β × Cursor)} {g : α → Except Failed (β × List Token)}
    (h : Agrees x y) (next : ∀ a, Follows c (f a) (g a)) : Follows c (x >>= f) (y >>= g) := by
  subst h
  unfold Follows
  rw [Traced.result_bind]
  cases x.result with
  | ok a => exact next a
  | error e => exact .inr ⟨e, rfl, rfl⟩

theorem Follows.note {c : Cursor} {paths : List AttributePath} {f : Unit → Traced (β × Cursor)}
    {y : Except Failed (β × List Token)} (h : Follows c (f ()) y) :
    Follows c (.note paths >>= f) y := by
  unfold Follows
  rw [Traced.result_bind]
  exact h

/-- Where the text of a cursor ends. -/
def stopOf (c : Cursor) : Int := c.offset + c.source.length

@[simp] theorem stopOf_skip (c : Cursor) (n : Nat) : stopOf (c.skip n) = stopOf c := rfl

theorem fault_eq (cause : Cause) (c : Cursor) :
    Failed.fault (c.fault cause) = missing cause (stopOf c) c.rest := by
  unfold Cursor.fault missing Cursor.peek? Cursor.position
  cases c.rest <;> rfl

theorem follows_fault (cause : Cause) (c : Cursor) :
    Follows (α := α) c (.fail (.fault (c.fault cause)))
      (.error (missing cause (stopOf c) c.rest)) := by
  rw [fault_eq]
  exact follows_fail c _

theorem isNext_eq (kind : Kind) (c : Cursor) : c.isNext [kind] = isNext kind c.rest := by
  unfold Cursor.isNext isNext Cursor.peek?
  cases c.rest with
  | nil => rfl
  | cons t rest =>
    simp only [List.head?_cons, Option.any_some, List.contains_cons, List.contains_nil,
      Bool.or_false]

theorem follows_take (kinds : List Kind) (c : Cursor) :
    Follows c (Grammar.take kinds c) (take kinds (stopOf c) c.rest) := by
  have refused := follows_fault (α := Token) (.expected kinds) c
  unfold Grammar.take Cursor.take take
  cases h : c.rest with
  | nil =>
    rw [h] at refused
    exact refused
  | cons t rest =>
    rw [h] at refused
    dsimp only
    split
    · exact .inl ⟨t, 1, rfl, by rw [h]; rfl⟩
    · exact refused

theorem agrees_expectEnd (c : Cursor) :
    Agrees (.ofFault (Grammar.expectEnd c)) (expectEnd (stopOf c) c.rest) := by
  have dangling := fault_eq .danglingOperator c
  have trailing := fault_eq .trailingToken c
  unfold Grammar.expectEnd expectEnd Cursor.peek?
  cases h : c.rest with
  | nil => rfl
  | cons t rest =>
    rw [h] at dangling trailing
    dsimp only [List.head?_cons]
    split
    · rw [← dangling]
      rfl
    · rw [← trailing]
      rfl

/-! ## Comparisons -/

theorem follows_comparison (path : AttributePath) (c : Cursor) :
    Follows c (Grammar.comparison path c) (comparison path (stopOf c) c.rest) := by
  unfold Grammar.comparison comparison
  refine (follows_take _ c).bind fun operator n => ?_
  dsimp only
  split
  · exact (agrees_ofInvalid _).bind fun made => follows_pure _ _
  · refine (follows_take _ _).bind fun token m => ?_
    exact (agrees_ofInvalid _).bind fun v => (agrees_ofInvalid _).bind fun made => follows_pure _ _

/-! ## Groups and brackets -/

/-- What reads contents in one way beside what does it in the other. -/
def FollowsInner (mode : Mode) : Grammar.Inner → Inner → Prop
  | some x, some y => ∀ place (c : Cursor), c.Fits mode →
      Follows c (x place c) (y place (stopOf c) c.rest)
  | none, none => True
  | _, _ => False

theorem agrees_descend {mode : Mode} {x : Grammar.Inner} {y : Inner} {c : Cursor}
    (h : FollowsInner mode x y) {f : (Place → Grammar.Reader) → Traced (β × Cursor)}
    {g : (Place → Reader (Option Node)) → Except Failed (β × List Token)}
    (next : ∀ u v, FollowsInner mode (some u) (some v) → Follows c (f u) (g v)) :
    Follows c (Grammar.descend x >>= f) (descend y >>= g) := by
  cases x with
  | none =>
    cases y with
    | none => exact .inr ⟨.exhausted, rfl, rfl⟩
    | some v => cases h
  | some u =>
    cases y with
    | none => cases h
    | some v =>
      have tail := next u v h
      unfold Follows at tail ⊢
      rwa [Traced.result_bind]

theorem Follows.of_skip {c : Cursor} {n : Nat} {x : Traced (α × Cursor)}
    {y : Except Failed (α × List Token)} (h : Follows (c.skip n) x y) : Follows c x y := by
  rcases h with ⟨a, m, first, second⟩ | failed
  · rw [Cursor.skip_skip] at first
    rw [Cursor.skip_rest, List.drop_drop] at second
    exact .inl ⟨a, n + m, first, second⟩
  · exact .inr failed

/-- the contents of a group, scanned again, beside its tokens: the same tree or the same failure -/
theorem follows_contents {mode : Mode} {u : Place → Grammar.Reader}
    {v : Place → Reader (Option Node)} (h : FollowsInner mode (some u) (some v)) (place : Place)
    {c d : Cursor} (fits : c.Fits mode) :
    Follows d
      (if (c.span (enclosed c.rest)).isEmpty then pure (none, d)
        else do
          let contents ← .ofFault (Cursor.ofText mode (c.span (enclosed c.rest)) c.position)
          let (node, contents) ← u place contents
          .ofFault (Grammar.expectEnd contents)
          return (node, d))
      (do
        let node ← contents v place (enclosed c.rest)
        return (node, d.rest)) := by
  obtain ⟨after, split, ends⟩ := Cursor.runUntil_append .closeParen (some .openParen) 0 c.rest
  change c.rest = enclosed c.rest ++ after at split
  generalize enclosed c.rest = run at split
  cases hl : run.getLast? with
  | none =>
    obtain rfl := List.getLast?_eq_none_iff.mp hl
    exact follows_pure d none
  | some last =>
    cases hf : run.head? with
    | none =>
      rw [List.head?_eq_none_iff.mp hf] at hl
      cases hl
    | some first =>
      have place_eq : c.position = first.position := by
        obtain ⟨more, rfl⟩ := List.head?_eq_some_iff.mp hf
        unfold Cursor.position
        rw [split]
        rfl
      obtain ⟨tiles, stop⟩ := fits.tiles_span split ends hf hl
      have long : (c.span run).isEmpty = false := by
        rw [List.isEmpty_eq_false_iff]
        intro none
        rw [none] at tiles
        have empty := tiles.scan_eq.symm.trans (scan_nil mode _)
        rw [Except.ok.inj empty] at hf
        cases hf
      rw [if_neg (by rw [long]; exact Bool.false_ne_true), place_eq,
        fits.ofText_span split ends hf hl]
      unfold contents
      rw [hl]
      have inside : Cursor.Fits mode ⟨c.span run, first.position, 0, run⟩ := ⟨[], tiles⟩
      have read := h place _ inside
      have same : stopOf ⟨c.span run, first.position, 0, run⟩ = last.stop := stop
      rw [same] at read
      dsimp only
      rw [bind_assoc]
      refine read.inside fun node n => ?_
      dsimp only
      rw [bind_assoc, ← same, ← stopOf_skip _ n]
      exact (agrees_expectEnd _).bind fun _ => follows_pure d node

theorem follows_group {mode : Mode} {x : Grammar.Inner} {y : Inner} (h : FollowsInner mode x y)
    (place : Place) {c : Cursor} (fits : c.Fits mode) :
    Follows c (Grammar.group mode x place c) (group y place (stopOf c) c.rest) := by
  unfold Grammar.group group
  refine (follows_take _ c).bind fun _ n => ?_
  dsimp only
  refine agrees_descend h fun u v huv => ?_
  have before := fits.skip n
  rw [← stopOf_skip c n]
  generalize c.skip n = c' at before
  apply Follows.of_skip
  refine (follows_take [.closeParen] (c'.skip (enclosed c'.rest).length)).bind fun _ m => ?_
  exact follows_contents huv place before

theorem follows_negation {mode : Mode} {x : Grammar.Inner} {y : Inner} (h : FollowsInner mode x y)
    (place : Place) {c : Cursor} (fits : c.Fits mode) :
    Follows c (Grammar.negation mode x place c) (negation y place (stopOf c) c.rest) := by
  unfold Grammar.negation negation
  refine (follows_take _ c).bind fun _ n => ?_
  refine (follows_group h place (fits.skip n)).bind fun node m => ?_
  exact follows_pure _ _

theorem follows_bracketed {mode : Mode} {x : Grammar.Inner} {y : Inner}
    (h : FollowsInner mode x y) (path : AttributePath) {c : Cursor} (fits : c.Fits mode) :
    Follows c (Grammar.bracketed x path c) (bracketed y path (stopOf c) c.rest) := by
  unfold Grammar.bracketed bracketed
  refine (follows_take _ c).bind fun bracket n => ?_
  refine agrees_descend h fun u v huv => ?_
  refine (huv .brackets _ (fits.skip n)).bind fun node m => ?_
  dsimp only
  cases node.filter isCondition with
  | none => exact follows_fail _ _
  | some inner =>
    refine (follows_take _ _).bind fun _ k => Follows.note ?_
    dsimp only
    cases (inner.qualify path).obstacle with
    | some obstacle => exact follows_fail _ _
    | none => exact follows_pure _ _

theorem follows_condition {mode : Mode} {x : Grammar.Inner} {y : Inner}
    (h : FollowsInner mode x y) (place : Place) {c : Cursor} (fits : c.Fits mode) :
    Follows c (Grammar.condition x place c) (condition y place (stopOf c) c.rest) := by
  unfold Grammar.condition condition
  refine (follows_take _ c).bind fun token n => ?_
  refine (agrees_ofInvalid _).bind fun path => ?_
  dsimp only
  rw [isNext_eq]
  split
  · split
    · exact follows_fail _ _
    · split
      · exact follows_fail _ _
      · refine (follows_bracketed h path (fits.skip n)).bind fun filter m => ?_
        exact (agrees_ofInvalid _).bind fun node => follows_pure _ _
  · exact (follows_comparison path _).bind fun node m => follows_pure _ _

/-! ## Chains -/

theorem follows_operand {mode : Mode} {x : Grammar.Inner} {y : Inner} (h : FollowsInner mode x y)
    (place : Place) {c : Cursor} (fits : c.Fits mode) :
    Follows c (Grammar.operand mode x place c) (operand y place (stopOf c) c.rest) := by
  unfold Grammar.operand operand Cursor.peek?
  cases c.rest.head?.map Token.kind with
  | none => exact follows_fault _ c
  | some kind =>
    cases kind with
    | openParen => exact follows_group h place fits
    | negation => exact follows_negation h place fits
    | name => exact follows_condition h place fits
    | _ => exact follows_fault _ c

theorem follows_moreOperands {mode : Mode} {u : Grammar.Reader} {v : Reader (Option Node)}
    (h : ∀ c : Cursor, c.Fits mode → Follows c (u c) (v (stopOf c) c.rest)) (n : Nat) {c : Cursor}
    (fits : c.Fits mode) :
    Follows c (Grammar.moreOperands u n c) (moreOperands v n (stopOf c) c.rest) := by
  induction n generalizing c with
  | zero => exact follows_pure c []
  | succ n ih =>
    unfold Grammar.moreOperands moreOperands
    rw [isNext_eq]
    split
    · refine (follows_take _ c).bind fun operator k => ?_
      refine (h _ (fits.skip k)).bind fun node m => ?_
      cases node with
      | none => exact follows_fail _ _
      | some node =>
        refine (ih ((fits.skip k).skip m)).bind fun more j => ?_
        exact follows_pure _ _
    · exact follows_pure c []

theorem follows_expressionOver {mode : Mode} {x : Grammar.Inner} {y : Inner}
    (h : FollowsInner mode x y) (place : Place) {c : Cursor} (fits : c.Fits mode) :
    Follows c (Grammar.expressionOver mode x place c)
      (expressionOver y place (stopOf c) c.rest) := by
  unfold Grammar.expressionOver expressionOver
  refine (follows_operand h place fits).bind fun first n => ?_
  cases first with
  | none => exact follows_pure _ _
  | some node =>
    have operands : ∀ c : Cursor, c.Fits mode →
        Follows c (Grammar.operand mode x place c) (operand y place (stopOf c) c.rest) :=
      fun c fits => follows_operand h place fits
    refine (follows_moreOperands operands _ (fits.skip n)).bind fun more m => ?_
    dsimp only
    split
    · exact follows_pure _ _
    · exact (agrees_ofFailed _).bind fun tree => follows_pure _ _

theorem follows_nested (mode : Mode) (budget : Nat) :
    FollowsInner mode (Grammar.nested mode budget) (nested budget) := by
  induction budget with
  | zero => trivial
  | succ budget ih =>
    intro place c fits
    rw [Grammar.expression_eq, expression_eq]
    exact follows_expressionOver ih place fits

theorem follows_expression (mode : Mode) (budget : Nat) (place : Place) {c : Cursor}
    (fits : c.Fits mode) :
    Follows c (Grammar.expression mode budget place c)
      (expression budget place (stopOf c) c.rest) := by
  rw [Grammar.expression_eq, expression_eq]
  exact follows_expressionOver (follows_nested mode budget) place fits

/-! ## Filters and paths -/

theorem follows_subAttribute (c : Cursor) :
    Follows c (Path.subAttribute c) (subAttribute (stopOf c) c.rest) := by
  unfold Path.subAttribute subAttribute
  rw [isNext_eq]
  split
  · exact (follows_take _ c).bind fun token n => follows_pure _ _
  · exact follows_pure c none

theorem follows_target (budget : Nat) {c : Cursor} (fits : c.Fits .path) :
    Follows c (Path.target budget c) (target budget (stopOf c) c.rest) := by
  unfold Path.target target
  refine (follows_take _ c).bind fun token n => ?_
  refine (agrees_ofInvalid _).bind fun path => ?_
  dsimp only
  rw [isNext_eq]
  split
  · split
    · exact follows_fail _ _
    · refine (follows_bracketed (follows_nested .path budget) path (fits.skip n)).bind
        fun filter m => ?_
      refine (follows_subAttribute _).bind fun sub k => ?_
      exact (agrees_ofInvalid _).bind fun node => follows_pure _ _
  · exact follows_pure _ _

theorem agrees_filter (budget : Nat) {c : Cursor} (fits : c.Fits .filter) :
    Agrees (Filter.readAt budget c) (filterWithin budget (stopOf c) c.rest) := by
  unfold Filter.readAt filterWithin Cursor.hasNext
  cases c.rest.isEmpty with
  | true => rfl
  | false =>
    refine (follows_expression .filter budget .filter fits).agrees fun node n => ?_
    exact (agrees_expectEnd _).map node

theorem agrees_path (budget : Nat) {c : Cursor} (fits : c.Fits .path) :
    Agrees (Path.readAt budget c) (pathWithin budget (stopOf c) c.rest) := by
  unfold Path.readAt pathWithin Cursor.hasNext
  cases c.rest.isEmpty with
  | true => rfl
  | false =>
    refine (follows_target budget fits).agrees fun node n => ?_
    exact (agrees_expectEnd _).map (some node)

end Descent

end Scim
