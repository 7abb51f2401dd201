import Mathlib.Order.Bounds.Defs
import Scim.Limits.Basic
import Scim.Proofs.Phrase.Basic

/-!
# Nesting

Parentheses and brackets that match each other, and how deep they nest.

* `Pairs`                       an opening and a closing token of the same shape;
* `Balanced`                    every parenthesis and bracket has its partner;
* `nesting_pair`                the depth of a pair is one more than that of the tokens inside;
* `nesting_lt_of_opens`         an opening token nests what follows it, matched or not;
* `Encloses n us vs`            `n` pairs enclose the point between two lists of tokens;
* `Balanced.isGreatest_nesting` the depth of balanced tokens is the largest number of pairs around a
                                point of them;
* `Chain.Valid.balanced`        the tokens of a derivation are balanced.
-/

namespace Scim

/-! ## The counter of open groups and brackets -/

theorem nestingFrom_nonneg (depth : Int) (ts : List Token) : 0 ≤ nestingFrom depth ts := by
  induction ts generalizing depth with
  | nil => exact Int.le_refl 0
  | cons t ts ih => exact Int.le_trans (ih _) (Int.le_max_right _ _)

theorem coe_nesting (ts : List Token) : (nesting ts : Int) = nestingFrom 0 ts :=
  Int.toNat_of_nonneg (nestingFrom_nonneg 0 ts)

theorem nestingFrom_append (depth : Int) (ts us : List Token) : nestingFrom depth (ts ++ us) =
    max (nestingFrom depth ts) (nestingFrom (ts.foldl depthAfter depth) us) := by
  induction ts generalizing depth with
  | nil => exact (Int.max_eq_right (nestingFrom_nonneg depth us)).symm
  | cons t ts ih =>
    show max _ (nestingFrom _ (ts ++ us)) = max (max _ (nestingFrom _ ts)) _
    rw [ih, Int.max_assoc]
    rfl

theorem depthAfter_add (depth n : Int) (t : Token) :
    depthAfter (depth + n) t = depthAfter depth t + n := by
  unfold depthAfter
  split
  · omega
  · split
    · omega
    · rfl

theorem max_nestingFrom_add {n : Int} (h : 0 ≤ n) (depth : Int) (ts : List Token) :
    max n (nestingFrom (depth + n) ts) = nestingFrom depth ts + n := by
  induction ts generalizing depth with
  | nil =>
    show max n 0 = 0 + n
    omega
  | cons t ts ih =>
    have later := ih (depthAfter depth t)
    rw [nestingFrom, nestingFrom, depthAfter_add]
    omega

theorem depthAfter_of_plain {t : Token} (notOpen : t.kind.opens = false)
    (notClose : t.kind.closes = false) (depth : Int) : depthAfter depth t = depth := by
  simp [depthAfter, notOpen, notClose]

theorem depthAfter_of_opens {t : Token} (opens : t.kind.opens = true) (depth : Int) :
    depthAfter depth t = depth + 1 := if_pos opens

theorem nesting_cons_of_plain {t : Token} (notOpen : t.kind.opens = false)
    (notClose : t.kind.closes = false) (ts : List Token) : nesting (t :: ts) = nesting ts := by
  unfold nesting
  rw [nestingFrom, depthAfter_of_plain notOpen notClose,
    Int.max_eq_right (nestingFrom_nonneg 0 ts)]

theorem nesting_cons_of_kind {t : Token} {kind : Kind} (h : t.kind = kind)
    (plain : kind.opens = false ∧ kind.closes = false) (ts : List Token) :
    nesting (t :: ts) = nesting ts :=
  nesting_cons_of_plain (by rw [h]; exact plain.1) (by rw [h]; exact plain.2) ts

theorem nesting_le_append (ts us : List Token) : nesting ts ≤ nesting (ts ++ us) := by
  have whole := nestingFrom_append 0 ts us
  rw [← coe_nesting, ← coe_nesting] at whole
  omega

theorem nesting_cons_of_opens {t : Token} (opens : t.kind.opens = true) (ts : List Token) :
    nesting (t :: ts) = nesting ts + 1 := by
  have inside := max_nestingFrom_add (show (0 : Int) ≤ 1 by decide) 0 ts
  have whole := coe_nesting (t :: ts)
  rw [nestingFrom, depthAfter_of_opens opens] at whole
  have within := coe_nesting ts
  omega

theorem nesting_lt_of_opens {t : Token} (opens : t.kind.opens = true) (ts us : List Token) :
    nesting ts < nesting (t :: (ts ++ us)) := by
  rw [nesting_cons_of_opens opens]
  exact Nat.lt_succ_of_le (nesting_le_append ts us)

theorem nestingFrom_le (depth : Int) (ts : List Token) :
    nestingFrom depth ts ≤ max 0 depth + ts.length := by
  induction ts generalizing depth with
  | nil => exact Int.le_trans (Int.le_max_left 0 depth) (Int.le_add_of_nonneg_right (by decide))
  | cons t ts ih =>
    have step : depthAfter depth t ≤ depth + 1 := by
      unfold depthAfter
      split
      · exact Int.le_refl _
      · split <;> omega
    have later := ih (depthAfter depth t)
    rw [nestingFrom, List.length_cons]
    omega

theorem nesting_le_length (ts : List Token) : nesting ts ≤ ts.length := by
  have bound := nestingFrom_le 0 ts
  rw [← coe_nesting] at bound
  omega

/-! ## Pairs -/

/-- An opening and a closing token of the same shape. -/
def Pairs (opening closing : Token) : Prop :=
  (opening.kind = .openParen ∧ closing.kind = .closeParen) ∨
    (opening.kind = .openBracket ∧ closing.kind = .closeBracket)

theorem Pairs.opens {opening closing : Token} (h : Pairs opening closing) :
    opening.kind.opens = true := by
  rcases h with ⟨opens, -⟩ | ⟨opens, -⟩ <;> rw [opens] <;> rfl

theorem Pairs.depthAfter_closing {opening closing : Token} (h : Pairs opening closing)
    (depth : Int) : depthAfter depth closing = depth - 1 := by
  rcases h with ⟨-, closes⟩ | ⟨-, closes⟩ <;> simp [depthAfter, closes, Kind.opens, Kind.closes]

/-- Every parenthesis and bracket has its partner. -/
inductive Balanced : List Token → Prop where
  | nil : Balanced []
  | other {t : Token} {ts : List Token} :
      t.kind.opens = false → t.kind.closes = false → Balanced ts → Balanced (t :: ts)
  | pair {opening closing : Token} {inner ts : List Token} :
      Pairs opening closing → Balanced inner → Balanced ts →
      Balanced (opening :: (inner ++ closing :: ts))

theorem Balanced.append {ts us : List Token} (ht : Balanced ts) (hu : Balanced us) :
    Balanced (ts ++ us) := by
  induction ht with
  | nil => exact hu
  | other notOpen notClose _ ih => exact .other notOpen notClose ih
  | pair pairs inner _ _ ih =>
    rw [List.cons_append, List.append_assoc, List.cons_append]
    exact .pair pairs inner ih

theorem Balanced.of_kind {t : Token} {kind : Kind} {ts : List Token} (h : t.kind = kind)
    (plain : kind.opens = false ∧ kind.closes = false) (ht : Balanced ts) : Balanced (t :: ts) :=
  .other (by rw [h]; exact plain.1) (by rw [h]; exact plain.2) ht

theorem Balanced.foldl_depthAfter {ts : List Token} (h : Balanced ts) (depth : Int) :
    ts.foldl depthAfter depth = depth := by
  induction h generalizing depth with
  | nil => rfl
  | other notOpen notClose _ ih =>
    rw [List.foldl_cons, depthAfter_of_plain notOpen notClose, ih]
  | pair pairs _ _ inner ih =>
    rw [List.foldl_cons, depthAfter_of_opens pairs.opens, List.foldl_append, inner,
      List.foldl_cons, pairs.depthAfter_closing, ih, Int.add_sub_cancel]

theorem Balanced.nesting_append {ts : List Token} (h : Balanced ts) (us : List Token) :
    nesting (ts ++ us) = max (nesting ts) (nesting us) := by
  have whole := nestingFrom_append 0 ts us
  rw [h.foldl_depthAfter, ← coe_nesting, ← coe_nesting, ← coe_nesting] at whole
  omega

theorem Balanced.nesting_le {ts : List Token} (h : Balanced ts) (us : List Token) :
    nesting us ≤ nesting (ts ++ us) := by
  rw [h.nesting_append]
  exact Nat.le_max_right _ _

theorem nesting_pair {opening closing : Token} {inner : List Token} (pairs : Pairs opening closing)
    (h : Balanced inner) (ts : List Token) :
    nesting (opening :: (inner ++ closing :: ts)) = max (nesting inner + 1) (nesting ts) := by
  have inside := max_nestingFrom_add (show (0 : Int) ≤ 1 by decide) 0 inner
  have within := coe_nesting inner
  have behind := coe_nesting ts
  have whole := coe_nesting (opening :: (inner ++ closing :: ts))
  rw [nestingFrom, depthAfter_of_opens pairs.opens, nestingFrom_append, h.foldl_depthAfter,
    nestingFrom, pairs.depthAfter_closing, Int.add_sub_cancel] at whole
  omega

theorem Balanced.le_foldl {ts : List Token} (h : Balanced ts) {us vs : List Token}
    (split : ts = us ++ vs) (depth : Int) : depth ≤ us.foldl depthAfter depth := by
  induction h generalizing us vs depth with
  | nil =>
    obtain ⟨rfl, -⟩ := List.append_eq_nil_iff.mp split.symm
    exact Int.le_refl depth
  | @other t ts notOpen notClose _ ih =>
    cases us with
    | nil => exact Int.le_refl depth
    | cons t' us =>
      obtain ⟨rfl, rest⟩ := List.cons.inj split
      rw [List.foldl_cons, depthAfter_of_plain notOpen notClose]
      exact ih rest depth
  | @pair opening closing inner ts pairs balanced _ inside ih =>
    cases us with
    | nil => exact Int.le_refl depth
    | cons t' us =>
      obtain ⟨rfl, rest⟩ := List.cons.inj split
      rw [List.foldl_cons, depthAfter_of_opens pairs.opens]
      rcases List.append_eq_append_iff.mp rest with ⟨a, rfl, tail⟩ | ⟨a, rfl, -⟩
      · rw [List.foldl_append, balanced.foldl_depthAfter]
        cases a with
        | nil => exact Int.le_add_of_nonneg_right (by decide)
        | cons t a =>
          obtain ⟨rfl, behind⟩ := List.cons.inj tail
          rw [List.foldl_cons, pairs.depthAfter_closing, Int.add_sub_cancel]
          exact ih behind depth
      · have within := inside rfl (depth + 1)
        omega

/-! ## The pairs around a point -/

/-- At least `n` pairs of parentheses and brackets enclose the point between two lists of tokens. -/
inductive Encloses : Nat → List Token → List Token → Prop where
  | none (us vs : List Token) : Encloses 0 us vs
  | pair {n : Nat} (before : List Token) {opening closing : Token} {us vs after : List Token} :
      Pairs opening closing → Balanced (us ++ vs) → Encloses n us vs →
      Encloses (n + 1) (before ++ opening :: us) (vs ++ closing :: after)

theorem Encloses.append_left {n : Nat} {us vs : List Token} (h : Encloses n us vs)
    (before : List Token) : Encloses n (before ++ us) vs := by
  cases h with
  | none => exact .none _ _
  | pair start pairs balanced inner =>
    rw [← List.append_assoc]
    exact .pair _ pairs balanced inner

theorem Encloses.le_nesting {n : Nat} {us vs : List Token} (h : Encloses n us vs)
    (balanced : Balanced (us ++ vs)) : n ≤ nesting (us ++ vs) := by
  induction h with
  | none => exact Nat.zero_le _
  | @pair n before opening closing us vs after pairs inner _ ih =>
    have split : before ++ opening :: us ++ (vs ++ closing :: after) =
        before ++ opening :: (us ++ vs ++ closing :: after) := by simp
    rw [split] at balanced ⊢
    have start := balanced.le_foldl rfl 0
    have inside := ih inner
    have alone := nesting_pair pairs inner after
    have whole := coe_nesting (before ++ opening :: (us ++ vs ++ closing :: after))
    generalize opening :: (us ++ vs ++ closing :: after) = tail at whole alone
    -- the pair stands at least as deep as it would alone
    have deeper := max_nestingFrom_add start 0 tail
    rw [Int.zero_add, ← coe_nesting] at deeper
    rw [nestingFrom_append] at whole
    omega

theorem Balanced.exists_encloses {ts : List Token} (h : Balanced ts) :
    ∃ us vs, ts = us ++ vs ∧ Encloses (nesting ts) us vs := by
  induction h with
  | nil => exact ⟨[], [], rfl, .none [] []⟩
  | @other t ts notOpen notClose _ ih =>
    obtain ⟨us, vs, rfl, point⟩ := ih
    refine ⟨t :: us, vs, rfl, ?_⟩
    rw [nesting_cons_of_plain notOpen notClose]
    exact point.append_left [t]
  | @pair opening closing inner ts pairs balanced _ inside ih =>
    rw [nesting_pair pairs balanced]
    rcases Nat.le_total (nesting ts) (nesting inner + 1) with deep | deep
    · obtain ⟨us, vs, rfl, point⟩ := inside
      rw [Nat.max_eq_left deep]
      exact ⟨opening :: us, vs ++ closing :: ts, by simp, .pair [] pairs balanced point⟩
    · obtain ⟨us, vs, rfl, point⟩ := ih
      rw [Nat.max_eq_right deep]
      exact ⟨opening :: (inner ++ closing :: us), vs, by simp,
        by simpa using point.append_left (opening :: (inner ++ [closing]))⟩

/-- **The depth of balanced tokens** is the largest number of pairs around a point of them. -/
theorem Balanced.isGreatest_nesting {ts : List Token} (h : Balanced ts) :
    IsGreatest {n | ∃ us vs, ts = us ++ vs ∧ Encloses n us vs} (nesting ts) := by
  refine ⟨h.exists_encloses, ?_⟩
  rintro n ⟨us, vs, rfl, point⟩
  exact point.le_nesting h

/-! ## Derivations are balanced -/

namespace Phrase

mutual

theorem Operand.Valid.balanced {place : Place} : {d : Operand} → d.Valid place →
    Balanced d.tokens
  | _, .group opens inner closes => .pair (.inl ⟨opens, closes⟩) inner.balanced .nil
  | _, .negation isWord opens inner closes =>
    .of_kind isWord (by decide) (.pair (.inl ⟨opens, closes⟩) inner.balanced .nil)
  | _, .presence isName isOperator _ =>
    .of_kind isName (by decide) (.of_kind isOperator (by decide) .nil)
  | .comparison _ _ literal _ _, .comparison isName isOperator _ _ value => by
    have values : ∀ k ∈ Kind.values, k.opens = false ∧ k.closes = false := by decide
    exact .of_kind isName (by decide) (.of_kind isOperator (by decide)
      (.of_kind rfl (values literal.kind value.mem_values) .nil))
  | _, .valuePath isName _ opens inner closes =>
    .of_kind isName (by decide) (.pair (.inr ⟨opens, closes⟩) inner.balanced .nil)

theorem Links.Valid.balanced {place : Place} : {l : Links} → l.Valid place → Balanced l.tokens
  | _, .nil => .nil
  | _, .cons isLink operand more =>
    .of_kind isLink (by decide) (operand.balanced.append more.balanced)

/-- **The tokens of a derivation are balanced.** -/
theorem Chain.Valid.balanced {place : Place} : {c : Chain} → c.Valid place → Balanced c.tokens
  | _, .mk first more => first.balanced.append more.balanced

end

theorem Vacant.balanced {ts : List Token} (h : Vacant ts) : Balanced ts := by
  induction h with
  | nil => exact .nil
  | group opens _ closes inner => exact .pair (.inl ⟨opens, closes⟩) inner .nil
  | negation isWord opens _ closes inner =>
    exact .of_kind isWord (by decide) (.pair (.inl ⟨opens, closes⟩) inner .nil)

end Phrase

end Scim
