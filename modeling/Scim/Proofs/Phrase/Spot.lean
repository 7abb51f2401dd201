import Mathlib.Data.List.Forall2
import Scim.Proofs.Phrase.Parts
import Scim.Proofs.Scan.Group

/-!
# Spots of operators

A spot is a token among others.

* `Spot`              a token between those before it and those after it;
* `operatorSpots`     the spots of the comparison operators, from left to right;
* `Spot.Within`       the spot lies between the brackets behind a name;
* `Shut`              every bracket that is opened among the tokens is closed there;
* `not_within_of_shut`, `within_iff`    a spot lies in no brackets, or in the brackets of one name.
-/

namespace Scim

open Grammar

namespace Phrase

/-! ## Spots -/

/-- A token between those before it and those after it. -/
structure Spot where
  before : List Token
  token : Token
  after : List Token

def isOperator (t : Token) : Bool := t.kind == .comparison

/-- The comparison operators among tokens that stand between others. -/
def operatorSpots (before after : List Token) : List Token → List Spot
  | [] => []
  | t :: ts =>
    if isOperator t then ⟨before, t, ts ++ after⟩ :: operatorSpots (before ++ [t]) after ts
    else operatorSpots (before ++ [t]) after ts

theorem isOperator_of_kind {t : Token} {kind : Kind} (h : t.kind = kind) :
    isOperator t = (kind == .comparison) := by
  unfold isOperator
  rw [h]

theorem operatorSpots_other {t : Token} {kind : Kind} (h : t.kind = kind)
    (other : kind ≠ .comparison) (before after ts : List Token) :
    operatorSpots before after (t :: ts) = operatorSpots (before ++ [t]) after ts := by
  have quiet : isOperator t = false := by
    rw [isOperator_of_kind h]
    exact beq_eq_false_iff_ne.mpr other
  rw [operatorSpots, quiet]
  rfl

theorem operatorSpots_operator {t : Token} (h : t.kind = .comparison)
    (before after ts : List Token) : operatorSpots before after (t :: ts) =
      ⟨before, t, ts ++ after⟩ :: operatorSpots (before ++ [t]) after ts := by
  rw [operatorSpots, isOperator_of_kind h]
  rfl

theorem operatorSpots_append (before after us vs : List Token) :
    operatorSpots before after (us ++ vs) =
      operatorSpots before (vs ++ after) us ++ operatorSpots (before ++ us) after vs := by
  induction us generalizing before with
  | nil =>
    rw [List.append_nil]
    rfl
  | cons t us ih =>
    have later := ih (before ++ [t])
    rw [List.append_assoc, List.singleton_append] at later
    rw [List.cons_append, operatorSpots, operatorSpots, later, List.append_assoc]
    split
    · rfl
    · rfl

theorem operatorSpots_enclosed {opening closing : Token} {kind kind' : Kind}
    (opens : opening.kind = kind) (closes : closing.kind = kind') (hk : kind ≠ .comparison)
    (hk' : kind' ≠ .comparison) (before after ts : List Token) :
    operatorSpots before after (opening :: (ts ++ [closing])) =
      operatorSpots (before ++ [opening]) (closing :: after) ts := by
  rw [operatorSpots_other opens hk, operatorSpots_append, operatorSpots_other closes hk',
    operatorSpots, List.append_nil]
  rfl

theorem length_operatorSpots (before after ts : List Token) :
    (operatorSpots before after ts).length = ts.countP isOperator := by
  induction ts generalizing before with
  | nil => rfl
  | cons t ts ih =>
    rw [operatorSpots, List.countP_cons]
    split
    · rw [List.length_cons, ih]
    · rw [ih, Nat.add_zero]

theorem getElem?_operatorSpots (before us vs : List Token) {t : Token} (h : t.kind = .comparison) :
    (operatorSpots before [] (us ++ t :: vs))[us.countP isOperator]? =
      some ⟨before ++ us, t, vs⟩ := by
  have size := length_operatorSpots before (t :: vs ++ []) us
  rw [operatorSpots_append, ← size, List.getElem?_append_right (Nat.le_refl _), Nat.sub_self,
    operatorSpots_operator h, List.append_nil]
  rfl

/-! ## Brackets around a spot -/

/-- The spot lies between an opening bracket behind the name `outer` and the closing bracket that
matches it. -/
def Spot.Within (outer : Token) (s : Spot) : Prop :=
  ∃ front opening inner rest closing more,
    s.before = front ++ outer :: opening :: inner ∧ opening.kind = .openBracket ∧
      s.after = rest ++ closing :: more ∧ closing.kind = .closeBracket ∧
      Cursor.runUntil .closeBracket (some .openBracket) 0 (inner ++ s.token :: s.after) =
        inner ++ s.token :: rest

/-- The tokens hold neither bracket. -/
def Unbracketed (ts : List Token) : Prop :=
  ∀ t ∈ ts, t.kind ≠ .openBracket ∧ t.kind ≠ .closeBracket

theorem Unbracketed.append {us vs : List Token} (hu : Unbracketed us) (hv : Unbracketed vs) :
    Unbracketed (us ++ vs) := by
  intro t ht
  rcases List.mem_append.mp ht with ht | ht
  · exact hu t ht
  · exact hv t ht

theorem Unbracketed.cons {t : Token} {kind : Kind} {ts : List Token} (h : t.kind = kind)
    (hk : kind ≠ .openBracket ∧ kind ≠ .closeBracket) (hts : Unbracketed ts) :
    Unbracketed (t :: ts) := by
  intro t' ht
  rcases List.mem_cons.mp ht with rfl | ht
  · rw [h]
    exact hk
  · exact hts t' ht

theorem unbracketed_nil : Unbracketed [] := by
  intro t ht
  cases ht

mutual

theorem Operand.Valid.unbracketed : {d : Operand} → d.Valid .brackets → Unbracketed d.tokens
  | _, .group opens inner closes =>
    .cons opens (by decide) (inner.unbracketed.append (.cons closes (by decide) unbracketed_nil))
  | _, .negation isWord opens inner closes =>
    .cons isWord (by decide) (.cons opens (by decide)
      (inner.unbracketed.append (.cons closes (by decide) unbracketed_nil)))
  | _, .presence isName isOperator _ =>
    .cons isName (by decide) (.cons isOperator (by decide) unbracketed_nil)
  | .comparison _ _ literal _ _, .comparison isName isOperator _ _ value => by
    have values : ∀ k ∈ Kind.values, k ≠ .openBracket ∧ k ≠ .closeBracket := by decide
    exact .cons isName (by decide) (.cons isOperator (by decide)
      (.cons rfl (values literal.kind value.mem_values) unbracketed_nil))

theorem Links.Valid.unbracketed : {l : Links} → l.Valid .brackets → Unbracketed l.tokens
  | _, .nil => unbracketed_nil
  | _, .cons isLink operand more =>
    .cons isLink (by decide) (operand.unbracketed.append more.unbracketed)

theorem Chain.Valid.unbracketed : {c : Chain} → c.Valid .brackets → Unbracketed c.tokens
  | _, .mk first more => first.unbracketed.append more.unbracketed

end

/-- what is skipped up to a closing bracket does not close more brackets than it opens -/
theorem countP_runUntil {us ts ws : List Token}
    (h : Cursor.runUntil .closeBracket (some .openBracket) 0 ts = us ++ ws) :
    us.countP (·.kind == .closeBracket) ≤ us.countP (·.kind == .openBracket) := by
  have within := Cursor.tally_le_of_prefix_runUntil (by decide) ⟨ws, h.symm⟩
  rwa [Nat.zero_add] at within

theorem runUntil_unbracketed {us : List Token} {closing : Token} (h : Unbracketed us)
    (closes : closing.kind = .closeBracket) (more : List Token) :
    Cursor.runUntil .closeBracket (some .openBracket) 0 (us ++ closing :: more) = us := by
  induction us with
  | nil => exact Cursor.runUntil_zero_of_close closes more
  | cons t us ih =>
    obtain ⟨notOpen, notClose⟩ := h t (List.mem_cons_self ..)
    have later := ih fun t' ht => h t' (List.mem_cons_of_mem t ht)
    have plain : some t.kind ≠ some Kind.openBracket := fun same => notOpen (Option.some.inj same)
    rw [List.cons_append, Cursor.runUntil_of_plain plain notClose, later]

/-- Every bracket that is opened among the tokens is closed there: no end of the list opens more
brackets than it closes. -/
def Shut (ts : List Token) : Prop :=
  ∀ us vs, ts = us ++ vs →
    vs.countP (·.kind == .openBracket) ≤ vs.countP (·.kind == .closeBracket)

theorem Shut.append {ts ts' : List Token} (h : Shut ts) (h' : Shut ts') : Shut (ts ++ ts') := by
  intro us vs split
  rcases List.append_eq_append_iff.mp split with ⟨a, rfl, rest⟩ | ⟨a, rest, rfl⟩
  · exact h' a vs rest
  · have front := h us a rest
    have back := h' [] ts' rfl
    rw [List.countP_append, List.countP_append]
    omega

theorem Unbracketed.shut {ts : List Token} (h : Unbracketed ts) : Shut ts := by
  rintro us vs rfl
  have none : vs.countP (·.kind == .openBracket) = 0 := by
    rw [List.countP_eq_zero]
    intro t ht
    simpa using (h t (List.mem_append_right us ht)).1
  rw [none]
  exact Nat.zero_le _

theorem shut_brackets {name opening closing : Token} {inner : List Token}
    (isName : name.kind = .name) (opens : opening.kind = .openBracket) (h : Unbracketed inner)
    (closes : closing.kind = .closeBracket) :
    Shut (name :: opening :: (inner ++ [closing])) := by
  intro us vs split
  have none : inner.countP (·.kind == .openBracket) = 0 := by
    rw [List.countP_eq_zero]
    intro t ht
    simpa using (h t ht).1
  have one : (us ++ vs).countP (·.kind == .openBracket) = 1 := by
    rw [← split, List.countP_cons, List.countP_cons, List.countP_append, none]
    simp [isName, opens, closes]
  rw [List.countP_append] at one
  -- the last token of a non-empty end is the closing bracket
  cases vs with
  | nil => exact Nat.le_refl _
  | cons t vs =>
    have last : (t :: vs).getLast? = some closing := by
      have whole : (us ++ t :: vs).getLast? = some closing := by
        rw [← split, ← List.cons_append, ← List.cons_append, List.getLast?_concat]
      rwa [List.getLast?_append_of_ne_nil us (List.cons_ne_nil t vs)] at whole
    have mem : closing ∈ t :: vs := List.mem_of_getLast? last
    have found : 0 < (t :: vs).countP (·.kind == .closeBracket) :=
      List.countP_pos_iff.mpr ⟨closing, mem, by simp [closes]⟩
    omega

mutual

theorem Operand.Valid.shut : {d : Operand} → d.Valid .filter → Shut d.tokens
  | _, .group opens inner closes => by
    have front := (Unbracketed.cons opens (by decide) unbracketed_nil).shut
    have back := (Unbracketed.cons closes (by decide) unbracketed_nil).shut
    exact front.append (inner.shut.append back)
  | _, .negation isWord opens inner closes => by
    have front := (Unbracketed.cons isWord (by decide)
      (.cons opens (by decide) unbracketed_nil)).shut
    have back := (Unbracketed.cons closes (by decide) unbracketed_nil).shut
    exact front.append (inner.shut.append back)
  | _, .presence isName isOperator _ =>
    (Unbracketed.cons isName (by decide) (.cons isOperator (by decide) unbracketed_nil)).shut
  | .comparison _ _ literal _ _, .comparison isName isOperator _ _ value => by
    have values : ∀ k ∈ Kind.values, k ≠ .openBracket ∧ k ≠ .closeBracket := by decide
    exact (Unbracketed.cons isName (by decide) (.cons isOperator (by decide)
      (.cons rfl (values literal.kind value.mem_values) unbracketed_nil))).shut
  | _, .valuePath isName _ opens inner closes =>
    shut_brackets isName opens inner.unbracketed closes

theorem Links.Valid.shut : {l : Links} → l.Valid .filter → Shut l.tokens
  | _, .nil => unbracketed_nil.shut
  | _, .cons isLink operand more => by
    have front := (Unbracketed.cons isLink (by decide) unbracketed_nil).shut
    exact front.append (operand.shut.append more.shut)

theorem Chain.Valid.shut : {c : Chain} → c.Valid .filter → Shut c.tokens
  | _, .mk first more => first.shut.append more.shut

end

theorem not_within_of_shut {s : Spot} (h : Shut s.before) (outer : Token) : ¬ s.Within outer := by
  rintro ⟨front, opening, inner, rest, closing, more, before, opens, -, -, run⟩
  have passed := countP_runUntil run
  have shut := h (front ++ [outer]) (opening :: inner) (by rw [before]; simp)
  rw [List.countP_cons, List.countP_cons] at shut
  simp only [opens, beq_self_eq_true, if_true, reduceCtorEq, beq_iff_eq, if_false] at shut
  omega

theorem within_iff {front us vs more : List Token} {name opening t closing outer : Token}
    (shut : Shut (front ++ [name])) (opens : opening.kind = .openBracket)
    (inside : Unbracketed (us ++ t :: vs)) (closes : closing.kind = .closeBracket) :
    Spot.Within outer ⟨front ++ name :: opening :: us, t, vs ++ closing :: more⟩ ↔
      outer = name := by
  constructor
  · rintro ⟨front', opening', inner, rest, closing', more', before, opens', -, -, run⟩
    have same : front ++ [name] ++ opening :: us = front' ++ [outer] ++ opening' :: inner := by
      simpa using before
    have ends (a : List Token) (h : front ++ [name] = front' ++ [outer] ++ a) (ha : a = []) :
        outer = name := by
      have last := congrArg List.getLast? h
      rw [ha, List.append_nil, List.getLast?_concat, List.getLast?_concat] at last
      exact (Option.some.inj last).symm
    rcases List.append_eq_append_iff.mp same with ⟨a, whole, later⟩ | ⟨a, whole, later⟩
    · cases a with
      | nil => exact ends [] (by rw [whole, List.append_nil, List.append_nil]) rfl
      | cons b a =>
        -- a bracket further right would stand among the tokens in between
        have mem : opening' ∈ us := by
          rw [(List.cons.inj later).2]
          simp
        exact absurd opens' (inside opening' (List.mem_append_left _ mem)).1
    · cases a with
      | nil => exact ends [] whole rfl
      | cons b a =>
        -- a bracket further left is closed before the name
        obtain ⟨rfl, rfl⟩ := List.cons.inj later
        have run' : Cursor.runUntil .closeBracket (some .openBracket) 0
            (a ++ (opening :: us ++ t :: (vs ++ closing :: more))) =
              a ++ (opening :: us ++ t :: rest) := by
          rw [← List.append_assoc, ← List.append_assoc]
          exact run
        have passed := countP_runUntil run'
        have closed := shut (front' ++ [outer]) (opening' :: a) whole
        rw [List.countP_cons, List.countP_cons] at closed
        simp only [opens', beq_self_eq_true, if_true, reduceCtorEq, beq_iff_eq, if_false] at closed
        omega
  · rintro rfl
    refine ⟨front, opening, us, vs, closing, more, rfl, opens, rfl, closes, ?_⟩
    have run := runUntil_unbracketed inside closes more
    rwa [List.append_assoc, List.cons_append] at run

end Phrase

end Scim
