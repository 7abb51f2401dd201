import Scim.Proofs.Descent.Basic
import Scim.Proofs.Phrase.Basic
import Scim.Proofs.Scan.Group

/-!
# Matched parentheses

The tokens of a group end at the closing parenthesis that matches its opening one.

* `Matched`               every parenthesis has its partner;
* `enclosed_eq`           the tokens before a closing parenthesis, if those are matched;
* `matched_enclosed`      the tokens found before a closing parenthesis are matched;
* `Chain.Valid.matched`   the tokens of a derivation are matched.
-/

namespace Scim

open Descent

namespace Phrase

/-- Every parenthesis has its partner. -/
inductive Matched : List Token → Prop where
  | nil : Matched []
  | other {t : Token} {ts : List Token} :
      t.kind ≠ .openParen → t.kind ≠ .closeParen → Matched ts → Matched (t :: ts)
  | pair {opening closing : Token} {inner ts : List Token} :
      opening.kind = .openParen → Matched inner → closing.kind = .closeParen → Matched ts →
      Matched (opening :: (inner ++ closing :: ts))

theorem Matched.append {ts us : List Token} (ht : Matched ts) (hu : Matched us) :
    Matched (ts ++ us) := by
  induction ht with
  | nil => exact hu
  | other notOpen notClose _ ih => exact .other notOpen notClose ih
  | pair opens inner closes _ _ ih =>
    rw [List.cons_append, List.append_assoc, List.cons_append]
    exact .pair opens inner closes ih

theorem Matched.of_kind {kind : Kind} {t : Token} {ts : List Token} (h : t.kind = kind)
    (notOpen : kind ≠ .openParen) (notClose : kind ≠ .closeParen) (ht : Matched ts) :
    Matched (t :: ts) :=
  .other (by rw [h]; exact notOpen) (by rw [h]; exact notClose) ht

/-! ## Reading up to the matching parenthesis -/

/-- The tokens before the closing parenthesis that matches no opening one, `depth` of which are open
before them. -/
abbrev upTo (depth : Nat) (ts : List Token) : List Token :=
  Cursor.runUntil .closeParen (some .openParen) depth ts

theorem upTo_open {t : Token} (h : t.kind = .openParen) (depth : Nat) (ts : List Token) :
    upTo depth (t :: ts) = t :: upTo (depth + 1) ts :=
  Cursor.runUntil_of_open (congrArg some h) (by rw [h]; decide) depth ts

theorem upTo_close {t : Token} (h : t.kind = .closeParen) (depth : Nat) (ts : List Token) :
    upTo (depth + 1) (t :: ts) = t :: upTo depth ts :=
  Cursor.runUntil_succ_of_close h depth ts

theorem upTo_other {t : Token} (notOpen : t.kind ≠ .openParen) (notClose : t.kind ≠ .closeParen)
    (depth : Nat) (ts : List Token) : upTo depth (t :: ts) = t :: upTo depth ts :=
  Cursor.runUntil_of_plain (fun same => notOpen (Option.some.inj same)) notClose depth ts

theorem Matched.upTo_append {ts : List Token} (h : Matched ts) (depth : Nat) (rest : List Token) :
    upTo depth (ts ++ rest) = ts ++ upTo depth rest := by
  induction h generalizing depth rest with
  | nil => rfl
  | other notOpen notClose _ ih =>
    rw [List.cons_append, upTo_other notOpen notClose, ih, List.cons_append]
  | pair opens _ closes _ inner ih =>
    rw [List.cons_append, List.append_assoc, List.cons_append, upTo_open opens, inner,
      upTo_close closes, ih, List.cons_append, List.append_assoc, List.cons_append]

theorem enclosed_eq {ts rest : List Token} {closing : Token} (h : Matched ts)
    (closes : closing.kind = .closeParen) : enclosed (ts ++ closing :: rest) = ts := by
  have ends : upTo 0 (closing :: rest) = [] := Cursor.runUntil_zero_of_close closes rest
  have passed := h.upTo_append 0 (closing :: rest)
  rwa [ends, List.append_nil] at passed

/-- Matched tokens with a number of closing parentheses between them that match no opening one. -/
inductive Closing : Nat → List Token → Prop where
  | none {ts : List Token} : Matched ts → Closing 0 ts
  | more {n : Nat} {closing : Token} {ts us : List Token} :
      Matched ts → closing.kind = .closeParen → Closing n us → Closing (n + 1) (ts ++ closing :: us)

theorem Closing.cons_other {n : Nat} {t : Token} {ts : List Token} (notOpen : t.kind ≠ .openParen)
    (notClose : t.kind ≠ .closeParen) (h : Closing n ts) : Closing n (t :: ts) := by
  cases h with
  | none inner => exact .none (.other notOpen notClose inner)
  | more inner closes others =>
    rw [← List.cons_append]
    exact .more (.other notOpen notClose inner) closes others

theorem Closing.cons_open {n : Nat} {t : Token} {ts : List Token} (opens : t.kind = .openParen)
    (h : Closing (n + 1) ts) : Closing n (t :: ts) := by
  cases h with
  | more inner closes others =>
    cases others with
    | none inner' => exact .none (.pair opens inner closes inner')
    | @more n closing' ts' us' inner' closes' others' =>
      have longer := Closing.more (.pair opens inner closes inner') closes' others'
      rwa [List.cons_append, List.append_assoc, List.cons_append] at longer

theorem closing_upTo (depth : Nat) {ts rest : List Token} {closing : Token}
    (split : ts = upTo depth ts ++ closing :: rest) : Closing depth (upTo depth ts) := by
  induction ts generalizing depth with
  | nil => cases List.append_eq_nil_iff.mp split.symm |>.2
  | cons t ts ih =>
    by_cases closes : t.kind = .closeParen
    · cases depth with
      | zero =>
        have ends : upTo 0 (t :: ts) = [] := Cursor.runUntil_zero_of_close closes ts
        rw [ends]
        exact .none .nil
      | succ depth =>
        rw [upTo_close closes] at split ⊢
        exact .more .nil closes (ih depth (List.cons.inj split).2)
    · by_cases opens : t.kind = .openParen
      · rw [upTo_open opens] at split ⊢
        exact .cons_open opens (ih (depth + 1) (List.cons.inj split).2)
      · rw [upTo_other opens closes] at split ⊢
        exact .cons_other opens closes (ih depth (List.cons.inj split).2)

theorem matched_enclosed {ts rest : List Token} {closing : Token}
    (split : ts = enclosed ts ++ closing :: rest) : Matched (enclosed ts) := by
  cases closing_upTo 0 split with
  | none inner => exact inner

/-! ## Derivations are matched -/

mutual

theorem Operand.Valid.matched {place : Place} : {d : Operand} → d.Valid place → Matched d.tokens
  | _, .group opens inner closes => .pair opens inner.matched closes .nil
  | _, .negation isWord opens inner closes =>
    .of_kind isWord (by decide) (by decide) (.pair opens inner.matched closes .nil)
  | _, .presence isName isOperator _ =>
    .of_kind isName (by decide) (by decide) (.of_kind isOperator (by decide) (by decide) .nil)
  | .comparison _ _ literal _ _, .comparison isName isOperator _ _ value => by
    have values : ∀ k ∈ Kind.values, k ≠ .openParen ∧ k ≠ .closeParen := by decide
    have plain := values literal.kind value.mem_values
    exact .of_kind isName (by decide) (by decide) (.of_kind isOperator (by decide) (by decide)
      (.other plain.1 plain.2 .nil))
  | .valuePath _ _ inner _, .valuePath isName _ opens valid closes =>
    .of_kind isName (by decide) (by decide) (.of_kind opens (by decide) (by decide)
      (valid.matched.append (.of_kind closes (by decide) (by decide) .nil)))

theorem Links.Valid.matched {place : Place} : {l : Links} → l.Valid place → Matched l.tokens
  | _, .nil => .nil
  | _, .cons isLink operand more =>
    .of_kind isLink (by decide) (by decide) (operand.matched.append more.matched)

theorem Chain.Valid.matched {place : Place} : {c : Chain} → c.Valid place → Matched c.tokens
  | _, .mk first more => first.matched.append more.matched

end

theorem Vacant.matched {ts : List Token} (h : Vacant ts) : Matched ts := by
  induction h with
  | nil => exact .nil
  | group opens _ closes inner => exact .pair opens inner closes .nil
  | negation isWord opens _ closes inner =>
    exact .of_kind isWord (by decide) (by decide) (.pair opens inner closes .nil)

end Phrase

end Scim
