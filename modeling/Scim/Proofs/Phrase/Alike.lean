import Scim.Proofs.Phrase.Spelled

/-!
# Tokens that say the same

A derivation does not depend on the places of its tokens, nor on the blanks and letter case of its
operators.

* `Alike`                two tokens of one kind with the same word and, but for operators, the same
                         text;
* `Alike.spelled`        so their names are the same too;
* `Mode.Derives.alike`   the grammar derives the same from tokens that are alike.
-/

namespace Scim

open Grammar Descent

namespace Phrase

/-- Two tokens that say the same. -/
structure Alike (t t' : Token) : Prop where
  kind : t'.kind = t.kind
  word : wordOf t' = wordOf t
  text : t.kind ≠ .negation → t.kind ≠ .logical → t.kind ≠ .comparison → t'.text = t.text

theorem Alike.shift (n : Int) (t : Token) : Alike t (t.shift n) := ⟨rfl, rfl, fun _ _ _ => rfl⟩

theorem alike_refl (t : Token) : Alike t t := ⟨rfl, rfl, fun _ _ _ => rfl⟩

theorem forall₂_shift (n : Int) (ts : List Token) :
    List.Forall₂ Alike ts (ts.map (Token.shift n)) := by
  rw [List.forall₂_map_right_iff, List.forall₂_same]
  exact fun t _ => Alike.shift n t

theorem forall₂_refl (ts : List Token) : List.Forall₂ Alike ts ts :=
  List.forall₂_same.mpr fun t _ => alike_refl t

variable {t t' : Token}

theorem Alike.text_eq (h : Alike t t') {kind : Kind} (isKind : t.kind = kind)
    (hk : kind ≠ .negation ∧ kind ≠ .logical ∧ kind ≠ .comparison) : t'.text = t.text :=
  h.text (by rw [isKind]; exact hk.1) (by rw [isKind]; exact hk.2.1) (by rw [isKind]; exact hk.2.2)

theorem Alike.pathOf_eq (h : Alike t t') (isName : t.kind = .name) : pathOf t' = pathOf t := by
  unfold pathOf
  rw [h.text_eq isName (by decide)]

theorem Alike.connectiveOf_eq (h : Alike t t') : connectiveOf t' = connectiveOf t := by
  unfold connectiveOf
  rw [h.word]

theorem Alike.value_eq (h : Alike t t') (known : t.kind ∈ Kind.values) :
    Grammar.value t' = Grammar.value t := by
  have values : ∀ k ∈ Kind.values, k ≠ .negation ∧ k ≠ .logical ∧ k ≠ .comparison := by decide
  unfold Grammar.value
  rw [h.kind, h.text_eq rfl (values t.kind known)]

theorem Alike.spelled (h : Alike t t') : Spelled id t t' where
  kind := h.kind
  word := h.word
  value := h.value_eq
  path isName := congrArg (AttributePath.mapNames id) (h.pathOf_eq isName)
  sub isSub := congrArg (fun text => id (String.ofList (text.drop 1))) (h.text_eq isSub (by decide))

theorem eq_of_mapNames_id {n m : Option Node}
    (h : n.map (Node.mapNames id) = m.map (Node.mapNames id)) : n = m := by
  have same : Node.mapNames id = id := funext Node.mapNames_id
  rwa [same, Option.map_id] at h

end Phrase

open Phrase

variable {ts us : List Token} {node : Option Node}

theorem Descent.Derived.alike {place : Place} (h : Derived place node ts)
    (alike : List.Forall₂ Alike ts us) : Derived place node us := by
  obtain ⟨node', derived, same⟩ := Derived.spelled h (alike.imp fun _ _ => Alike.spelled)
  rwa [← eq_of_mapNames_id same]

/-- **The grammar derives the same** from tokens that are alike. -/
theorem Mode.Derives.alike {mode : Mode} (h : mode.Derives node ts)
    (alike : List.Forall₂ Alike ts us) : mode.Derives node us := by
  obtain ⟨node', derives, same⟩ := h.spelled (alike.imp fun _ _ => Alike.spelled)
  rwa [← eq_of_mapNames_id same]

end Scim
