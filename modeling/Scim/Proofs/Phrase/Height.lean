import Scim.Proofs.Phrase.Balance
import Scim.Proofs.Phrase.Folded

/-!
# The height of trees

* `Node.height`           the number of comparisons, negations, connectives and value paths on a
                          longest branch of a tree;
* `Folded.height_le`      folding adds one level at most;
* `Chain.Valid.height_le` the tree of a derivation is at most three levels high, and three more for
                          each level of nesting of its tokens.
-/

namespace Scim

namespace Node

mutual

/-- The number of comparisons, negations, connectives and value paths on a longest branch. -/
def height : Node → Nat
  | comparison _ => 1
  | negation inner => inner.height + 1
  | connective _ children => tallest children + 1
  | valuePath _ inner _ => inner.height + 1
  | path _ | missing => 0

/-- The height of the highest of several trees. -/
def tallest : List Node → Nat
  | [] => 0
  | n :: ns => max n.height (tallest ns)

end

theorem tallest_le_iff {ns : List Node} {k : Nat} : tallest ns ≤ k ↔ ∀ n ∈ ns, n.height ≤ k := by
  induction ns with
  | nil => exact ⟨fun _ => nofun, fun _ => Nat.zero_le k⟩
  | cons n ns ih =>
    show max n.height (tallest ns) ≤ k ↔ _
    rw [Nat.max_le, List.forall_mem_cons, ih]

mutual

theorem height_under (outer : AttributePath) : (n : Node) → (n.under outer).height = n.height
  | path _ | comparison _ | valuePath _ _ _ | missing => rfl
  | negation inner => congrArg (· + 1) (height_under outer inner)
  | connective _ children => congrArg (· + 1) (tallest_under outer children)

theorem tallest_under (outer : AttributePath) :
    (ns : List Node) → tallest (allUnder outer ns) = tallest ns
  | [] => rfl
  | n :: ns => congrArg₂ max (height_under outer n) (tallest_under outer ns)

end

end Node

namespace Phrase

theorem Folded.height_le {kind : Connective} {ns : List Node} {n : Node} {k : Nat}
    (h : Folded kind ns n) (low : ∀ m ∈ ns, m.height ≤ k) : n.height ≤ k + 1 := by
  have connected {ns : List Node} (low : ∀ m ∈ ns, m.height ≤ k) :
      (Node.connective kind ns).height ≤ k + 1 :=
    Nat.succ_le_succ (Node.tallest_le_iff.mpr low)
  cases h with
  | single n => exact Nat.le_succ_of_le (low n (List.mem_singleton_self n))
  | last n ns => exact connected low
  | spread n ns children =>
    obtain ⟨before, last⟩ := List.forall_mem_append.mp low
    have inside : (Node.connective kind children).height ≤ k := last _ (List.mem_singleton_self _)
    have lower := Node.tallest_le_iff.mp (Nat.le_of_succ_le inside)
    exact connected (List.forall_mem_append.mpr ⟨before, lower⟩)

theorem le_nesting_pair {height : Nat} {opening closing : Token} {inner : List Token}
    (pairs : Pairs opening closing) (h : Balanced inner) (low : height ≤ 3 * (nesting inner + 1)) :
    height ≤ 3 * nesting (opening :: (inner ++ [closing])) := by
  have deep := nesting_pair pairs h []
  omega

theorem Links.heights_le {l : Links} {k k' : Nat} (h : ∀ link ∈ l.trees, link.2.height ≤ 3 * k + 1)
    (more : k ≤ k') : ∀ link ∈ l.trees, link.2.height ≤ 3 * k' + 1 := by
  intro link hl
  have := h link hl
  omega

mutual

theorem Operand.Valid.height_le {place : Place} : {d : Operand} → d.Valid place →
    d.tree.height ≤ 3 * nesting d.tokens + 1
  | _, .group opens valid closes =>
    Nat.le_succ_of_le (le_nesting_pair (.inl ⟨opens, closes⟩) valid.balanced valid.height_le)
  | _, .negation isWord opens valid closes => by
    have low := le_nesting_pair (.inl ⟨opens, closes⟩) valid.balanced valid.height_le
    rw [Operand.tokens, nesting_cons_of_kind isWord (by decide)]
    exact Nat.succ_le_succ low
  | _, .presence _ _ _ => Nat.succ_le_succ (Nat.zero_le _)
  | _, .comparison _ _ _ _ _ => Nat.succ_le_succ (Nat.zero_le _)
  | _, .valuePath isName _ opens valid closes => by
    have low := le_nesting_pair (.inr ⟨opens, closes⟩) valid.balanced valid.height_le
    rw [Operand.tokens, nesting_cons_of_kind isName (by decide), Operand.tree, Node.height,
      Node.height_under]
    exact Nat.succ_le_succ low

theorem Links.Valid.height_le {place : Place} : {l : Links} → l.Valid place →
    ∀ link ∈ l.trees, link.2.height ≤ 3 * nesting l.tokens + 1
  | _, .nil => by
    intro link hl
    cases hl
  | .cons _ operand more, .cons isLink valid links => by
    have deep := valid.balanced.nesting_append more.tokens
    rw [Links.trees, Links.tokens, nesting_cons_of_kind isLink (by decide), deep,
      List.forall_mem_cons]
    refine ⟨Nat.le_trans valid.height_le ?_, Links.heights_le links.height_le ?_⟩
    · omega
    · omega

/-- **The tree of a derivation** is no higher than the nesting of its tokens allows. -/
theorem Chain.Valid.height_le {place : Place} : {c : Chain} → c.Valid place →
    c.tree.height ≤ 3 * (nesting c.tokens + 1)
  | .mk first more, .mk valid links => by
    have deep := valid.balanced.nesting_append more.tokens
    rw [Chain.tokens, deep]
    have low : (Chain.mk first more).tree.height ≤
        3 * max (nesting first.tokens) (nesting more.tokens) + 1 + 1 + 1 :=
      Chain.tree_of_folds (fun _ _ => Folded.height_le) (fun _ _ => Folded.height_le)
        (Nat.le_trans valid.height_le (by omega)) (Links.heights_le links.height_le (by omega))
    exact low

end

end Phrase

end Scim
