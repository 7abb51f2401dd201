import Mathlib.Tactic.NormNum
import Scim.Proofs.Json.Same
import Scim.Tree.Serial

/-!
# Equal trees

Trees are equal if they are built in the same way from equal values, and values if they are the same
number, the same text, or both null.

* `Value.same_toJson`       values are equal if they say the same as JSON values;
* `Node.same_toJson`        trees are equal if they are equal as JSON values;
* `Node.Built`              the trees that the constructors build;
* `Node.same_equivalence`   equality of such trees is an equivalence, and it is equality of their
                            records.
-/

namespace Scim

open Number (Double)

/-! ## Values -/

namespace Value

/-- **Values are equal if they say the same** as JSON values: numbers are compared exactly. -/
theorem same_toJson (v w : Value) : v.toJson.sameAtom w.toJson = v.same w := by
  rw [Bool.eq_iff_iff]
  -- numbers of any two kinds are compared as rational numbers
  rcases v with _ | b | n | (⟨negative, m, e⟩ | negative | _) | s <;>
    rcases w with _ | b' | n' | (⟨negative', m', e'⟩ | negative' | _) | s' <;>
    simp [same, Double.same, dyadic?, Double.dyadic?, ← Dyadic.toRat_inj,
      Dyadic.toRat_ofIntWithPrec_eq_mul_two_pow, toJson, Json.sameAtom, Json.atom?]

theorem same_iff {v w : Value} :
    v.same w = true ↔ ∃ a, v.toJson.atom? = some a ∧ w.toJson.atom? = some a := by
  rw [← same_toJson, Json.sameAtom_iff]

theorem exists_atom? {v : Value} (h : v ≠ .double .undefined) : ∃ a, v.toJson.atom? = some a := by
  rcases v with _ | b | n | (⟨negative, m, e⟩ | negative | _) | s
  all_goals first | exact ⟨_, rfl⟩ | exact absurd rfl h

theorem same_refl {v : Value} (h : v ≠ .double .undefined) : v.same v = true := by
  obtain ⟨a, meaning⟩ := exists_atom? h
  exact same_iff.mpr ⟨a, meaning, meaning⟩

theorem same_symm {v w : Value} (h : v.same w = true) : w.same v = true := by
  obtain ⟨a, first, second⟩ := same_iff.mp h
  exact same_iff.mpr ⟨a, second, first⟩

theorem same_trans {u v w : Value} (h : u.same v = true) (h' : v.same w = true) :
    u.same w = true := by
  obtain ⟨a, first, middle⟩ := same_iff.mp h
  obtain ⟨b, middle', last⟩ := same_iff.mp h'
  obtain rfl := Option.some.inj (middle.symm.trans middle')
  exact same_iff.mpr ⟨a, first, last⟩

theorem toJson_same (v w : Value) : v.toJson.same w.toJson = v.same w := by
  rw [← same_toJson]
  cases v <;> cases w <;> rfl

end Value

/-! ## Parts of a tree -/

@[simp] theorem AttributePath.toJson_same (p q : AttributePath) :
    p.toJson.same q.toJson = (p == q) := by
  obtain ⟨schema, names⟩ := p
  obtain ⟨schema', names'⟩ := q
  rw [Bool.eq_iff_iff]
  simp [toJson, Json.sameFields, Json.lookup]

@[simp] theorem Operator.word_beq (o o' : Operator) : (o.word == o'.word) = (o == o') := by
  cases o <;> cases o' <;> rfl

@[simp] theorem Connective.tag_beq (k l : Connective) : (k.tag == l.tag) = (k == l) := by
  cases k <;> cases l <;> rfl

theorem Comparison.toJson_same (c d : Comparison) : c.toJson.same d.toJson = c.same d := by
  obtain ⟨p, operator, v⟩ := c
  obtain ⟨q, operator', w⟩ := d
  simp [toJson, same, Json.sameFields, Json.lookup, Value.toJson_same, Bool.and_assoc]

namespace Comparison

theorem same_iff {c d : Comparison} : c.same d = true ↔
    c.path = d.path ∧ c.operator = d.operator ∧ c.value.same d.value = true := by
  simp [same, and_assoc]

theorem same_symm {c d : Comparison} (h : c.same d = true) : d.same c = true := by
  obtain ⟨paths, operators, values⟩ := same_iff.mp h
  exact same_iff.mpr ⟨paths.symm, operators.symm, Value.same_symm values⟩

theorem same_trans {b c d : Comparison} (h : b.same c = true) (h' : c.same d = true) :
    b.same d = true := by
  obtain ⟨paths, operators, values⟩ := same_iff.mp h
  obtain ⟨paths', operators', values'⟩ := same_iff.mp h'
  exact same_iff.mpr ⟨paths.trans paths', operators.trans operators',
    Value.same_trans values values'⟩

end Comparison

namespace Node

/-! ## Trees -/

mutual

/-- **Trees are equal if they are equal as JSON values**: the type of a part tells its kind. -/
theorem toJson_same : (m n : Node) → m.toJson.same n.toJson = m.same n
  | path p, n => by
    cases n with
    | path q => exact AttributePath.toJson_same p q
    | connective kind _ => cases kind <;> rfl
    | _ => rfl
  | comparison c, n => by
    cases n with
    | comparison d => exact Comparison.toJson_same c d
    | connective kind _ => cases kind <;> rfl
    | _ => rfl
  | negation inner, n => by
    cases n with
    | negation inner' =>
      have inners := toJson_same inner inner'
      simp [toJson, same, Json.sameFields, Json.lookup, inners]
    | connective kind _ => cases kind <;> rfl
    | _ => rfl
  | connective kind children, n => by
    cases n with
    | connective kind' children' =>
      have all := toJsonAll_same children children'
      simp [toJson, same, Json.sameFields, Json.lookup, all]
    | _ => cases kind <;> rfl
  | valuePath p inner sub, n => by
    cases n with
    | valuePath q inner' sub' =>
      have inners := toJson_same inner inner'
      simp [toJson, same, Json.sameFields, Json.lookup, inners, Bool.and_assoc]
    | connective kind _ => cases kind <;> rfl
    | _ => rfl
  | missing, n => by cases n <;> rfl

theorem toJsonAll_same : (ms ns : List Node) →
    Json.sameItems (toJsonAll ms) (toJsonAll ns) = sameAll ms ns
  | [], [] => rfl
  | [], n :: ns => rfl
  | m :: ms, [] => rfl
  | m :: ms, n :: ns => by
    rw [toJsonAll, toJsonAll, Json.sameItems, toJson_same m n, toJsonAll_same ms ns, sameAll]

end

/-! ## Equality is an equivalence -/

mutual

theorem same_symm : (m n : Node) → m.same n = true → n.same m = true
  | path p, n, h => by
    cases n with
    | path q =>
      simp only [same, beq_iff_eq] at h ⊢
      exact h.symm
    | _ => cases h
  | comparison c, n, h => by
    cases n with
    | comparison d => exact Comparison.same_symm h
    | _ => cases h
  | negation inner, n, h => by
    cases n with
    | negation inner' => exact same_symm inner inner' h
    | _ => cases h
  | connective kind children, n, h => by
    cases n with
    | connective kind' children' =>
      simp only [same, Bool.and_eq_true, beq_iff_eq] at h ⊢
      exact ⟨h.1.symm, sameAll_symm children children' h.2⟩
    | _ => cases h
  | valuePath p inner sub, n, h => by
    cases n with
    | valuePath q inner' sub' =>
      simp only [same, Bool.and_eq_true, beq_iff_eq] at h ⊢
      obtain ⟨⟨paths, inners⟩, subs⟩ := h
      exact ⟨⟨paths.symm, same_symm inner inner' inners⟩, subs.symm⟩
    | _ => cases h
  | missing, n, h => by
    cases n with
    | missing => rfl
    | _ => cases h

theorem sameAll_symm : (ms ns : List Node) → sameAll ms ns = true → sameAll ns ms = true
  | [], [], _ => rfl
  | [], n :: ns, h => by cases h
  | m :: ms, [], h => by cases h
  | m :: ms, n :: ns, h => by
    obtain ⟨first, others⟩ := Bool.and_eq_true_iff.mp h
    rw [sameAll, same_symm m n first, sameAll_symm ms ns others]
    rfl

end

mutual

theorem same_trans : (l m n : Node) → l.same m = true → m.same n = true → l.same n = true
  | path p, m, n, h, h' => by
    cases m with
    | path q =>
      simp only [same, beq_iff_eq] at h
      rwa [h]
    | _ => cases h
  | comparison c, m, n, h, h' => by
    cases m with
    | comparison d =>
      cases n with
      | comparison e => exact Comparison.same_trans h h'
      | _ => cases h'
    | _ => cases h
  | negation inner, m, n, h, h' => by
    cases m with
    | negation inner' =>
      cases n with
      | negation inner'' => exact same_trans inner inner' inner'' h h'
      | _ => cases h'
    | _ => cases h
  | connective kind children, m, n, h, h' => by
    cases m with
    | connective kind' children' =>
      cases n with
      | connective kind'' children'' =>
        simp only [same, Bool.and_eq_true, beq_iff_eq] at h h' ⊢
        exact ⟨h.1.trans h'.1, sameAll_trans children children' children'' h.2 h'.2⟩
      | _ => cases h'
    | _ => cases h
  | valuePath p inner sub, m, n, h, h' => by
    cases m with
    | valuePath q inner' sub' =>
      cases n with
      | valuePath r inner'' sub'' =>
        simp only [same, Bool.and_eq_true, beq_iff_eq] at h h' ⊢
        obtain ⟨⟨paths, inners⟩, subs⟩ := h
        obtain ⟨⟨paths', inners'⟩, subs'⟩ := h'
        exact ⟨⟨paths.trans paths', same_trans inner inner' inner'' inners inners'⟩,
          subs.trans subs'⟩
      | _ => cases h'
    | _ => cases h
  | missing, m, n, h, h' => by
    cases m with
    | missing => exact h'
    | _ => cases h

theorem sameAll_trans : (ls ms ns : List Node) → sameAll ls ms = true → sameAll ms ns = true →
    sameAll ls ns = true
  | [], [], _, _, h' => h'
  | [], m :: ms, _, h, _ => by cases h
  | l :: ls, [], _, h, _ => by cases h
  | l :: ls, m :: ms, [], _, h' => by cases h'
  | l :: ls, m :: ms, n :: ns, h, h' => by
    obtain ⟨first, others⟩ := Bool.and_eq_true_iff.mp h
    obtain ⟨first', others'⟩ := Bool.and_eq_true_iff.mp h'
    rw [sameAll, same_trans l m n first first', sameAll_trans ls ms ns others others']
    rfl

end

/-! ## Trees of the constructors -/

/-- The trees that the constructors build, with numbers that are defined. -/
inductive Built : Node → Prop where
  | path {schema : Option String} {names : List String} {p : AttributePath} :
    AttributePath.make schema names = .ok p → Built (.path p)
  | comparison {p : AttributePath} {word : String} {v : Value} {c : Comparison} :
    Built (.path p) → v ≠ .double .undefined → Comparison.make p word v = .ok c →
    Built (.comparison c)
  | negation {inner : Node} : Built inner → Built (.negation inner)
  | connective {kind : Connective} {children : List Node} {n : Node} :
    (∀ child ∈ children, Built child) → connect kind children = .ok n → Built n
  | valuePath {p : AttributePath} {inner n : Node} {sub : Option String} :
    Built (.path p) → Built inner → within p inner sub = .ok n → Built n

theorem eq_connective_of_connect {kind : Connective} {children : List Node} {n : Node}
    (h : connect kind children = .ok n) : n = .connective kind children := by
  unfold connect at h
  split at h
  · cases h
  · exact (Except.ok.inj h).symm

theorem eq_valuePath_of_within {p : AttributePath} {inner n : Node} {sub : Option String}
    (h : within p inner sub = .ok n) : n = .valuePath p inner sub := by
  unfold within at h
  split at h
  · exact (Except.ok.inj h).symm
  · cases h

theorem value_of_make {p : AttributePath} {word : String} {v : Value} {c : Comparison}
    (h : Comparison.make p word v = .ok c) : c.value = v := by
  unfold Comparison.make at h
  split at h
  · rw [← Except.ok.inj h]
  · cases h

theorem sameAll_refl {ns : List Node} (h : ∀ n ∈ ns, n.same n = true) : sameAll ns ns = true := by
  induction ns with
  | nil => rfl
  | cons n ns ih =>
    obtain ⟨first, others⟩ := List.forall_mem_cons.mp h
    rw [sameAll, first, ih others]
    rfl

theorem allComplete_of_forall {ns : List Node} (h : ∀ n ∈ ns, n.isComplete = true) :
    allComplete ns = true := by
  induction ns with
  | nil => rfl
  | cons n ns ih =>
    obtain ⟨first, others⟩ := List.forall_mem_cons.mp h
    rw [allComplete, first, ih others]
    rfl

namespace Built

theorem same_refl {n : Node} (h : n.Built) : n.same n = true := by
  induction h with
  | path _ => exact beq_self_eq_true _
  | comparison _ defined made =>
    rw [← value_of_make made] at defined
    exact Comparison.same_iff.mpr ⟨rfl, rfl, Value.same_refl defined⟩
  | negation _ ih => exact ih
  | connective _ made ih =>
    obtain rfl := eq_connective_of_connect made
    simp [same, sameAll_refl ih]
  | valuePath _ _ made _ ih =>
    obtain rfl := eq_valuePath_of_within made
    simp [same, ih]

theorem isComplete {n : Node} (h : n.Built) : n.isComplete = true := by
  induction h with
  | path _ => rfl
  | comparison _ _ _ => rfl
  | negation _ ih => exact ih
  | connective _ made ih =>
    obtain rfl := eq_connective_of_connect made
    exact allComplete_of_forall ih
  | valuePath _ _ made _ ih =>
    obtain rfl := eq_valuePath_of_within made
    exact ih

theorem record_eq {n : Node} (h : n.Built) : n.record = .ok n.toJson := by
  rw [record, if_pos h.isComplete]

end Built

/-- **Equality of trees is an equivalence**, and two trees are equal exactly if their records are
equal JSON values. -/
theorem same_equivalence {l m n : Node} (hl : l.Built) (hm : m.Built) :
    l.same l = true ∧ (l.same m = true → m.same l = true) ∧
      (l.same m = true → m.same n = true → l.same n = true) ∧
      ∃ j k, l.record = .ok j ∧ m.record = .ok k ∧ (l.same m = true ↔ j.same k = true) := by
  refine ⟨hl.same_refl, same_symm l m, same_trans l m n, l.toJson, m.toJson, hl.record_eq,
    hm.record_eq, ?_⟩
  rw [toJson_same]

/-- the same number as a truth value, as a whole number and as a double -/
theorem same_one_three_ways :
    let tree (v : Value) : Node := .negation (.comparison ⟨⟨none, ["a"]⟩, .eq, v⟩)
    ((tree (.bool true)).Built ∧ (tree (.int 1)).Built) ∧
      (tree (.bool true)).same (tree (.double (.finite false (2 ^ 52) (-52)))) = true ∧
      ∃ j k, (tree (.bool true)).record = .ok j ∧ (tree (.int 1)).record = .ok k ∧
        j.same k = true := by
  intro tree
  have path : Built (.path ⟨none, ["a"]⟩) :=
    .path (by rfl : AttributePath.make none ["a"] = .ok ⟨none, ["a"]⟩)
  have built (v : Value) (defined : v ≠ .double .undefined) : (tree v).Built :=
    .negation (.comparison path defined (by rfl : Comparison.make ⟨none, ["a"]⟩ "EQ" v = _))
  have one := built (.bool true) nofun
  have one' := built (.int 1) nofun
  obtain ⟨-, -, trans, j, k, written, written', records⟩ :=
    same_equivalence (n := tree (.double (.finite false (2 ^ 52) (-52)))) one one'
  have same : (tree (.bool true)).same (tree (.int 1)) = true := by rfl
  exact ⟨⟨one, one'⟩, trans same (by decide +kernel), j, k, written, written', records.mp same⟩

end Node

end Scim
