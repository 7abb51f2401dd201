import Scim.Command.Run
import Scim.Proofs.Parse.Values

/-!
# Trees in reports

* `Node.doubles_toJson`      the doubles of a tree as a JSON value are those of its comparisons;
* `Node.toJson_injective`    trees that are the same JSON value are the same;
* `Mode.doubles_of_parse`    the doubles of a parsed tree are canonical or infinite;
* `Node.Finite`              no comparison of a tree has an infinite value;
* `Node.finiteOnly_toJson_iff`   such a tree is the JSON value that a report on it holds.
-/

namespace Scim

open Number (Double)
open Phrase

namespace Node

/-! ## The doubles of a tree -/

theorem doublesOfItems_strings (names : List String) :
    Json.doublesOfItems (names.map .string) = [] := by
  induction names with
  | nil => rfl
  | cons name names ih => rw [List.map_cons, Json.doublesOfItems, ih]; rfl

theorem doubles_ofString? (s : Option String) : (Json.ofString? s).doubles = [] := by
  cases s <;> rfl

theorem doubles_path (p : AttributePath) : p.toJson.doubles = [] := by
  simp [AttributePath.toJson, Json.doubles, Json.doublesOfFields, doubles_ofString?,
    doublesOfItems_strings]

theorem mem_doubles_value {v : Value} {x : Double} :
    x ∈ v.toJson.doubles ↔ v = .double x := by
  cases v <;> simp [Value.toJson, Json.doubles, eq_comm]

mutual

/-- **The doubles of a tree** as a JSON value are those of its comparisons. -/
theorem doubles_toJson : (n : Node) →
    n.toJson.doubles = n.comparisons.flatMap fun c => c.value.toJson.doubles
  | path p => doubles_path p
  | comparison c => by
    simp [toJson, Comparison.toJson, Json.doubles, Json.doublesOfFields, doubles_path, comparisons]
  | negation inner => by
    simp [toJson, Json.doubles, Json.doublesOfFields, comparisons, doubles_toJson inner]
  | connective kind children => by
    simp [toJson, Json.doubles, Json.doublesOfFields, comparisons, doubles_toJsonAll children]
  | valuePath p inner sub => by
    simp [toJson, Json.doubles, Json.doublesOfFields, doubles_path, doubles_ofString?, comparisons,
      doubles_toJson inner]
  | missing => rfl

theorem doubles_toJsonAll : (ns : List Node) →
    Json.doublesOfItems (toJsonAll ns) =
      (comparisonsOfAll ns).flatMap fun c => c.value.toJson.doubles
  | [] => rfl
  | n :: ns => by
    rw [toJsonAll, Json.doublesOfItems, doubles_toJson n, doubles_toJsonAll ns, comparisonsOfAll,
      List.flatMap_append]

end

/-! ## Trees and their JSON values -/

theorem ofString?_injective {s t : Option String} (h : Json.ofString? s = Json.ofString? t) :
    s = t := by
  cases s <;> cases t <;> simp_all [Json.ofString?]

theorem value_toJson_injective {v w : Value} (h : v.toJson = w.toJson) : v = w := by
  cases v <;> cases w <;> simp_all [Value.toJson]

theorem path_toJson_injective {p q : AttributePath} (h : p.toJson = q.toJson) : p = q := by
  obtain ⟨schema, names⟩ := p
  obtain ⟨schema', names'⟩ := q
  simp only [AttributePath.toJson, Json.object.injEq, List.cons.injEq, Prod.mk.injEq, true_and,
    and_true, Json.array.injEq] at h
  obtain ⟨same, strings⟩ := h
  rw [ofString?_injective same, List.map_injective_iff.mpr (fun _ _ => Json.string.inj) strings]

theorem tag_injective {k l : Connective} (h : k.tag = l.tag) : k = l := by
  revert h
  cases k <;> cases l <;> decide

/-- The word for the type of a part; a missing part has none. -/
def typeWord : Node → Option String
  | path _ => some "attribute_path"
  | comparison _ => some "comparison"
  | negation _ => some "negation"
  | connective kind _ => some kind.tag
  | valuePath _ _ _ => some "value_path"
  | missing => none

theorem field?_type (n : Node) : n.toJson.field? "type" = n.typeWord.map .string := by
  cases n <;> rfl

theorem typeWord_eq {m n : Node} (h : m.toJson = n.toJson) : m.typeWord = n.typeWord := by
  have types := congrArg (Json.field? "type") h
  rw [field?_type, field?_type] at types
  exact Option.map_injective (fun _ _ => Json.string.inj) types

mutual

/-- **Trees that are the same JSON value are the same.** -/
theorem toJson_injective : (m : Node) → ∀ n : Node, m.toJson = n.toJson → m = n
  | path p, n, h => by
    have types := typeWord_eq h
    cases n with
    | path q => rw [path_toJson_injective h]
    | connective kind _ => cases kind <;> simp [typeWord, Connective.tag] at types
    | _ => simp [typeWord] at types
  | comparison ⟨p, operator, v⟩, n, h => by
    have types := typeWord_eq h
    cases n with
    | comparison d =>
      obtain ⟨q, operator', w⟩ := d
      simp only [toJson, Comparison.toJson, Json.object.injEq, List.cons.injEq, Prod.mk.injEq,
        true_and, and_true, Json.string.injEq] at h
      obtain ⟨paths, words, values⟩ := h
      rw [path_toJson_injective paths, Operator.word_injective (congrArg String.toList words),
        value_toJson_injective values]
    | connective kind _ => cases kind <;> simp [typeWord, Connective.tag] at types
    | _ => simp [typeWord] at types
  | negation inner, n, h => by
    have types := typeWord_eq h
    cases n with
    | negation inner' =>
      simp only [toJson, Json.object.injEq, List.cons.injEq, Prod.mk.injEq, true_and, and_true] at h
      rw [toJson_injective inner inner' h]
    | connective kind _ => cases kind <;> simp [typeWord, Connective.tag] at types
    | _ => simp [typeWord] at types
  | connective kind children, n, h => by
    have types := typeWord_eq h
    cases n with
    | connective kind' children' =>
      simp only [toJson, Json.object.injEq, List.cons.injEq, Prod.mk.injEq, true_and, and_true,
        Json.array.injEq, Json.string.injEq] at h
      rw [tag_injective h.1, toJsonAll_injective children children' h.2]
    | _ => cases kind <;> simp [typeWord, Connective.tag] at types
  | valuePath p inner sub, n, h => by
    have types := typeWord_eq h
    cases n with
    | valuePath q inner' sub' =>
      simp only [toJson, Json.object.injEq, List.cons.injEq, Prod.mk.injEq, true_and,
        and_true] at h
      obtain ⟨paths, inners, subs⟩ := h
      rw [path_toJson_injective paths, toJson_injective inner inner' inners,
        ofString?_injective subs]
    | connective kind _ => cases kind <;> simp [typeWord, Connective.tag] at types
    | _ => simp [typeWord] at types
  | missing, n, h => by
    have types := typeWord_eq h
    cases n with
    | missing => rfl
    | _ => simp [typeWord] at types

theorem toJsonAll_injective : (ms : List Node) → ∀ ns : List Node,
    toJsonAll ms = toJsonAll ns → ms = ns
  | [], ns, h => by
    cases ns with
    | nil => rfl
    | cons n ns => cases h
  | m :: ms, ns, h => by
    cases ns with
    | nil => cases h
    | cons n ns =>
      obtain ⟨first, more⟩ := List.cons.inj h
      rw [toJson_injective m n first, toJsonAll_injective ms ns more]

end

/-! ## Infinite values -/

theorem mem_doubles_toJson {n : Node} {x : Double} :
    x ∈ n.toJson.doubles ↔ ∃ c ∈ n.comparisons, c.value = .double x := by
  rw [doubles_toJson, List.mem_flatMap]
  exact exists_congr fun c => and_congr_right fun _ => mem_doubles_value

/-- No comparison of a tree has a value that is infinite or undefined. -/
def Finite (n : Node) : Prop :=
  ∀ c ∈ n.comparisons, ∀ x, c.value = .double x → x.isFinite = true

/-- **A tree with finite values only** is the JSON value that a report on it holds. -/
theorem finiteOnly_toJson_iff (n : Node) : n.toJson.finiteOnly = n.toJson ↔ n.Finite := by
  rw [Json.finiteOnly_eq_self_iff]
  constructor
  · intro finite c hc x value
    exact finite x (mem_doubles_toJson.mpr ⟨c, hc, value⟩)
  · intro finite x hx
    obtain ⟨c, hc, value⟩ := mem_doubles_toJson.mp hx
    exact finite c hc x value

end Node

/-! ## Parsed trees -/

/-- **The doubles of a parsed tree** are canonical or infinite. -/
theorem Mode.doubles_of_parse {mode : Mode} {limits : Limits} {text : String} {n : Node}
    (h : mode.parse limits text = .ok (some n)) :
    ∀ x ∈ n.toJson.doubles, x.Canonical ∨ x = .infinite false := by
  intro x hx
  obtain ⟨c, hc, value⟩ := Node.mem_doubles_toJson.mp hx
  rcases literal_of_parse h c hc with none | ⟨t, literal⟩
  · rw [value] at none
    cases none
  · rw [value] at literal
    exact literal.canonical

theorem Mode.canonical_of_parse {mode : Mode} {limits : Limits} {text : String} {n : Node}
    (h : mode.parse limits text = .ok (some n)) :
    ∀ x ∈ n.toJson.finiteOnly.doubles, x.Canonical := by
  intro x hx
  rw [Json.doubles_finiteOnly] at hx
  obtain ⟨mem, finite⟩ := List.mem_filter.mp hx
  rcases doubles_of_parse h x mem with canonical | rfl
  · exact canonical
  · cases finite

end Scim
