import Scim.Proofs.Json.Roundtrip
import Scim.Report.Basic

/-!
# Doubles that are no number

* `Double.isFinite`             a double that is a number;
* `doubles_finiteOnly`          the doubles that are left when the others are made null;
* `finiteOnly_eq_self_iff`      nothing changes if all doubles are numbers.
-/

namespace Scim

open Number (Double)

/-- A double that is a number. -/
def Number.Double.isFinite : Double → Bool
  | .finite _ _ _ => true
  | _ => false

namespace Json

theorem finiteItems_eq_map (items : List Json) : finiteItems items = items.map finiteOnly := by
  induction items with
  | nil => rfl
  | cons v items ih => rw [finiteItems, ih, List.map_cons]

theorem finiteFields_eq_map (fields : List (String × Json)) :
    finiteFields fields = fields.map fun field => (field.1, field.2.finiteOnly) := by
  induction fields with
  | nil => rfl
  | cons field fields ih => rw [finiteFields, ih, List.map_cons]

/-- **The doubles that are left** are those that are numbers. -/
theorem doubles_finiteOnly :
    ∀ j : Json, j.finiteOnly.doubles = j.doubles.filter Double.isFinite := by
  intro j
  induction j using induct with
  | double x => cases x <;> rfl
  | array items ih =>
    rw [finiteOnly, doubles, doubles, doublesOfItems_eq, doublesOfItems_eq, finiteItems_eq_map,
      List.flatMap_map, List.filter_flatMap]
    exact List.flatMap_congr ih
  | object fields ih =>
    rw [finiteOnly, doubles, doubles, doublesOfFields_eq, doublesOfFields_eq, finiteFields_eq_map,
      List.flatMap_map, List.filter_flatMap]
    exact List.flatMap_congr ih
  | _ => rfl

theorem map_eq_self_iff {α : Type} {f : α → α} {l : List α} :
    l.map f = l ↔ ∀ a ∈ l, f a = a := by
  conv_lhs => rhs; rw [← List.map_id l]
  exact List.map_inj_left

/-- **Nothing changes** if all doubles are numbers. -/
theorem finiteOnly_eq_self_iff : ∀ j : Json,
    j.finiteOnly = j ↔ ∀ x ∈ j.doubles, x.isFinite = true := by
  intro j
  induction j using induct with
  | double x => cases x <;> simp [finiteOnly, doubles, Double.isFinite]
  | array items ih =>
    rw [finiteOnly, doubles, doublesOfItems_eq, finiteItems_eq_map, Json.array.injEq,
      map_eq_self_iff]
    constructor
    · intro same x hx
      obtain ⟨v, hv, mem⟩ := List.mem_flatMap.mp hx
      exact (ih v hv).mp (same v hv) x mem
    · intro finite v hv
      exact (ih v hv).mpr fun x mem => finite x (List.mem_flatMap.mpr ⟨v, hv, mem⟩)
  | object fields ih =>
    rw [finiteOnly, doubles, doublesOfFields_eq, finiteFields_eq_map, Json.object.injEq,
      map_eq_self_iff]
    constructor
    · intro same x hx
      obtain ⟨field, hf, mem⟩ := List.mem_flatMap.mp hx
      exact (ih field hf).mp (congrArg Prod.snd (same field hf)) x mem
    · intro finite field hf
      have value := (ih field hf).mpr fun x mem => finite x (List.mem_flatMap.mpr ⟨field, hf, mem⟩)
      exact Prod.ext rfl value
  | _ => simp [finiteOnly, doubles]

end Json

end Scim
