import Mathlib.Algebra.Field.Rat
import Mathlib.Algebra.Order.Field.Basic
import Scim.Json.Basic

/-!
# Equal JSON values

Values are compared by what they say and not by how they say it: a truth value is the number one or
zero, whole numbers and doubles are exact rational numbers, and the fields of an object may stand in
any order.

* `Json.Atom`, `Json.atom?`    what a value without parts says;
* `Json.same`                  equality of values.
-/

namespace Scim.Json

/-- What a value without parts says. -/
inductive Atom where
  | null
  | text (s : String)
  | number (q : ℚ)
  | infinite (negative : Bool)
  deriving DecidableEq

/-- What a value without parts says; the undefined number says nothing. -/
def atom? : Json → Option Atom
  | .null => some .null
  | .bool b => some (.number (if b then 1 else 0))
  | .int n => some (.number n)
  | .double (.finite negative m e) => some (.number ((if negative then -m else m : ℚ) * 2 ^ e))
  | .double (.infinite negative) => some (.infinite negative)
  | .string s => some (.text s)
  | _ => none

/-- Whether two values say something, and the same. -/
def sameAtom (v w : Json) : Bool := v.atom?.isSome && v.atom? == w.atom?

mutual

/-- Equality of values. -/
def same : Json → Json → Bool
  | .array items, .array items' => sameItems items items'
  | .object fields, .object fields' =>
    fields.length == fields'.length && sameFields fields fields'
  | v, w => sameAtom v w

def sameItems : List Json → List Json → Bool
  | [], [] => true
  | v :: items, w :: items' => v.same w && sameItems items items'
  | _, _ => false

/-- Whether each field has an equal value under its key among other fields. -/
def sameFields : List (String × Json) → List (String × Json) → Bool
  | [], _ => true
  | (k, v) :: fields, others =>
    (match lookup k others with
      | some w => v.same w
      | none => false) && sameFields fields others

end

theorem sameAtom_iff {v w : Json} :
    sameAtom v w = true ↔ ∃ a, v.atom? = some a ∧ w.atom? = some a := by
  unfold sameAtom
  cases v.atom? with
  | none => simp
  | some a =>
    simp only [Option.isSome_some, Bool.true_and, beq_iff_eq, Option.some.injEq, exists_eq_left']
    exact eq_comm

@[simp] theorem same_string (s t : String) : (Json.string s).same (.string t) = (s == t) := by
  rw [Bool.eq_iff_iff]
  simp [same, sameAtom, atom?]

@[simp] theorem same_array (items items' : List Json) :
    (array items).same (array items') = sameItems items items' := rfl

@[simp] theorem same_object (fields fields' : List (String × Json)) :
    (object fields).same (object fields') =
      (fields.length == fields'.length && sameFields fields fields') := rfl

@[simp] theorem same_ofString? (s t : Option String) :
    (ofString? s).same (ofString? t) = (s == t) := by
  cases s with
  | none => cases t <;> rfl
  | some s =>
    cases t with
    | none => rfl
    | some t => exact same_string s t

@[simp] theorem sameItems_strings (ss ts : List String) :
    sameItems (ss.map .string) (ts.map .string) = (ss == ts) := by
  induction ss generalizing ts with
  | nil => cases ts <;> rfl
  | cons s ss ih =>
    cases ts with
    | nil => rfl
    | cons t ts =>
      rw [List.map_cons, List.map_cons, sameItems, same_string, ih, List.cons_beq_cons]

end Scim.Json
