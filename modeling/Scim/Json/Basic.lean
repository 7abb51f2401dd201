import Scim.Number.Double

/-!
# JSON values

Whole numbers and doubles are kept apart, and an object is the list of its fields in order.

* `Json`            the values;
* `Json.field?`     the value of a key in an object;
* `Json.depth`      the number of values on the longest way from a value to a part of it;
* `Json.parts?`     what a value is walked through by: items, keys or characters;
* `Json.isVoid`     null, false, zero and whatever is empty.
-/

namespace Scim

open Number (Double)

/-- A JSON value. -/
inductive Json where
  | null
  | bool (b : Bool)
  | int (n : Int)
  | double (x : Double)
  | string (s : String)
  | array (items : List Json)
  | object (fields : List (String × Json))
  deriving Repr, Inhabited

namespace Json

/-- The first value with the given key. -/
def lookup (key : String) : List (String × Json) → Option Json
  | [] => none
  | (k, v) :: fields => if k = key then some v else lookup key fields

/-- The value of a key in an object; no other value has fields. -/
def field? (key : String) : Json → Option Json
  | .object fields => lookup key fields
  | _ => none

/-- A string, or null. -/
def ofString? : Option String → Json
  | some s => .string s
  | none => .null

mutual

/-- The number of values on the longest way from a value to a part of it, both included. -/
def depth : Json → Nat
  | .array items => depthOfItems items + 1
  | .object fields => depthOfFields fields + 1
  | _ => 1

/-- The largest depth of an item. -/
def depthOfItems : List Json → Nat
  | [] => 0
  | v :: items => max v.depth (depthOfItems items)

/-- The largest depth of the value of a field. -/
def depthOfFields : List (String × Json) → Nat
  | [] => 0
  | (_, v) :: fields => max v.depth (depthOfFields fields)

end

/-- The parts of a value, in order: the items of a list, the keys of an object, the characters of a
string.  No other value has parts. -/
def parts? : Json → Option (List Json)
  | .array items => some items
  | .object fields => some (fields.map fun field => .string field.1)
  | .string s => some (s.toList.map fun c => .string c.toString)
  | _ => none

/-- Whether a value says nothing: null, false, zero, and an empty string, list or object. -/
def isVoid : Json → Bool
  | .null => true
  | .bool b => !b
  | .int n => n == 0
  | .double x => x.same (.finite false 0 0)
  | .string s => s.isEmpty
  | .array items => items.isEmpty
  | .object fields => fields.isEmpty

theorem sizeOf_lookup_lt {key : String} {fields : List (String × Json)} {v : Json}
    (h : lookup key fields = some v) : sizeOf v < sizeOf fields := by
  induction fields with
  | nil => simp [lookup] at h
  | cons field fields ih =>
    obtain ⟨k, w⟩ := field
    simp only [lookup] at h
    split at h
    · obtain rfl := Option.some.inj h
      simp only [List.cons.sizeOf_spec, Prod.mk.sizeOf_spec]
      omega
    · have := ih h
      simp only [List.cons.sizeOf_spec]
      omega

/-- A field is smaller than its object. -/
theorem sizeOf_field?_lt {key : String} {j v : Json} (h : j.field? key = some v) :
    sizeOf v < sizeOf j := by
  cases j with
  | object fields =>
    have := sizeOf_lookup_lt (show lookup key fields = some v from h)
    simp only [Json.object.sizeOf_spec]
    omega
  | _ => simp [field?] at h

end Json

end Scim
