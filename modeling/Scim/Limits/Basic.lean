import Scim.Cursor
import Scim.Grammar.Traced

/-!
# Limits

* `Limits`             the largest length of a text and the largest depth of its nesting;
* `nesting`            the depth of nesting of a list of tokens;
* `Limits.start`       the cursor before the first token of a text that keeps the limits.

The length is checked before the text is scanned, the depth before it is read.
-/

namespace Scim

/-- The largest number of characters and the largest number of open groups and brackets; `none` is
no limit.  The readers of limits admit positive numbers only. -/
structure Limits where
  maxLength : Option Nat := some 8192
  maxDepth : Option Nat := some 64
  deriving DecidableEq, Repr, Inhabited

/-- The number of groups and brackets that are open after a token, `depth` before it. -/
def depthAfter (depth : Int) (t : Token) : Int :=
  if t.kind.opens then depth + 1 else if t.kind.closes then depth - 1 else depth

/-- The largest number of open groups and brackets, `depth` of them at the start; never below
zero. -/
def nestingFrom (depth : Int) : List Token → Int
  | [] => 0
  | t :: ts => max (depthAfter depth t) (nestingFrom (depthAfter depth t) ts)

/-- The largest number of groups and brackets that are open at once. -/
def nesting (ts : List Token) : Nat := (nestingFrom 0 ts).toNat

namespace Limits

/-- No limits. -/
def unlimited : Limits := ⟨none, none⟩

/-- Whether a size is above a limit. -/
def exceeded (limit : Option Nat) (actual : Nat) : Option Nat :=
  limit.filter fun l => decide (l < actual)

/-- The cursor before the first token of a text that keeps the limits. -/
def start (limits : Limits) (mode : Mode) (text : String) : Except Failed Cursor :=
  match exceeded limits.maxLength text.length with
  | some limit => .error (.tooLong limit text.length)
  | none =>
    match Cursor.ofText mode text.toList 0 with
    | .error f => .error (.fault f)
    | .ok c =>
      match exceeded limits.maxDepth (nesting c.rest) with
      | some limit => .error (.tooDeep limit (nesting c.rest))
      | none => .ok c

end Limits

end Scim
