import Scim.Grammar.Expression
import Scim.Limits.Basic

/-!
# Filters

A filter is an expression.  A text without tokens and an empty group are no filter.

* `Filter.read`      reads a filter and notes the attribute paths that it renames;
* `Filter.parse`     the filter of a text, or why there is none.
-/

namespace Scim

namespace Grammar

/-- Refuses the failures of a text. -/
def refuse {α : Type} (mode : Mode) (text : String) (x : Except Failed α) : Except Refusal α :=
  x.mapError (Failed.refusal mode text)

end Grammar

namespace Filter

open Grammar

/-- Reads the filter at a cursor, with at most `budget` nested groups and brackets. -/
def readAt (budget : Nat) (c : Cursor) : Traced (Option Node) := do
  if c.hasNext then
    let (node, c) ← expression .filter budget .filter c
    .ofFault (expectEnd c)
    return node
  else return none

/-- Reads a filter.  A text has no more groups and brackets than characters. -/
def read (limits : Limits) (text : String) : Traced (Option Node) := do
  let c ← .ofFailed (limits.start .filter text)
  readAt text.length c

/-- The filter of a text. -/
def parse (limits : Limits) (text : String) : Except Refusal (Option Node) :=
  refuse .filter text (read limits text).result

end Filter

end Scim
