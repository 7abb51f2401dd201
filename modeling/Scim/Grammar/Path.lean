import Scim.Grammar.Filter

/-!
# Paths

A path names what a change applies to: an attribute, or the values of an attribute that a filter in
brackets selects, possibly with one sub-attribute of them.

* `Path.read`      reads a path and notes the attribute paths that it renames;
* `Path.parse`     the target of a text, or why there is none.
-/

namespace Scim

namespace Path

open Grammar

/-- The sub-attribute behind the brackets, if there is one, without its dot. -/
def subAttribute (c : Cursor) : Traced (Option String × Cursor) := do
  if c.isNext [.subAttribute] then
    let (token, c) ← take [.subAttribute] c
    return (some (String.ofList (token.text.drop 1)), c)
  else return (none, c)

/-- Reads the target at a cursor. -/
def target (budget : Nat) (c : Cursor) : Traced (Node × Cursor) := do
  let (token, c) ← take [.name] c
  let path ← .ofInvalid (AttributePath.ofText token.text)
  if c.isNext [.openBracket] then
    if path.names.length ≠ 1 then .fail (faultAt .deepValuePath token)
    else
      let (filter, c) ← bracketed (nested .path budget) path c
      let (sub, c) ← subAttribute c
      let node ← .ofInvalid (Node.within path filter sub)
      return (node, c)
  else return (.path path, c)

/-- Reads the path at a cursor, with at most `budget` nested groups and brackets. -/
def readAt (budget : Nat) (c : Cursor) : Traced (Option Node) := do
  if c.hasNext then
    let (node, c) ← target budget c
    .ofFault (expectEnd c)
    return some node
  else return none

/-- Reads a path.  A text has no more groups and brackets than characters. -/
def read (limits : Limits) (text : String) : Traced (Option Node) := do
  let c ← .ofFailed (limits.start .path text)
  readAt text.length c

/-- The target of a text. -/
def parse (limits : Limits) (text : String) : Except Refusal (Option Node) :=
  refuse .path text (read limits text).result

end Path

end Scim
