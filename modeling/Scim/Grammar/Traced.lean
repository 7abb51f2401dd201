import Scim.Fault
import Scim.Problem
import Scim.Tree.Node

/-!
# Results of reading

Reading a text notes every attribute path that it puts below another one, also when it fails later.

* `Failed`                  why a text cannot be read;
* `Refusal`                 the same for a caller, who also knows the text;
* `Traced`                  a result with the paths renamed so far;
* `Traced.result_bind`      the result of two steps is that of the second after the first;
* `Traced.renamed_bind`     the notes of the second step follow those of the first.
-/

namespace Scim

/-- Why a text cannot be read. -/
inductive Failed where
  | fault (f : Fault)
  | tooLong (limit actual : Nat)
  | tooDeep (limit actual : Nat)
  | invalid (e : Invalid)
  | obstacle (outer : AttributePath) (n : Node)
  /-- The tree of a chain of more than one operand is no connective. -/
  | unlinked (n : Node)
  /-- The budget of nested groups and brackets is used up. -/
  | exhausted

/-- Why a text is refused, for a caller. -/
inductive Refusal where
  | problem (p : Problem)
  /-- A part that the tree cannot hold; it is reported without a place in the text. -/
  | invalid (e : Invalid)

/-- A failure as a refusal of the whole text. -/
def Failed.refusal (mode : Mode) (text : String) : Failed → Refusal
  | fault f => .problem (.ofFault mode text f)
  | tooLong limit actual => .problem (.tooLong limit actual)
  | tooDeep limit actual => .problem (.tooDeep limit actual)
  | invalid e => .invalid e
  | obstacle outer n => .problem (.obstacle outer n)
  | unlinked n => .problem (.unlinked n)
  | exhausted => .problem .exhausted

/-- A result, and the new attribute paths that were made on the way to it. -/
structure Traced (α : Type) where
  renamed : List AttributePath
  result : Except Failed α

namespace Traced

variable {α β : Type}

/-- A failure. -/
def fail (e : Failed) : Traced α := ⟨[], .error e⟩

/-- Notes the new paths. -/
def note (paths : List AttributePath) : Traced Unit := ⟨paths, .ok ()⟩

instance : Monad Traced where
  pure a := ⟨[], .ok a⟩
  bind x f :=
    match x.result with
    | .ok a => ⟨x.renamed ++ (f a).renamed, (f a).result⟩
    | .error e => ⟨x.renamed, .error e⟩

/-- A step that can fail. -/
def ofFailed : Except Failed α → Traced α
  | .ok a => pure a
  | .error e => fail e

/-- A step that can meet a fault. -/
def ofFault : Except Fault α → Traced α
  | .ok a => pure a
  | .error f => fail (.fault f)

/-- A step that can meet an invalid part. -/
def ofInvalid : Except Invalid α → Traced α
  | .ok a => pure a
  | .error e => fail (.invalid e)

@[simp] theorem result_pure (a : α) : (pure a : Traced α).result = .ok a := rfl

@[simp] theorem renamed_pure (a : α) : (pure a : Traced α).renamed = [] := rfl

theorem result_bind (x : Traced α) (f : α → Traced β) :
    (x >>= f).result = x.result.bind fun a => (f a).result := by
  obtain ⟨notes, a | a⟩ := x <;> rfl

theorem renamed_bind (x : Traced α) (f : α → Traced β) :
    (x >>= f).renamed = x.renamed ++ (match x.result with
      | .ok a => (f a).renamed
      | .error _ => []) := by
  obtain ⟨notes, a | a⟩ := x
  · exact (List.append_nil notes).symm
  · rfl

end Traced

end Scim
