import Scim.Proofs.Report.Address
import Scim.Proofs.Report.Tree

/-!
# Parsed trees can be drawn

* `Node.caption`            the label of a part of a tree;
* `Node.parts`              the trees right below a part, and `at?` the tree at an address;
* `Node.Everywhere`         what holds of every part of a tree;
* `Node.outline`            a tree with the labels of its parts, and `outline_eq`: part by part;
* `Outline.ofJson_shaped`   a tree of known parts has this outline;
* `Mode.drawing_of_parse`   so what is drawn of a parsed tree is its outline.
-/

namespace Scim

/-! ## Outlines of trees -/

namespace Node

/-- The label of a part of a tree. -/
def caption : Node → String
  | path p => "attribute " ++ p.fullName
  | comparison c =>
    if c.operator = .pr then c.path.fullName ++ " pr"
    else c.path.fullName ++ " " ++ c.operator.word ++ " " ++ c.value.toJson.inline
  | negation _ => "not"
  | connective .conjunction _ => "and"
  | connective .disjunction _ => "or"
  | connective .neutral _ => "connective"
  | valuePath p _ none => "value path " ++ p.fullName
  | valuePath p _ (some sub) =>
    "value path " ++ p.fullName ++ if sub.isEmpty then "" else "." ++ sub
  | missing => ""

/-- The trees right below a part, from left to right. -/
def parts : Node → List Node
  | negation inner => [inner]
  | connective _ children => children
  | valuePath _ inner _ => [inner]
  | _ => []

mutual

/-- A tree with the labels of its parts. -/
def outline : Node → Outline
  | negation inner => .node (negation inner).caption.toList [inner.outline]
  | connective kind children =>
    .node (connective kind children).caption.toList (outlines children)
  | valuePath p inner sub => .node (valuePath p inner sub).caption.toList [inner.outline]
  | n => .node n.caption.toList []

def outlines : List Node → List Outline
  | [] => []
  | n :: ns => n.outline :: outlines ns

end

theorem outlines_eq_map (ns : List Node) : outlines ns = ns.map outline := by
  induction ns with
  | nil => rfl
  | cons n ns ih => rw [outlines, ih, List.map_cons]

/-- **The outline of a tree**, part by part. -/
theorem outline_eq (n : Node) : n.outline = .node n.caption.toList (n.parts.map outline) := by
  cases n with
  | connective kind children => rw [outline, outlines_eq_map]; rfl
  | _ => rfl

/-- The tree at an address: the way to it from the root, as the indices of parts. -/
def at? : Node → List Nat → Option Node
  | n, [] => some n
  | n, i :: a => n.parts[i]?.bind (·.at? a)

/-- Something holds of every part of a tree. -/
def Everywhere (P : Node → Prop) (n : Node) : Prop := ∀ a m, n.at? a = some m → P m

theorem everywhere_iff {P : Node → Prop} {n : Node} :
    n.Everywhere P ↔ P n ∧ ∀ m ∈ n.parts, m.Everywhere P := by
  constructor
  · intro h
    refine ⟨h [] n rfl, ?_⟩
    intro m mem a part found
    obtain ⟨i, here⟩ := List.getElem?_of_mem mem
    exact h (i :: a) part (by rw [at?, here, Option.bind_some, found])
  · rintro ⟨own, below⟩ a m found
    cases a with
    | nil =>
      obtain rfl := Option.some.inj found
      exact own
    | cons i a =>
      obtain ⟨part, here, found⟩ := Option.bind_eq_some_iff.mp found
      exact below part (List.mem_of_getElem? here) a m found

theorem toJsonAll_eq_map (ns : List Node) : toJsonAll ns = ns.map toJson := by
  induction ns with
  | nil => rfl
  | cons n ns ih => rw [toJsonAll, ih, List.map_cons]

end Node

namespace Label

theorem textsFrom_strings (index : Nat) (names : List String) :
    textsFrom index (names.map .string) = .ok names := by
  induction names generalizing index with
  | nil => rfl
  | cons name names ih => rw [List.map_cons, textsFrom, ih]; rfl

theorem path_toJson (p : AttributePath) : path p.toJson = .ok p.fullName := by
  have names : field "names" p.toJson = .ok (.array (p.names.map .string)) := rfl
  have name : dotted (.array (p.names.map .string)) = .ok p.name := by
    show (textsFrom 0 _).map _ = _
    rw [textsFrom_strings]
    rfl
  have schema : quote "" "schema" ":" p.toJson ++ p.name = p.fullName := by
    obtain ⟨schema, names⟩ := p
    cases schema with
    | none => exact String.empty_append
    | some s =>
      show (if s.isEmpty = true then "" else "" ++ s ++ ":") ++ _ = if s.isEmpty = true then _ else _
      split
      · exact String.empty_append
      · rw [String.empty_append]
  unfold path
  rw [names]
  show (dotted _ >>= _) = _
  rw [name, ← schema]
  rfl

theorem comparison_toJson (c : Comparison) :
    comparison c.toJson = .ok (Node.comparison c).caption := by
  have named := path_toJson c.path
  have path : field "path" c.toJson = .ok c.path.toJson := rfl
  unfold comparison
  rw [path]
  show (Label.path _ >>= _) = _
  rw [named]
  obtain ⟨p, operator, v⟩ := c
  cases operator <;> rfl

theorem valuePath_toJson (p : AttributePath) (inner : Node) (sub : Option String) :
    valuePath (Node.valuePath p inner sub).toJson = .ok (Node.valuePath p inner sub).caption := by
  have path : field "path" (Node.valuePath p inner sub).toJson = .ok p.toJson := rfl
  unfold valuePath
  rw [path]
  show (Label.path _ >>= _) = _
  rw [path_toJson]
  cases sub with
  | none => exact congrArg Except.ok String.append_empty
  | some s =>
    show Except.ok ("value path " ++ p.fullName ++
      if s.isEmpty = true then "" else "." ++ s ++ "") = _
    rw [String.append_empty]
    rfl

end Label

namespace Outline

theorem mapM_eq_map {α β ε : Type} {f : α → Except ε β} {g : α → β} {l : List α}
    (h : ∀ a ∈ l, f a = .ok (g a)) : l.mapM f = .ok (l.map g) := by
  induction l with
  | nil => rfl
  | cons a l ih =>
    obtain ⟨first, others⟩ := List.forall_mem_cons.mp h
    rw [List.mapM_cons, first]
    show (l.mapM f >>= _) = _
    rw [ih others]
    rfl

section

variable {j : Json} {tag s : String} (type : Label.field "type" j = .ok (.string tag))
  (label : Label.ofType (.string tag) j = .ok s)

include type label

theorem ofJson_leaf (noChildren : hasChildren (.string tag) = false)
    (noInner : hasInner (.string tag) = false) : ofJson j = .ok (.node s.toList []) := by
  unfold ofJson
  rw [type]
  show (Label.ofType _ _ >>= _) = _
  rw [label]
  show (if hasChildren _ = true then _ else _) = _
  rw [noChildren, noInner]
  rfl

theorem ofJson_inner {inner : Json} {o : Outline} (noChildren : hasChildren (.string tag) = false)
    (one : hasInner (.string tag) = true) (field : j.field? "inner" = some inner)
    (drawn : ofJson inner = .ok o) : ofJson j = .ok (.node s.toList [o]) := by
  unfold ofJson
  rw [type]
  show (Label.ofType _ _ >>= _) = _
  rw [label]
  show (if hasChildren _ = true then _ else _) = _
  rw [noChildren, if_neg Bool.false_ne_true, if_pos one]
  split
  · next found =>
    obtain rfl := Option.some.inj (field.symm.trans found)
    rw [drawn]
    rfl
  · next none =>
    rw [field] at none
    cases none

theorem ofJson_children {ns : List Node} (many : hasChildren (.string tag) = true)
    (field : j.field? "children" = some (.array (ns.map Node.toJson)))
    (drawn : ∀ n ∈ ns, ofJson n.toJson = .ok n.outline) :
    ofJson j = .ok (.node s.toList (ns.map Node.outline)) := by
  have all : (ns.map Node.toJson).mapM ofJson = .ok (ns.map Node.outline) := by
    rw [List.mapM_map]
    exact mapM_eq_map drawn
  unfold ofJson
  rw [type]
  show (Label.ofType _ _ >>= _) = _
  rw [label]
  show (if hasChildren _ = true then _ else _) = _
  rw [if_pos many]
  split
  · next found =>
    obtain rfl := Json.array.inj (Option.some.inj (field.symm.trans found))
    show (List.mapM (fun x : { x // x ∈ ns.map Node.toJson } => ofJson x.1) _ >>= _) = _
    rw [List.mapM_subtype (g := ofJson) fun _ _ => rfl, List.unattach_attach, all]
    rfl
  · next other found =>
    exact absurd (Option.some.inj (found.symm.trans field)) (other _)
  · next none =>
    rw [field] at none
    cases none

end

theorem ofJson_path (p : AttributePath) : ofJson p.toJson = .ok (Node.path p).outline := by
  have label : Label.ofType (.string "attribute_path") p.toJson =
      .ok ("attribute " ++ p.fullName) := by
    show (Label.path _).map _ = _
    rw [Label.path_toJson]
    rfl
  exact ofJson_leaf rfl label rfl rfl

theorem ofJson_valuePath (p : AttributePath) {inner : Node} (sub : Option String)
    (drawn : ofJson inner.toJson = .ok inner.outline) :
    ofJson (Node.valuePath p inner sub).toJson = .ok (Node.valuePath p inner sub).outline := by
  have label : Label.ofType (.string "value_path") (Node.valuePath p inner sub).toJson =
      .ok (Node.valuePath p inner sub).caption := Label.valuePath_toJson p inner sub
  exact ofJson_inner rfl label rfl rfl rfl drawn

/-- **A tree of known parts has an outline.** -/
theorem ofJson_shaped {head : AttributePath → Prop}
    {leaf : Option AttributePath → Comparison → Prop} {outer : Option AttributePath} {n : Node}
    (h : n.Shaped head leaf outer) : ofJson n.toJson = .ok n.outline := by
  induction h with
  | @comparison _ c _ => exact ofJson_leaf rfl (Label.comparison_toJson c) rfl rfl
  | negation _ ih => exact ofJson_inner rfl rfl rfl rfl rfl ih
  | @connective _ kind ns last real _ _ _ _ ihs ih =>
    have field : (Node.connective kind (ns ++ [last])).toJson.field? "children" =
        some (.array ((ns ++ [last]).map Node.toJson)) := by
      rw [← Node.toJsonAll_eq_map]
      rfl
    have drawn : ∀ n ∈ ns ++ [last], ofJson n.toJson = .ok n.outline := by
      intro n hn
      rcases List.mem_append.mp hn with hn | hn
      · exact ihs n hn
      · obtain rfl := List.mem_singleton.mp hn
        exact ih
    rw [Node.outline_eq]
    cases kind with
    | conjunction => exact ofJson_children rfl rfl rfl field drawn
    | disjunction => exact ofJson_children rfl rfl rfl field drawn
    | neutral => exact absurd rfl real
  | valuePath _ _ ih => exact ofJson_valuePath _ none ih

end Outline

/-- **Every parsed tree can be drawn**, by its outline. -/
theorem Mode.drawing_of_parse (writer : Writer) {mode : Mode} {limits : Limits} {text : String}
    {n : Node} (h : mode.parse limits text = .ok (some n)) :
    Report.drawing writer (Command.dataOf n) = .ok (writer.drawing n.outline) := by
  have outline : Outline.ofJson n.toJson = .ok n.outline := by
    rcases parts_of_parse h with ⟨p, rfl⟩ | normal | ⟨p, inner, sub, rfl, normal⟩
    · exact Outline.ofJson_path p
    · exact Outline.ofJson_shaped normal
    · cases normal with
      | valuePath _ inside => exact Outline.ofJson_valuePath _ sub (Outline.ofJson_shaped inside)
  have tree : Label.field "ast" (.object (Command.dataOf n)) = .ok n.toJson := rfl
  unfold Report.drawing
  rw [tree]
  show (Outline.ofJson _ >>= _) = _
  rw [outline]
  rfl

end Scim
