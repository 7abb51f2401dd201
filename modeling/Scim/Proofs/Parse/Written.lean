import Scim.Proofs.Parse.Compose
import Scim.Proofs.Phrase.Normal
import Scim.Proofs.Phrase.Writable

/-!
# Written trees are parsed back

* `Node.written`            the text of a tree;
* `Node.seen`               a tree as its text shows it: inside the brackets of a value path the
                            attribute of the value path is left out;
* `Node.WellFormed`         trees of plain attributes and of values that have a text;
* `Shaped.readsAt`          the text of such a tree gives the tree that it shows;
* `Filter.parse_written`    so every well-formed tree is parsed from its text.
-/

namespace Scim

open Grammar Descent Phrase Lexeme

/-! ## Texts -/

/-- The path as a text shows it at a place: inside the brackets of a value path the name and the
schema of the value path are left out. -/
def AttributePath.seen : Place → AttributePath → AttributePath
  | .filter, p => p
  | .brackets, p => ⟨none, p.names.drop 1⟩

def Comparison.written (place : Place) (c : Comparison) : String :=
  if c.operator = .pr then (c.path.seen place).fullName ++ " pr"
  else (c.path.seen place).fullName ++ " " ++ c.operator.word ++ " " ++ c.value.written

/-- The text between the operands of a connective. -/
def Connective.separator : Connective → String
  | conjunction => " and "
  | disjunction => " or "
  | neutral => ""

namespace Node

mutual

/-- The text of a tree at a place.  Parts that no filter has are not written. -/
def written (place : Place) : Node → String
  | comparison c => c.written place
  | negation inner => "not (" ++ inner.written place ++ ")"
  | connective kind children => kind.separator.intercalate (groups place children)
  | valuePath p inner _ => p.fullName ++ "[" ++ inner.written .brackets ++ "]"
  | path _ | missing => ""

def groups (place : Place) : List Node → List String
  | [] => []
  | n :: ns => ("(" ++ n.written place ++ ")") :: groups place ns

end

mutual

/-- A tree with the paths that its text shows at a place. -/
def seen (place : Place) : Node → Node
  | comparison c => comparison { c with path := c.path.seen place }
  | negation inner => negation (inner.seen place)
  | connective kind children => connective kind (allSeen place children)
  | n => n

/-- Several trees with the paths that their texts show. -/
def allSeen (place : Place) : List Node → List Node
  | [] => []
  | n :: ns => n.seen place :: allSeen place ns

end

theorem allSeen_eq_map (place : Place) (ns : List Node) : allSeen place ns = ns.map (seen place) := by
  induction ns with
  | nil => rfl
  | cons n ns ih => rw [allSeen, ih, List.map_cons]

mutual

theorem seen_filter : (n : Node) → n.seen .filter = n
  | comparison _ | valuePath _ _ _ | path _ | missing => rfl
  | negation inner => congrArg negation (seen_filter inner)
  | connective kind children => congrArg (connective kind) (allSeen_filter children)

theorem allSeen_filter : (ns : List Node) → allSeen .filter ns = ns
  | [] => rfl
  | n :: ns => congrArg₂ List.cons (seen_filter n) (allSeen_filter ns)

end

theorem seen_ne_connective {kind : Connective} {n : Node}
    (h : ∀ children, n ≠ connective kind children) (place : Place) :
    ∀ children, n.seen place ≠ connective kind children := by
  intro children same
  cases n with
  | connective k ns =>
    obtain ⟨rfl, -⟩ := connective.inj same
    exact h ns rfl
  | _ => cases same

theorem toList_written_connective (place : Place) (kind : Connective) (n : Node) (ns : List Node) :
    ((connective kind (n :: ns)).written place).toList = '(' :: ((n.written place).toList ++ ')' ::
      ns.flatMap fun m => kind.separator.toList ++ '(' :: ((m.written place).toList ++ [')'])) := by
  rw [written, String.toList_intercalate]
  induction ns generalizing n with
  | nil => simp [groups]
  | cons m ns ih =>
    have later := ih m
    simp only [groups, List.map_cons, List.intercalate_cons_cons] at later ⊢
    rw [later]
    simp

end Node

/-! ## Well-formed trees -/

/-- The place of a tree inside the brackets of a value path, or at the top of a filter. -/
def placeWithin : Option AttributePath → Place
  | none => .filter
  | some _ => .brackets

/-- A comparison with a text. -/
structure Comparison.Writable (outer : Option AttributePath) (c : Comparison) : Prop where
  continues : ∀ p, outer = some p → p.Continues c.path
  path : (c.path.seen (placeWithin outer)).Writable
  value : c.value.Writable
  presence : c.operator = .pr → c.value = .null

/-- Trees of plain attributes and of values that have a text, in the shape of parsed trees. -/
def Node.WellFormed (n : Node) : Prop :=
  n.Shaped AttributePath.Writable Comparison.Writable none

theorem AttributePath.Continues.under_seen {outer p : AttributePath} (h : outer.Continues p)
    (single : outer.names.length = 1) : outer.under (p.seen .brackets) = p := by
  obtain ⟨schema, names⟩ := p
  obtain ⟨rfl, more, -, rfl⟩ := h
  have shown : (outer.names ++ more).drop 1 = more := by rw [← single, List.drop_left]
  exact congrArg (fun names => (⟨outer.schema, outer.names ++ names⟩ : AttributePath)) shown

theorem Node.Shaped.under_seen {outer : AttributePath} {n : Node} (single : outer.names.length = 1)
    (h : n.Shaped AttributePath.Writable Comparison.Writable (some outer)) :
    (n.seen .brackets).under outer = n ∧ (n.seen .brackets).valuePaths = [] := by
  generalize inside : some outer = place at h
  induction h with
  | @comparison _ c writable =>
    have path := (writable.continues outer inside.symm).under_seen single
    refine ⟨?_, rfl⟩
    show Node.comparison { c with path := outer.under (c.path.seen .brackets) } = _
    rw [path]
  | negation _ ih =>
    obtain ⟨tree, free⟩ := ih inside
    exact ⟨congrArg Node.negation tree, free⟩
  | @connective _ kind ns last _ _ _ _ _ ihs ih =>
    have all : ∀ m ∈ ns ++ [last],
        (m.seen .brackets).under outer = m ∧ (m.seen .brackets).valuePaths = [] := by
      refine List.forall_mem_append.mpr ⟨fun m hm => ihs m hm inside, ?_⟩
      exact List.forall_mem_singleton.mpr (ih inside)
    constructor
    · rw [Node.seen, Node.under, allSeen_eq_map, allUnder_eq_map, List.map_map]
      exact congrArg (Node.connective kind)
        ((List.map_congr_left fun m hm => (all m hm).1).trans (List.map_id _))
    · rw [Node.seen, additive_valuePaths, allSeen_eq_map, List.flatMap_map, List.flatMap_eq_nil_iff]
      exact fun m hm => (all m hm).2
  | valuePath _ _ _ => cases inside

/-! ## Comparisons -/

namespace Filter

variable {p : AttributePath} (hp : p.Writable)

include hp

theorem parse_presence :
    Filter.parse .unlimited (p.fullName ++ " pr") = .ok (some (.comparison ⟨p, .pr, .null⟩)) := by
  have operator : Mode.filter.lexeme? ([' ', 'p', 'r'] ++ []) =
      some (.comparison, [' ', 'p', 'r']) := rfl
  have tiles : Tiles .filter 0 (p.fullName.toList ++ ([' ', 'p', 'r'] ++ [])) _ :=
    .token (hp.lexeme?_fullName (stops_cons rfl)) (.token operator (.nil _))
  have text : (p.fullName ++ " pr").toList = p.fullName.toList ++ ([' ', 'p', 'r'] ++ []) := by simp
  have word (q : Int) :
      wordOf ⟨.comparison, [' ', 'p', 'r'], q⟩ = Operator.pr.word.toList := by
    show (Text.stripBlanks [' ', 'p', 'r']).map Text.lowerAscii = _
    decide
  rw [← text] at tiles
  refine parse_of_tiles tiles ⟨.mk (.presence _ _) .nil,
    .mk (.presence rfl rfl (word _)) .nil, ?_, rfl⟩
  show Node.comparison ⟨AttributePath.named p.fullName.toList, .pr, .null⟩ = _
  rw [hp.named_fullName]

theorem parse_comparison {o : Operator} (other : o ≠ .pr) {v : Value} (hv : v.Writable) :
    Filter.parse .unlimited (p.fullName ++ " " ++ o.word ++ " " ++ v.written) =
      .ok (some (.comparison ⟨p, o, v⟩)) := by
  obtain ⟨kind, literal, run⟩ := hv.exists_literal
  have operator := lexeme?_operator other ((literal 0).takeWhile_blank run)
  have shape : ' ' :: (o.word.toList ++ ' ' :: v.written.toList) =
      ' ' :: (o.word.toList ++ [' ']) ++ v.written.toList := by simp
  have last : Mode.filter.lexeme? (v.written.toList ++ []) = some (kind, v.written.toList) := by
    rwa [List.append_nil]
  rw [shape, ← List.append_nil v.written.toList] at operator
  have tiles : Tiles .filter 0 (p.fullName.toList ++
      (' ' :: (o.word.toList ++ [' ']) ++ (v.written.toList ++ []))) _ :=
    .token (hp.lexeme?_fullName (stops_cons rfl)) (.token operator (.token last (.nil _)))
  have text : (p.fullName ++ " " ++ o.word ++ " " ++ v.written).toList = p.fullName.toList ++
      (' ' :: (o.word.toList ++ [' ']) ++ (v.written.toList ++ [])) := by simp
  rw [← text] at tiles
  refine parse_of_tiles tiles ⟨.mk (.comparison _ _ _ o v) .nil,
    .mk (.comparison rfl rfl other (wordOf_operator o _) (literal _)) .nil, ?_, rfl⟩
  show Node.comparison ⟨AttributePath.named p.fullName.toList, o, v⟩ = _
  rw [hp.named_fullName]

theorem scan_name_bracket : scan .filter (p.fullName ++ "[").toList 0 =
    .ok [⟨.name, p.fullName.toList, 0⟩, ⟨.openBracket, ['['], p.fullName.length⟩] := by
  have bracket : Mode.filter.lexeme? (['['] ++ []) = some (.openBracket, ['[']) := rfl
  have tiles : Tiles .filter 0 (p.fullName.toList ++ (['['] ++ [])) _ :=
    .token (hp.lexeme?_fullName (stops_cons rfl)) (.token bracket (.nil _))
  have text : (p.fullName ++ "[").toList = p.fullName.toList ++ (['['] ++ []) := by simp
  rw [text, tiles.scan_eq, Int.zero_add, String.length_toList]

end Filter

/-! ## Trees -/

theorem Connective.lexeme?_separator {kind : Connective} (real : kind ≠ .neutral) (v : List Char) :
    Mode.filter.lexeme? (kind.separator.toList ++ '(' :: v) =
      some (.logical, kind.separator.toList) := by
  cases kind with
  | neutral => exact absurd rfl real
  | _ => rfl

theorem Connective.connectiveOf_separator {kind : Connective} (real : kind ≠ .neutral) (p : Int) :
    connectiveOf ⟨.logical, kind.separator.toList, p⟩ = kind := by
  have conjunction : (Text.stripBlanks " and ".toList).map Text.lowerAscii = ['a', 'n', 'd'] := by
    decide
  have disjunction : (Text.stripBlanks " or ".toList).map Text.lowerAscii ≠ ['a', 'n', 'd'] := by
    decide
  cases kind with
  | conjunction => exact if_pos conjunction
  | disjunction => exact if_neg disjunction
  | neutral => exact absurd rfl real

/-- The text of a tree at a place gives the tree that it shows. -/
def Node.ReadsAt (place : Place) (n : Node) : Prop :=
  Filter.parse .unlimited (n.written place) = .ok (some (n.seen place))

namespace Node.ReadsAt

theorem comparison {outer : Option AttributePath} {c : Comparison} (h : c.Writable outer) :
    (Node.comparison c).ReadsAt (placeWithin outer) := by
  obtain ⟨path, o, v⟩ := c
  rw [ReadsAt, Node.written, Comparison.written, Node.seen]
  by_cases presence : o = .pr
  · obtain rfl : v = .null := h.presence presence
    subst presence
    exact Filter.parse_presence h.path
  · rw [if_neg presence]
    exact Filter.parse_comparison h.path presence h.value

variable {place : Place}

theorem negation {inner : Node} (h : inner.ReadsAt place) : (Node.negation inner).ReadsAt place :=
  Filter.parse_behind_not "not " (fun _ => rfl) h

theorem connective {kind : Connective} {first last : Node} {ns : List Node}
    (real : kind ≠ .neutral) (differs : ∀ children, last ≠ .connective kind children)
    (head : first.ReadsAt place) (tail : ∀ n ∈ ns ++ [last], n.ReadsAt place) :
    (Node.connective kind (first :: (ns ++ [last]))).ReadsAt place := by
  let parts := (ns ++ [last]).map fun n => (n.written place, n.seen place)
  have read : ∀ part ∈ parts, Filter.parse .unlimited part.1 = .ok (some part.2) :=
    List.forall_mem_map.mpr tail
  have text : ((Node.connective kind (first :: (ns ++ [last]))).written place).toList =
      '(' :: ((first.written place).toList ++ ')' ::
        parts.flatMap fun part => kind.separator.toList ++ '(' :: (part.1.toList ++ [')'])) := by
    rw [toList_written_connective, List.flatMap_map]
  have shown : parts.map Prod.snd = ns.map (seen place) ++ [last.seen place] := by
    rw [List.map_map, List.map_append]
    rfl
  have whole := Filter.parse_links kind.separator.toList (Connective.lexeme?_separator real)
    (Connective.connectiveOf_separator real) text head read
  -- the last child is of another kind, so the connective does not take in its children
  rw [shown, joined_append, spread_of_ne (seen_ne_connective differs _)] at whole
  rw [ReadsAt, seen, allSeen_eq_map, List.map_cons, List.map_append]
  exact whole

theorem valuePath {schema : Option String} {name : String} {inner : Node}
    (path : AttributePath.Writable ⟨schema, [name]⟩)
    (inside : inner.Shaped AttributePath.Writable Comparison.Writable (some ⟨schema, [name]⟩))
    (h : inner.ReadsAt .brackets) :
    (Node.valuePath ⟨schema, [name]⟩ inner none).ReadsAt .filter := by
  obtain ⟨tree, free⟩ := inside.under_seen rfl
  have named := path.named_fullName
  have single : (AttributePath.named
      (⟨schema, [name]⟩ : AttributePath).fullName.toList).names.length = 1 := by
    rw [named]
    rfl
  have whole := Filter.parse_brackets (Filter.scan_name_bracket path) single h free
  rw [named, tree] at whole
  rw [ReadsAt, Node.written]
  exact whole

end Node.ReadsAt

theorem Node.Shaped.readsAt {outer : Option AttributePath} {n : Node}
    (h : n.Shaped AttributePath.Writable Comparison.Writable outer) :
    n.ReadsAt (placeWithin outer) := by
  induction h with
  | comparison writable => exact .comparison writable
  | negation _ ih => exact .negation ih
  | connective real long _ _ differs ihs ih =>
    obtain ⟨first, ns, rfl⟩ := List.exists_cons_of_ne_nil long
    obtain ⟨head, others⟩ := List.forall_mem_cons.mp ihs
    have tail := List.forall_mem_append.mpr ⟨others, List.forall_mem_singleton.mpr ih⟩
    exact .connective real differs head tail
  | valuePath path inside ih => exact .valuePath path inside ih

/-- **Every well-formed tree is parsed from its text.** -/
theorem Filter.parse_written (n : Node) (h : n.WellFormed) :
    Filter.parse .unlimited (n.written .filter) = .ok (some n) := by
  have shown : n.ReadsAt (placeWithin none) := Node.Shaped.readsAt h
  rw [Node.ReadsAt, placeWithin, n.seen_filter] at shown
  exact shown

/-- names that begin like keywords, in a negation and in a value path -/
theorem Filter.parse_keyword_like_names :
    let orders : AttributePath := ⟨some "urn:x", ["orders"]⟩
    let tree : Node := .connective .conjunction
      [.negation (.comparison ⟨⟨none, ["notes"]⟩, .pr, .null⟩),
        .valuePath orders
          (.comparison ⟨⟨some "urn:x", ["orders", "nullable"]⟩, .eq, .string "and"⟩) none]
    tree.WellFormed ∧ Filter.parse .unlimited
      "(not (notes pr)) and (urn:x:orders[nullable eq \"and\"])" = .ok (some tree) := by
  intro orders tree
  have word {others cs : List Char} {c : Char} (letter : c.isAlpha = true)
      (plain : ∀ d ∈ cs, d.isAlphanum = true ∨ d ∈ others) :
      IsWord others (String.ofList (c :: cs)) := ⟨c, cs, String.toList_ofList, letter, plain⟩
  have single {s : String} (isName : IsName s) (free : s.toLower ∉ keywords) :
      AttributePath.Writable ⟨none, [s]⟩ := by
    refine ⟨List.cons_ne_nil s [], List.forall_mem_singleton.mpr isName, ?_, ?_⟩
    · intro schema same
      cases same
    · intro t same
      cases same
      exact free
  have notes := single (s := "notes") (word rfl (by simp)) (by decide +kernel)
  have nullable := single (s := "nullable") (word rfl (by simp)) (by decide +kernel)
  have path : orders.Writable := by
    refine ⟨List.cons_ne_nil _ _, List.forall_mem_singleton.mpr (word rfl (by simp)), ?_, ?_⟩
    · intro schema same
      cases same
      exact word rfl (by simp)
    · intro name same
      have other : some "urn:x" = none := congrArg AttributePath.schema same
      cases other
  have wellFormed : tree.WellFormed := by
    show (Node.connective .conjunction ([_] ++ [_])).Shaped _ _ none
    refine .connective (by decide) (List.cons_ne_nil _ _) ?_ ?_ ?_
    · refine List.forall_mem_singleton.mpr
        (.negation (.comparison ⟨?_, notes, .null, fun _ => rfl⟩))
      intro p same
      cases same
    · refine .valuePath path (.comparison ⟨?_, nullable, .string (by decide), ?_⟩)
      · intro p same
        cases same
        exact ⟨rfl, ["nullable"], List.cons_ne_nil _ _, rfl⟩
      · intro same
        cases same
    · intro children same
      cases same
  have text : tree.written .filter =
      "(not (notes pr)) and (urn:x:orders[nullable eq \"and\"])" := by
    decide +kernel
  refine ⟨wellFormed, ?_⟩
  rw [← text]
  exact Filter.parse_written tree wellFormed

end Scim
