import Scim.Proofs.Descent.Nesting
import Scim.Proofs.Parse.Accept
import Scim.Proofs.Phrase.Alike
import Scim.Proofs.Phrase.Framed
import Scim.Proofs.Scan.Language

/-!
# Filters made of filters

A filter in parentheses, behind `not`, beside another one, or in the brackets of an attribute is
read as it is alone.

* `Tiles.enclosed`       the tokens of a text before a closing parenthesis or bracket;
* `derived_group`, `derived_negation`    what the grammar derives around derived tokens;
* `Filter.parse_links`   filters in parentheses, with operators of one kind between them;
* `Filter.parse_composed`    the filters made of filters.
-/

namespace Scim

open Grammar Descent Phrase Lexeme

/-! ## Texts -/

theorem Tiles.enclosed {p : Int} {cs v : List Char} {ts us : List Token} {kind : Kind} {c : Char}
    (h : Tiles .filter 0 cs ts) (framed : Framed ts) (wall : kind.wall? = some c)
    (closes : c = ')' ∨ c = ']') (h' : Tiles .filter (p + cs.length + 1) v us) :
    Tiles .filter p (cs ++ c :: v)
      (ts.map (Token.shift p) ++ ⟨kind, [c], p + cs.length⟩ :: us) := by
  have moved := h.shift p
  rw [Int.zero_add] at moved
  have closing : Tiles .filter (p + cs.length) ([c] ++ v) (⟨kind, [c], p + cs.length⟩ :: us) :=
    .token (Mode.lexeme?_cons_wall wall v) h'
  refine moved.append_of_settled ?_ (trails_cons closes v) ?_ closing
  · intro t ht
    rw [List.getLast?_map] at ht
    obtain ⟨t', last, rfl⟩ := Option.map_eq_some_iff.mp ht
    exact (framed.last t' last).1
  · rintro ⟨t, mem, isSub⟩
    exact absurd isSub (moved.ne_subAttribute mem)

theorem Tiles.group {p : Int} {cs v : List Char} {ts us : List Token} (h : Tiles .filter 0 cs ts)
    (framed : Framed ts) (h' : Tiles .filter (p + 1 + cs.length + 1) v us) :
    Tiles .filter p ('(' :: (cs ++ ')' :: v))
      (⟨.openParen, ['('], p⟩ :: (ts.map (Token.shift (p + 1)) ++
        ⟨.closeParen, [')'], p + 1 + cs.length⟩ :: us)) := by
  have opens : Mode.filter.lexeme? (['('] ++ (cs ++ ')' :: v)) = some (.openParen, ['(']) :=
    Mode.lexeme?_cons_wall rfl _
  exact .token opens (h.enclosed framed rfl (.inl rfl) h')

/-! ## Derivations -/

section

variable {place : Place} {node : Option Node} {opening closing : Token} {ts us : List Token}

theorem derived_group (opens : opening.kind = .openParen) (h : Derived place node ts)
    (closes : closing.kind = .closeParen) : Derived place node (opening :: (ts ++ [closing])) := by
  cases node with
  | none => exact .group opens h closes
  | some n =>
    obtain ⟨c, valid, rfl, rfl⟩ := h
    exact ⟨.mk (.group opening c closing) .nil, .mk (.group opens valid closes) .nil, rfl,
      List.append_nil _⟩

theorem derived_negation {word : Token} (isWord : word.kind = .negation)
    (opens : opening.kind = .openParen) (h : Derived place node ts)
    (closes : closing.kind = .closeParen) :
    Derived place (node.map .negation) (word :: opening :: (ts ++ [closing])) := by
  cases node with
  | none => exact .negation isWord opens h closes
  | some n =>
    obtain ⟨c, valid, rfl, rfl⟩ := h
    exact ⟨.mk (.negation word opening c closing) .nil,
      .mk (.negation isWord opens valid closes) .nil, rfl, List.append_nil _⟩

end

/-! ## Filters -/

namespace Filter

theorem exists_of_parse_eq_ok {t : String} {n : Option Node}
    (h : Filter.parse .unlimited t = .ok n) :
    ∃ ts, Tiles .filter 0 t.toList ts ∧ Derived .filter n ts ∧ Framed ts := by
  have accepted : Mode.parse .filter .unlimited t = .ok n := h
  obtain ⟨ts, tiles, derived⟩ := Mode.parse_eq_ok_iff_exists.mp accepted
  exact ⟨ts, tiles, derived, framed_of_derived derived⟩

theorem parse_of_tiles {t : String} {n : Option Node} {ts : List Token}
    (tiles : Tiles .filter 0 t.toList ts) (derived : Derived .filter n ts) :
    Filter.parse .unlimited t = .ok n := by
  have accepted : Mode.parse .filter .unlimited t = .ok n :=
    Mode.parse_eq_ok_iff_exists.mpr ⟨ts, tiles, derived⟩
  exact accepted

variable {t t₁ t₂ : String} {n : Option Node} {n₁ n₂ : Node}

theorem parse_group (h : Filter.parse .unlimited t = .ok n) :
    Filter.parse .unlimited ("(" ++ t ++ ")") = .ok n := by
  obtain ⟨ts, tiles, derived, framed⟩ := exists_of_parse_eq_ok h
  have whole : Tiles .filter 0 ('(' :: (t.toList ++ [')'])) _ := tiles.group framed (.nil _)
  have text : ("(" ++ t ++ ")").toList = '(' :: (t.toList ++ [')']) := by simp
  rw [← text] at whole
  refine parse_of_tiles whole ?_
  exact derived_group rfl (Derived.alike derived (forall₂_shift _ ts)) rfl

theorem parse_behind_not (word : String)
    (isWord : ∀ v, Mode.filter.lexeme? (word.toList ++ '(' :: v) = some (.negation, word.toList))
    (h : Filter.parse .unlimited t = .ok n) :
    Filter.parse .unlimited (word ++ "(" ++ t ++ ")") = .ok (n.map .negation) := by
  obtain ⟨ts, tiles, derived, framed⟩ := exists_of_parse_eq_ok h
  have group (p : Int) : Tiles .filter p ('(' :: (t.toList ++ [')'])) _ :=
    tiles.group framed (.nil _)
  have whole : Tiles .filter 0 (word.toList ++ '(' :: (t.toList ++ [')'])) _ :=
    .token (isWord _) (group _)
  have text : (word ++ "(" ++ t ++ ")").toList = word.toList ++ '(' :: (t.toList ++ [')']) := by
    simp
  rw [← text] at whole
  refine parse_of_tiles whole ?_
  exact derived_negation rfl rfl (Derived.alike derived (forall₂_shift _ ts)) rfl

theorem parse_negation (h : Filter.parse .unlimited t = .ok n) :
    Filter.parse .unlimited ("not(" ++ t ++ ")") = .ok (n.map .negation) :=
  parse_behind_not "not" (fun _ => rfl) h

section

variable {kind : Connective} (link : List Char)
  (isLink : ∀ v, Mode.filter.lexeme? (link ++ '(' :: v) = some (.logical, link))
  (isKind : ∀ p, connectiveOf ⟨.logical, link, p⟩ = kind)

include isLink isKind

theorem exists_links {parts : List (String × Node)}
    (h : ∀ part ∈ parts, Filter.parse .unlimited part.1 = .ok (some part.2)) (p : Int) :
    ∃ l : Links, l.Valid .filter ∧ l.trees = parts.map (fun part => (kind, part.2)) ∧
      Tiles .filter p (parts.flatMap fun part => link ++ '(' :: (part.1.toList ++ [')']))
        l.tokens := by
  induction parts generalizing p with
  | nil => exact ⟨.nil, .nil, rfl, .nil p⟩
  | cons part parts ih =>
    obtain ⟨first, others⟩ := List.forall_mem_cons.mp h
    obtain ⟨ts, tiles, derived, framed⟩ := exists_of_parse_eq_ok first
    obtain ⟨l, valid, trees, behind⟩ :=
      ih others (p + link.length + 1 + part.1.toList.length + 1)
    obtain ⟨c, inner, tree, tokens⟩ :=
      Derived.alike derived (forall₂_shift (p + link.length + 1) ts)
    have whole := Tiles.token (isLink _) (tiles.group framed behind)
    refine ⟨.cons ⟨.logical, link, p⟩ (.group ⟨.openParen, ['('], p + link.length⟩ c
      ⟨.closeParen, [')'], p + link.length + 1 + part.1.toList.length⟩) l,
      .cons rfl (.group rfl inner rfl) valid, ?_, ?_⟩
    · rw [Links.trees, isKind, Operand.tree, tree, trees, List.map_cons]
    · rw [Links.tokens, Operand.tokens, tokens, List.flatMap_cons]
      simpa using whole

theorem parse_links {text : String} {parts : List (String × Node)}
    (split : text.toList = '(' :: (t₁.toList ++ ')' ::
      parts.flatMap fun part => link ++ '(' :: (part.1.toList ++ [')'])))
    (first : Filter.parse .unlimited t₁ = .ok (some n₁))
    (h : ∀ part ∈ parts, Filter.parse .unlimited part.1 = .ok (some part.2)) :
    Filter.parse .unlimited text = .ok (some (.joined kind (n₁ :: parts.map Prod.snd))) := by
  obtain ⟨ts, tiles, derived, framed⟩ := exists_of_parse_eq_ok first
  obtain ⟨l, valid, trees, behind⟩ := exists_links link isLink isKind h (0 + 1 + t₁.toList.length + 1)
  obtain ⟨c, inner, tree, tokens⟩ := Derived.alike derived (forall₂_shift (0 + 1) ts)
  have whole := tiles.group framed behind
  have real : kind ≠ .neutral := by
    rw [← isKind 0]
    rcases connectiveOf_cases ⟨.logical, link, 0⟩ with same | same <;> rw [same] <;> decide
  rw [← split] at whole
  refine parse_of_tiles whole ⟨.mk (.group ⟨.openParen, ['('], 0⟩ c
    ⟨.closeParen, [')'], 0 + 1 + t₁.toList.length⟩) l, .mk (.group rfl inner rfl) valid, ?_, ?_⟩
  · have linked : ∀ x ∈ l.trees, x.1 = kind := by
      rw [trees]
      intro x hx
      obtain ⟨part, -, rfl⟩ := List.mem_map.mp hx
      rfl
    rw [Chain.tree, Node.chained_of_kind real linked, Operand.tree, tree, trees, List.map_map]
    rfl
  · rw [Chain.tokens, Operand.tokens, tokens, List.cons_append, List.append_assoc]
    rfl

end

theorem parse_link (link : List Char) {text : String} {kind : Connective}
    (split : text.toList = '(' :: (t₁.toList ++ ')' :: (link ++ '(' :: (t₂.toList ++ [')']))))
    (h₁ : Filter.parse .unlimited t₁ = .ok (some n₁))
    (h₂ : Filter.parse .unlimited t₂ = .ok (some n₂))
    (isLink : ∀ v, Mode.filter.lexeme? (link ++ '(' :: v) = some (.logical, link))
    (isKind : ∀ p, connectiveOf ⟨.logical, link, p⟩ = kind) :
    Filter.parse .unlimited text = .ok (some (.connective kind (n₁ :: n₂.spread kind))) := by
  have second : ∀ part ∈ [(t₂, n₂)], Filter.parse .unlimited part.1 = .ok (some part.2) :=
    List.forall_mem_singleton.mpr h₂
  exact parse_links link isLink isKind (by simpa using split) h₁ second

section

variable {a : String}

theorem tiles_brackets {ts : List Token}
    (named : scan .filter (a ++ "[").toList 0 =
      .ok [⟨.name, a.toList, 0⟩, ⟨.openBracket, ['['], a.length⟩])
    (tiles : Tiles .filter 0 t.toList ts) (framed : Framed ts) :
    ∃ closing : Token, closing.kind = .closeBracket ∧
      Tiles .filter 0 (a ++ "[" ++ t ++ "]").toList (⟨.name, a.toList, 0⟩ ::
        ⟨.openBracket, ['['], a.length⟩ :: (ts.map (Token.shift (a.length + 1)) ++ [closing])) := by
  have front : Tiles .filter 0 (a ++ "[").toList
      ([⟨.name, a.toList, 0⟩] ++ ⟨.openBracket, ['['], a.length⟩ :: []) :=
    scan_eq_ok_iff.mp named
  obtain ⟨u, v, split, -, place, -, other⟩ := front.swap (c := '[') rfl
  have size : u.length = a.toList.length := by
    have same : (a.length : Int) = 0 + u.length := place
    rw [String.length_toList]
    omega
  have same : u = a.toList := by
    have text : a.toList ++ ['['] = u ++ '[' :: v := by simpa using split
    exact (List.append_inj_left text size.symm).symm
  have inner : Tiles .filter (a.length + 1) (t.toList ++ ']' :: [])
      (ts.map (Token.shift (a.length + 1)) ++ ⟨.closeBracket, [']'], _⟩ :: []) :=
    tiles.enclosed framed rfl (.inr rfl) (.nil _)
  have whole := (other (t.toList ++ [']']) _).mpr ⟨_, rfl, inner⟩
  have text : (a ++ "[" ++ t ++ "]").toList = u ++ '[' :: (t.toList ++ [']']) := by simp [same]
  rw [← text] at whole
  exact ⟨_, rfl, whole⟩

theorem parse_brackets
    (named : scan .filter (a ++ "[").toList 0 =
      .ok [⟨.name, a.toList, 0⟩, ⟨.openBracket, ['['], a.length⟩])
    (single : (AttributePath.named a.toList).names.length = 1)
    (h : Filter.parse .unlimited t = .ok (some n₁)) (free : n₁.valuePaths = []) :
    Filter.parse .unlimited (a ++ "[" ++ t ++ "]") =
      .ok (some (.valuePath (.named a.toList) (n₁.under (.named a.toList)) none)) := by
  obtain ⟨ts, tiles, derived, framed⟩ := exists_of_parse_eq_ok h
  obtain ⟨closing, closes, whole⟩ := tiles_brackets named tiles framed
  refine parse_of_tiles whole ?_
  obtain ⟨c, valid, rfl, tokens⟩ := Derived.alike derived (forall₂_shift (a.length + 1) ts)
  rcases chain_brackets_or_nested valid with ⟨-, valid'⟩ | ⟨held, -⟩
  · rw [← tokens]
    exact ⟨.mk (.valuePath ⟨.name, a.toList, 0⟩ ⟨.openBracket, ['['], a.length⟩ c closing) .nil,
      .mk (.valuePath rfl single rfl valid' closes) .nil, rfl, List.append_nil _⟩
  · exact absurd free held

theorem parse_unfit
    (named : scan .filter (a ++ "[").toList 0 =
      .ok [⟨.name, a.toList, 0⟩, ⟨.openBracket, ['['], a.length⟩])
    (h : Filter.parse .unlimited t = .ok n)
    (unfit : (AttributePath.named a.toList).names.length ≠ 1 ∨
      ∀ m, n = some m → m.valuePaths ≠ []) :
    ∃ p site, Filter.parse .unlimited (a ++ "[" ++ t ++ "]") = .error (.problem p) ∧
      p.kind = .valuePath site := by
  obtain ⟨ts, tiles, derived, framed⟩ := exists_of_parse_eq_ok h
  obtain ⟨closing, closes, whole⟩ := tiles_brackets named tiles framed
  have alike := Derived.alike derived (forall₂_shift (a.length + 1) ts)
  have valuePath : RefusedValuePath (Descent.filter (a ++ "[" ++ t ++ "]").length
      (⟨.name, a.toList, 0⟩ :: ⟨.openBracket, ['['], a.length⟩ ::
        (ts.map (Token.shift (a.length + 1)) ++ [closing]))) :=
    filter_bracketed rfl rfl alike closes unfit
  obtain ⟨f, isValuePath, failed⟩ := valuePath
  have refused : Mode.parse .filter .unlimited (a ++ "[" ++ t ++ "]") = _ :=
    Mode.parse_unlimited whole.scan_eq
  refine ⟨.ofFault .filter (a ++ "[" ++ t ++ "]") f, _, ?_, if_pos isValuePath⟩
  show Mode.parse .filter .unlimited (a ++ "[" ++ t ++ "]") = _
  rw [refused]
  show refuse .filter _ (Descent.filter _ _) = _
  rw [failed]
  rfl

end

/-- **Filters made of accepted filters** are accepted and made of their trees: a filter in
parentheses is itself, and behind `not` its negation; two filters joined by an operator are joined
in the tree, where the second gives up its children if it is joined by the same operator; in
brackets a filter is put below the attribute, but for a value path, an empty filter or an attribute
with several names there is none. -/
theorem parse_composed :
    (∀ (t : String) (n : Option Node), Filter.parse .unlimited t = .ok n →
      Filter.parse .unlimited ("(" ++ t ++ ")") = .ok n ∧
      Filter.parse .unlimited ("not(" ++ t ++ ")") = .ok (n.map .negation) ∧
      ∀ a : String, scan .filter (a ++ "[").toList 0 =
          .ok [⟨.name, a.toList, 0⟩, ⟨.openBracket, ['['], a.length⟩] →
        (∀ m, n = some m → m.valuePaths = [] → (AttributePath.named a.toList).names.length = 1 →
          Filter.parse .unlimited (a ++ "[" ++ t ++ "]") =
            .ok (some (.valuePath (.named a.toList) (m.under (.named a.toList)) none))) ∧
        ((AttributePath.named a.toList).names.length ≠ 1 ∨ n = none ∨
            (∃ m, n = some m ∧ m.valuePaths ≠ []) →
          ∃ p site, Filter.parse .unlimited (a ++ "[" ++ t ++ "]") = .error (.problem p) ∧
            p.kind = .valuePath site)) ∧
    ∀ (t₁ t₂ : String) (n₁ n₂ : Node), Filter.parse .unlimited t₁ = .ok (some n₁) →
      Filter.parse .unlimited t₂ = .ok (some n₂) →
      Filter.parse .unlimited ("(" ++ t₁ ++ ") and (" ++ t₂ ++ ")") =
          .ok (some (.connective .conjunction (n₁ :: n₂.spread .conjunction))) ∧
        Filter.parse .unlimited ("(" ++ t₁ ++ ") or (" ++ t₂ ++ ")") =
          .ok (some (.connective .disjunction (n₁ :: n₂.spread .disjunction))) := by
  refine ⟨fun t n h => ⟨parse_group h, parse_negation h, fun a named => ⟨?_, ?_⟩⟩,
    fun t₁ t₂ n₁ n₂ h₁ h₂ => ⟨?_, ?_⟩⟩
  · rintro m rfl free single
    exact parse_brackets named single h free
  · intro unfit
    refine parse_unfit named h (unfit.imp_right ?_)
    rintro (rfl | ⟨m, rfl, held⟩)
    · nofun
    · rintro m' same
      obtain rfl := Option.some.inj same
      exact held
  · have word : (Text.stripBlanks " and ".toList).map Text.lowerAscii = ['a', 'n', 'd'] := by decide
    exact parse_link " and ".toList (by simp) h₁ h₂ (fun _ => rfl) fun _ => if_pos word
  · have word : (Text.stripBlanks " or ".toList).map Text.lowerAscii ≠ ['a', 'n', 'd'] := by decide
    exact parse_link " or ".toList (by simp) h₁ h₂ (fun _ => rfl) fun _ => if_neg word

/-- presences negated, joined and in brackets -/
theorem parse_presences_composed :
    let a : Comparison := ⟨⟨none, ["a"]⟩, .pr, .null⟩
    let b : Comparison := ⟨⟨none, ["b"]⟩, .pr, .null⟩
    Filter.parse .unlimited ("not(" ++ "a pr" ++ ")") = .ok (some (.negation (.comparison a))) ∧
      Filter.parse .unlimited ("(" ++ "a pr" ++ ") or (" ++ "b pr" ++ ")") =
        .ok (some (.connective .disjunction [.comparison a, .comparison b])) ∧
      Filter.parse .unlimited ("c" ++ "[" ++ "a pr" ++ "]") = .ok (some (.valuePath ⟨none, ["c"]⟩
        (.comparison ⟨⟨none, ["c", "a"]⟩, .pr, .null⟩) none)) := by
  intro a b
  have presence {name operator : Token} (isName : name.kind = .name)
      (isOperator : operator.kind = .comparison)
      (word : wordOf operator = Operator.pr.word.toList) :
      (Chain.mk (.presence name operator) .nil).Valid .filter :=
    .mk (.presence isName isOperator word) .nil
  have first : Filter.parse .unlimited "a pr" = .ok (some (.comparison a)) := by
    have scanned : scan .filter "a pr".toList 0 =
        .ok [⟨.name, ['a'], 0⟩, ⟨.comparison, [' ', 'p', 'r'], 1⟩] := rfl
    exact parse_of_tiles (scan_eq_ok_iff.mp scanned)
      ⟨_, presence rfl rfl (by decide), by rfl, rfl⟩
  have second : Filter.parse .unlimited "b pr" = .ok (some (.comparison b)) := by
    have scanned : scan .filter "b pr".toList 0 =
        .ok [⟨.name, ['b'], 0⟩, ⟨.comparison, [' ', 'p', 'r'], 1⟩] := rfl
    exact parse_of_tiles (scan_eq_ok_iff.mp scanned)
      ⟨_, presence rfl rfl (by decide), by rfl, rfl⟩
  obtain ⟨-, negated, brackets⟩ := parse_composed.1 "a pr" _ first
  refine ⟨negated, (parse_composed.2 "a pr" "b pr" _ _ first second).2, ?_⟩
  exact (brackets "c" rfl).1 _ rfl rfl (by decide)

end Filter

end Scim
