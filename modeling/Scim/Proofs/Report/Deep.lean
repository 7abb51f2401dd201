import Scim.Command.Options
import Scim.Proofs.Parse.Compose
import Scim.Proofs.Parse.Depth
import Scim.Tree.Serial

/-!
# Trees that nest deep

The JSON value of a tree nests deeper than its text, though not by much more than a factor.

* `Mode.depth_toJson_le`    how deep it nests at most, under a limit of depth;
* `Filter.Reads`            a text is read as a tree, with some depth of nesting;
* `Filter.wrapped`          a filter inside a negation, inside a conjunction, inside a disjunction;
* `Filter.Reads.wrapped`    it is read as such, with one more level of nesting;
* `Filter.parse_nested`     filters inside each other are accepted, as far as the limits allow;
* `Filter.depth_nested`     each level of nesting adds five levels to their JSON values.
-/

namespace Scim

open Grammar Descent Phrase Lexeme

/-! ## At most -/

theorem Json.depth_strings (names : List String) : (Json.array (names.map .string)).depth ≤ 2 := by
  have items : Json.depthOfItems (names.map .string) ≤ 1 := by
    induction names with
    | nil => exact Nat.zero_le _
    | cons name names ih =>
      rw [List.map_cons, Json.depthOfItems]
      exact Nat.max_le.mpr ⟨Nat.le_refl 1, ih⟩
  rw [Json.depth]
  omega

theorem Json.depth_ofString? (s : Option String) : (Json.ofString? s).depth = 1 := by
  cases s <;> rfl

theorem AttributePath.depth_toJson_le (p : AttributePath) : p.toJson.depth ≤ 3 := by
  have names := Json.depth_strings p.names
  have schema := Json.depth_ofString? p.schema
  simp only [toJson, Json.depth, Json.depthOfFields, schema] at names ⊢
  omega

theorem Value.depth_toJson (v : Value) : v.toJson.depth = 1 := by
  cases v <;> rfl

namespace Node

mutual

theorem depth_toJson_le : (n : Node) → n.toJson.depth ≤ 2 * n.height + 3
  | path p => p.depth_toJson_le
  | comparison c => by
    have path := c.path.depth_toJson_le
    have value := c.value.depth_toJson
    simp only [toJson, Comparison.toJson, Json.depth, Json.depthOfFields, height, value]
    omega
  | negation inner => by
    have below := depth_toJson_le inner
    simp only [toJson, Json.depth, Json.depthOfFields, height]
    omega
  | connective kind children => by
    have below := depth_toJsonAll_le children
    simp only [toJson, Json.depth, Json.depthOfFields, height]
    omega
  | valuePath p inner subAttribute => by
    have path := p.depth_toJson_le
    have below := depth_toJson_le inner
    have sub := Json.depth_ofString? subAttribute
    simp only [toJson, Json.depth, Json.depthOfFields, height, sub]
    omega
  | missing => by decide

theorem depth_toJsonAll_le : (ns : List Node) →
    Json.depthOfItems (toJsonAll ns) ≤ 2 * tallest ns + 3
  | [] => Nat.zero_le _
  | n :: ns => by
    have first := depth_toJson_le n
    have others := depth_toJsonAll_le ns
    simp only [toJsonAll, Json.depthOfItems, tallest]
    omega

end

end Node

/-- **The depth of a printed tree** under a limit of depth. -/
theorem Mode.depth_toJson_le {mode : Mode} {limits : Limits} {text : String} {n : Node} {d : Nat}
    (limited : limits.maxDepth = some d) (h : mode.parse limits text = .ok (some n)) :
    n.toJson.depth ≤ 6 * d + 9 := by
  cases started : limits.start mode text with
  | error e =>
    rw [parse_of_start_error started] at h
    cases h
  | ok c =>
    have flat := Limits.nesting_le_of_start limited started
    obtain ⟨ts, scanned, rfl⟩ := Limits.start_eq_ok started
    have low := ((parse_eq_ok_iff scanned).mp (parse_unlimited_of_ok h)).height_le
    have depth := n.depth_toJson_le
    have within : nesting ts ≤ d := flat
    omega

/-! ## At least -/

theorem nestingFrom_shift (depth n : Int) (ts : List Token) :
    nestingFrom depth (ts.map (Token.shift n)) = nestingFrom depth ts := by
  induction ts generalizing depth with
  | nil => rfl
  | cons t ts ih => exact congrArg (max (depthAfter depth t)) (ih (depthAfter depth t))

theorem nesting_shift (n : Int) (ts : List Token) :
    nesting (ts.map (Token.shift n)) = nesting ts :=
  congrArg Int.toNat (nestingFrom_shift 0 n ts)

namespace Filter

def leaf : Node := .comparison ⟨⟨none, ["a"]⟩, .pr, .null⟩

/-- A text inside a negation, inside a conjunction, inside a disjunction. -/
def wrapped (t : String) : String := "a pr and not(" ++ t ++ ") or a pr"

/-- A tree inside a negation, inside a conjunction, inside a disjunction. -/
def wrappedTree (n : Node) : Node :=
  .connective .disjunction [.connective .conjunction [leaf, .negation n], leaf]

/-- The tree is derived from the tokens of the text, and they nest as deep as said. -/
def Reads (t : String) (n : Node) (depth : Nat) : Prop :=
  ∃ ts, Tiles .filter 0 t.toList ts ∧ Derived .filter (some n) ts ∧ nesting ts = depth

theorem Reads.parse {t : String} {n : Node} {depth : Nat} (h : Reads t n depth) {limits : Limits}
    (short : ∀ l, limits.maxLength = some l → t.length ≤ l)
    (flat : ∀ d, limits.maxDepth = some d → depth ≤ d) :
    Mode.filter.parse limits t = .ok (some n) := by
  obtain ⟨ts, tiles, derived, deep⟩ := h
  rw [← deep] at flat
  rw [Mode.parse_of_keeps (Limits.exceeded_eq_none_iff.mpr short) tiles.scan_eq
    (Limits.exceeded_eq_none_iff.mpr flat)]
  exact Mode.parse_eq_ok_iff_exists.mpr ⟨ts, tiles, derived⟩

/-- The tree of a value path and a presence. -/
def joinedTree : Node :=
  .connective .conjunction
    [.valuePath ⟨none, ["a"]⟩ (.comparison ⟨⟨none, ["a", "b"]⟩, .eq, .int 1⟩) none,
      .comparison ⟨⟨none, ["c"]⟩, .pr, .null⟩]

theorem reads_joined : Reads "a[b eq 1] and c pr" joinedTree 1 := by
  let a : Token := ⟨.name, ['a'], 0⟩
  let opening : Token := ⟨.openBracket, ['['], 1⟩
  let b : Token := ⟨.name, ['b'], 2⟩
  let eq : Token := ⟨.comparison, [' ', 'e', 'q', ' '], 3⟩
  let one : Token := ⟨.number, ['1'], 7⟩
  let closing : Token := ⟨.closeBracket, [']'], 8⟩
  let link : Token := ⟨.logical, [' ', 'a', 'n', 'd', ' '], 9⟩
  let c : Token := ⟨.name, ['c'], 14⟩
  let pr : Token := ⟨.comparison, [' ', 'p', 'r'], 15⟩
  have scanned : scan .filter "a[b eq 1] and c pr".toList 0 =
      .ok [a, opening, b, eq, one, closing, link, c, pr] := by rfl
  have inner : (Chain.mk (.comparison b eq one .eq (.int 1)) .nil).Valid .brackets :=
    .mk (.comparison rfl rfl (by decide) (by decide) (.whole rfl (by decide) (by decide))) .nil
  have valid : (Chain.mk (.valuePath a opening _ closing)
      (.cons link (.presence c pr) .nil)).Valid .filter :=
    .mk (.valuePath rfl rfl rfl inner rfl) (.cons rfl (.presence rfl rfl (by decide)) .nil)
  exact ⟨_, scan_eq_ok_iff.mp scanned, ⟨_, valid, by rfl, rfl⟩, by rfl⟩

def leafAt (p : Int) : Operand :=
  .presence ⟨.name, ['a'], p⟩ ⟨.comparison, [' ', 'p', 'r'], p + 1⟩

/-- The chain of a text that is wrapped, for the place of the closing parenthesis. -/
def wrappedChain (c : Chain) (p : Int) : Chain :=
  .mk (leafAt 0) (.cons ⟨.logical, [' ', 'a', 'n', 'd', ' '], 4⟩
    (.negation ⟨.negation, ['n', 'o', 't'], 9⟩ ⟨.openParen, ['('], 12⟩ c ⟨.closeParen, [')'], p⟩)
    (.cons ⟨.logical, [' ', 'o', 'r', ' '], p + 1⟩ (leafAt (p + 1 + 4)) .nil))

theorem valid_leafAt (p : Int) : (leafAt p).Valid .filter := by
  refine .presence rfl rfl ?_
  show (Text.stripBlanks [' ', 'p', 'r']).map Text.lowerAscii = _
  decide

theorem valid_wrappedChain {c : Chain} (h : c.Valid .filter) (p : Int) :
    (wrappedChain c p).Valid .filter :=
  .mk (valid_leafAt _) (.cons rfl (.negation rfl rfl h rfl) (.cons rfl (valid_leafAt _) .nil))

theorem tree_wrappedChain (c : Chain) (p : Int) :
    (wrappedChain c p).tree = wrappedTree c.tree := rfl

theorem nesting_wrappedChain {c : Chain} (h : c.Valid .filter) (p : Int) :
    nesting (wrappedChain c p).tokens = nesting c.tokens + 1 := by
  simp only [wrappedChain, leafAt, Chain.tokens, Links.tokens, Operand.tokens, List.cons_append,
    List.nil_append, List.append_assoc]
  rw [nesting_cons_of_plain rfl rfl, nesting_cons_of_plain rfl rfl, nesting_cons_of_plain rfl rfl,
    nesting_cons_of_plain rfl rfl, nesting_pair (.inl ⟨rfl, rfl⟩) h.balanced]
  rfl

theorem reads_leaf : Reads "a pr" leaf 0 := by
  have tiles : Tiles .filter 0 (['a'] ++ ([' ', 'p', 'r'] ++ [])) _ :=
    .token (by rfl) (.token (by rfl) (.nil _))
  exact ⟨_, tiles, ⟨.mk (leafAt 0) .nil, .mk (valid_leafAt 0) .nil, rfl, rfl⟩, rfl⟩

theorem Reads.wrapped {t : String} {n : Node} {depth : Nat} (h : Reads t n depth) :
    Reads (wrapped t) (wrappedTree n) (depth + 1) := by
  obtain ⟨ts, tiles, derived, deep⟩ := h
  obtain ⟨c, valid, rfl, tokens⟩ := Derived.alike derived (forall₂_shift (12 + 1) ts)
  have after (p : Int) :
      Tiles .filter p ([' ', 'o', 'r', ' '] ++ (['a'] ++ ([' ', 'p', 'r'] ++ []))) _ :=
    .token (by rfl) (.token (by rfl) (.token (by rfl) (.nil _)))
  have group := tiles.group (framed_of_derived derived) (after (12 + 1 + t.toList.length + 1))
  have whole : Tiles .filter 0 (['a'] ++ ([' ', 'p', 'r'] ++ ([' ', 'a', 'n', 'd', ' '] ++
      (['n', 'o', 't'] ++ _)))) _ :=
    .token (by rfl) (.token (by rfl) (.token (by rfl) (.token (by rfl) group)))
  have text : (Filter.wrapped t).toList = ['a'] ++ ([' ', 'p', 'r'] ++
      ([' ', 'a', 'n', 'd', ' '] ++ (['n', 'o', 't'] ++ '(' :: (t.toList ++ ')' ::
        ([' ', 'o', 'r', ' '] ++ (['a'] ++ ([' ', 'p', 'r'] ++ []))))))) := by
    simp [Filter.wrapped]
  have read : Tiles .filter 0 (Filter.wrapped t).toList
      (wrappedChain c (12 + 1 + t.toList.length)).tokens := by
    simp only [wrappedChain, leafAt, Chain.tokens, Links.tokens, Operand.tokens, List.cons_append,
      List.nil_append, List.append_assoc]
    rw [text, tokens]
    exact whole
  refine ⟨_, read, ⟨_, valid_wrappedChain valid _, tree_wrappedChain c _, rfl⟩, ?_⟩
  rw [nesting_wrappedChain valid, tokens, nesting_shift, deep]

/-- Filters inside each other. -/
def nested : Nat → String
  | 0 => "a pr"
  | k + 1 => wrapped (nested k)

def nestedTree : Nat → Node
  | 0 => leaf
  | k + 1 => wrappedTree (nestedTree k)

theorem reads_nested (k : Nat) : Reads (nested k) (nestedTree k) k := by
  induction k with
  | zero => exact reads_leaf
  | succ k ih => exact ih.wrapped

theorem isOption_nested (k : Nat) : Command.isOption (nested k) = false := by
  cases k with
  | zero => rfl
  | succ k => simp [nested, wrapped, Command.isOption]

theorem length_nested (k : Nat) : (nested k).length = 22 * k + 4 := by
  induction k with
  | zero => rfl
  | succ k ih =>
    rw [nested, wrapped, String.length_append, String.length_append, ih]
    show 13 + (22 * k + 4) + 9 = _
    omega

/-- **Filters inside each other are accepted**, as far as the limits allow. -/
theorem parse_nested {limits : Limits} {k : Nat}
    (short : ∀ l, limits.maxLength = some l → 22 * k + 4 ≤ l)
    (flat : ∀ d, limits.maxDepth = some d → k ≤ d) :
    Mode.filter.parse limits (nested k) = .ok (some (nestedTree k)) := by
  refine (reads_nested k).parse ?_ flat
  rwa [length_nested]

theorem depth_nested (k : Nat) : (nestedTree k).toJson.depth = 5 * k + 4 := by
  induction k with
  | zero => rfl
  | succ k ih =>
    have leaf : leaf.toJson.depth = 4 := rfl
    simp only [nestedTree, wrappedTree, Node.toJson, Node.toJsonAll, Json.depth, Json.depthOfFields,
      Json.depthOfItems, leaf, ih]
    omega

end Filter

end Scim
