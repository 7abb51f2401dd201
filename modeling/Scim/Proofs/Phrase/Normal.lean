import Scim.Proofs.Phrase.Folded
import Scim.Proofs.Phrase.Name
import Scim.Proofs.Scan.Tiling

/-!
# Normal trees

* `Node.Shaped`          trees of comparisons, negations, connectives and value paths, by what holds
                         of their comparisons: a connective is flat at its end, and no value path
                         stands inside another one;
* `Folded.shaped`        folding keeps the shape, and so does putting a tree below an attribute;
* `Node.Normal`          such trees of comparisons that a text can spell;
* `Chain.Valid.normal`   the tree of a derivation from the tokens of a text is normal.
-/

namespace Scim

open Grammar Lexeme Text

/-! ## Shapes -/

namespace Node

/-- Trees with no other parts than comparisons, negations, connectives and value paths.  A
connective has two children at least, of which the last is of another kind.  A value path stands on
a single name, with no value path inside. -/
inductive Shaped (head : AttributePath → Prop)
    (leaf : Option AttributePath → Comparison → Prop) : Option AttributePath → Node → Prop where
  | comparison {outer : Option AttributePath} {c : Comparison} : leaf outer c →
      Shaped head leaf outer (.comparison c)
  | negation {outer : Option AttributePath} {inner : Node} :
      Shaped head leaf outer inner → Shaped head leaf outer (.negation inner)
  | connective {outer : Option AttributePath} {kind : Connective} {ns : List Node} {last : Node} :
      kind ≠ .neutral → ns ≠ [] → (∀ n ∈ ns, Shaped head leaf outer n) →
      Shaped head leaf outer last → (∀ children, last ≠ .connective kind children) →
      Shaped head leaf outer (.connective kind (ns ++ [last]))
  | valuePath {schema : Option String} {name : String} {inner : Node} :
      head ⟨schema, [name]⟩ → Shaped head leaf (some ⟨schema, [name]⟩) inner →
      Shaped head leaf none (.valuePath ⟨schema, [name]⟩ inner none)

variable {head : AttributePath → Prop} {leaf : Option AttributePath → Comparison → Prop}

theorem allUnder_eq_map (outer : AttributePath) (ns : List Node) :
    allUnder outer ns = ns.map (under outer) := by
  induction ns with
  | nil => rfl
  | cons n ns ih => rw [allUnder, ih, List.map_cons]

theorem under_ne_connective {kind : Connective} {n : Node}
    (h : ∀ children, n ≠ connective kind children) (outer : AttributePath) :
    ∀ children, n.under outer ≠ connective kind children := by
  intro children same
  cases n with
  | connective k ns =>
    obtain ⟨rfl, -⟩ := connective.inj same
    exact h ns rfl
  | _ => cases same

theorem Shaped.under {outer : AttributePath} {n : Node}
    (moved : ∀ c, leaf none c → leaf (some outer) (c.under outer))
    (h : n.Shaped head leaf none) (plain : n.Plain) :
    (n.under outer).Shaped head leaf (some outer) := by
  generalize top : (none : Option AttributePath) = place at h
  induction h with
  | @comparison _ c holds =>
    subst top
    exact .comparison (moved c holds)
  | negation _ ih =>
    cases plain with
    | negation inner => exact .negation (ih inner top)
  | @connective _ kind ns last real long _ _ differs ihs ih =>
    cases plain with
    | connective _ inside =>
      rw [Node.under, allUnder_eq_map, List.map_append]
      refine .connective real (mt List.map_eq_nil_iff.mp long) ?_ ?_ (under_ne_connective differs _)
      · intro n hn
        obtain ⟨m, hm, rfl⟩ := List.mem_map.mp hn
        exact ihs m hm (inside m (List.mem_append_left _ hm)) top
      · exact ih (inside last (List.mem_append_right _ (List.mem_singleton_self last))) top
  | valuePath _ _ _ => cases plain

end Node

namespace Phrase

theorem Folded.shaped {head : AttributePath → Prop}
    {leaf : Option AttributePath → Comparison → Prop} {outer : Option AttributePath}
    {kind : Connective} {ns : List Node} {n : Node} (h : Folded kind ns n) (real : kind ≠ .neutral)
    (inside : ∀ m ∈ ns, m.Shaped head leaf outer) : n.Shaped head leaf outer := by
  cases h with
  | single n => exact inside n (List.mem_singleton_self n)
  | last n ns differs =>
    obtain ⟨before, last⟩ := List.forall_mem_append.mp inside
    exact .connective real (List.cons_ne_nil n ns) before
      (last _ (List.mem_singleton_self _)) differs
  | spread n ns children =>
    obtain ⟨before, last⟩ := List.forall_mem_append.mp inside
    have absorbed := last _ (List.mem_singleton_self _)
    generalize whole : Node.connective kind children = m at absorbed
    cases absorbed with
    | connective _ long parts final differs =>
      obtain ⟨rfl, rfl⟩ := Node.connective.inj whole
      rw [← List.append_assoc]
      refine .connective real ?_ (List.forall_mem_append.mpr ⟨before, parts⟩) final differs
      exact List.append_ne_nil_of_left_ne_nil (List.cons_ne_nil n ns) _
    | _ => cases whole

end Phrase

/-! ## Normal trees -/

/-- A name without the characters that part names from one another and from other tokens. -/
def IsClear (name : String) : Prop :=
  name ≠ "" ∧ ∀ c ∈ name.toList, isBlank c = false ∧ c ∉ ['.', ':', '"', '(', ')', '[', ']']

/-- An attribute path that a text can spell. -/
structure AttributePath.Normal (p : AttributePath) : Prop where
  names_ne_nil : p.names ≠ []
  isClear : ∀ name ∈ p.names, IsClear name
  schema : p.schema ≠ some ""

/-- A value that a text can spell: a string without quotation marks, or a number that is not
negative. -/
inductive Value.Normal : Value → Prop where
  | null : Normal .null
  | bool (b : Bool) : Normal (.bool b)
  | int {n : Int} : 0 ≤ n → Normal (.int n)
  | finite (m : Nat) (e : Int) : Normal (.double (.finite false m e))
  | infinite : Normal (.double (.infinite false))
  | string {s : String} : '"' ∉ s.toList → Normal (.string s)

structure Comparison.Normal (c : Comparison) : Prop where
  path : c.path.Normal
  operator : c.operator.word ∈ ["eq", "ne", "co", "sw", "ew", "gt", "lt", "ge", "le", "pr"]
  value : c.value.Normal
  presence : c.operator = .pr → c.value = .null

/-- A path that continues the path of a value path: the same schema, and more names. -/
def AttributePath.Continues (outer p : AttributePath) : Prop :=
  p.schema = outer.schema ∧ ∃ names, names ≠ [] ∧ p.names = outer.names ++ names

/-- A comparison that a text can spell, below the attribute of the value path around it. -/
def Comparison.NormalBelow (outer : Option AttributePath) (c : Comparison) : Prop :=
  c.Normal ∧ ∀ p, outer = some p → p.Continues c.path

/-- Trees in normal form. -/
def Node.Normal (n : Node) : Prop := n.Shaped AttributePath.Normal Comparison.NormalBelow none

theorem AttributePath.Normal.under {outer p : AttributePath} (ho : outer.Normal) (h : p.Normal) :
    (outer.under p).Normal where
  names_ne_nil := List.append_ne_nil_of_left_ne_nil ho.names_ne_nil _
  isClear := List.forall_mem_append.mpr ⟨ho.isClear, h.isClear⟩
  schema := ho.schema

theorem Comparison.NormalBelow.under {outer : AttributePath} (ho : outer.Normal) (c : Comparison)
    (h : c.NormalBelow none) : (c.under outer).NormalBelow (some outer) := by
  obtain ⟨normal, -⟩ := h
  refine ⟨⟨ho.under normal.path, normal.operator, normal.value, normal.presence⟩, ?_⟩
  rintro p same
  obtain rfl := Option.some.inj same
  exact ⟨rfl, c.path.names, normal.path.names_ne_nil, rfl⟩

theorem Operator.word_mem (o : Operator) :
    o.word ∈ ["eq", "ne", "co", "sw", "ew", "gt", "lt", "ge", "le", "pr"] := by
  cases o <;> decide

/-! ## What tokens spell -/

/-- A token is the run of its kind at the start of some text. -/
def Token.Lexed (t : Token) : Prop := ∃ v, t.kind.lexeme? (t.text ++ v) = some t.text

theorem Tiles.lexed {mode : Mode} {p : Int} {cs : List Char} {ts : List Token}
    (h : Tiles mode p cs ts) : ∀ t ∈ ts, t.Lexed := by
  intro t mem
  obtain ⟨before, after, rfl⟩ := List.append_of_mem mem
  obtain ⟨u, v, -, -, found, -⟩ := h.split
  exact ⟨v, (Mode.exists_of_lexeme?_eq_some found).1⟩

theorem isClear_of_isSegment {s : List Char} (h : IsSegment s) : IsClear (String.ofList s) := by
  have marks : ['.', ':', '"', '(', ')', '[', ']'].all (fun c => !isSegment c) = true := by decide
  refine ⟨mt String.ofList_eq_empty_iff.mp h.1, ?_⟩
  intro c mem
  rw [String.toList_ofList] at mem
  constructor
  · cases blank : isBlank c with
    | false => rfl
    | true =>
      have other := isSegment_eq_false_of_isStop (isStop_of_isBlank blank)
      rw [h.2 c mem] at other
      cases other
  · intro mark
    have other := List.all_eq_true.mp marks c mark
    rw [h.2 c mem] at other
    cases other

theorem Spelling.normal_path (n : Spelling) : n.path.Normal where
  names_ne_nil := mt List.map_eq_nil_iff.mp n.segments_ne_nil
  isClear := by
    intro name mem
    obtain ⟨s, hs, rfl⟩ := List.mem_map.mp mem
    exact isClear_of_isSegment (n.isSegment s hs)
  schema := by
    intro empty
    obtain ⟨s, named, none⟩ := Option.map_eq_some_iff.mp empty
    exact (n.isSchema s named).1 (String.ofList_eq_empty_iff.mp none)

theorem quote_notMem_string {cs text : List Char} (found : string? cs = some text) :
    '"' ∉ (text.drop 1).dropLast := by
  unfold string? at found
  split at found
  · next rest =>
    obtain ⟨-, rfl⟩ := string?_cons_eq_some_iff.mp found
    rw [List.cons_append, List.drop_succ_cons, List.drop_zero, List.dropLast_concat]
    intro mem
    have other := List.all_eq_true.mp List.all_takeWhile '"' mem
    cases other
  · cases found

theorem normal_ofDecimal (n : Nat) (e : Int) : (Value.double (.ofDecimal false n e)).Normal := by
  have rounded (m : Nat) (k : Int) : (Value.double (.ofRounded false m k)).Normal := by
    unfold Number.Double.ofRounded
    generalize (if m = _ then _ else _ : Nat × Int) = carried
    dsimp only
    split
    · exact .infinite
    · exact .finite _ _
  have quotient (n d : Nat) : (Value.double (.ofQuotient false n d)).Normal := by
    unfold Number.Double.ofQuotient
    split
    · exact .finite _ _
    · exact rounded _ _
  unfold Number.Double.ofDecimal
  split
  · exact quotient _ _
  · exact quotient _ _

namespace Phrase

theorem normal_pathOf {t : Token} (h : t.Lexed) (isName : t.kind = .name) : (pathOf t).Normal := by
  obtain ⟨v, found⟩ := h
  rw [isName] at found
  obtain ⟨n, text⟩ := exists_spelling found
  rw [pathOf, ← text, n.named_text]
  exact n.normal_path

theorem Literal.normal {t : Token} {v : Value} (h : t.Lexed) (known : Literal t v) : v.Normal := by
  cases known with
  | string isString =>
    obtain ⟨v, found⟩ := h
    rw [isString] at found
    exact .string (by rw [String.toList_ofList]; exact quote_notMem_string found)
  | whole _ _ _ => exact .int (Int.natCast_nonneg _)
  | decimal _ _ _ => exact normal_ofDecimal _ _
  | boolean _ => exact .bool _
  | null _ => exact .null

/-! ## The trees of derivations -/

mutual

theorem Operand.Valid.normal {place : Place} : {d : Operand} → d.Valid place →
    (∀ t ∈ d.tokens, t.Lexed) → d.tree.Normal
  | _, .group _ inner _, lexed =>
    inner.normal fun t ht => lexed t (by simp [Operand.tokens, ht])
  | _, .negation _ _ inner _, lexed =>
    Node.Shaped.negation (inner.normal fun t ht => lexed t (by simp [Operand.tokens, ht]))
  | .presence name operator, .presence isName _ _, lexed => by
    have path := normal_pathOf (lexed name (by simp [Operand.tokens])) isName
    exact Node.Shaped.comparison ⟨⟨path, Operator.word_mem _, .null, fun _ => rfl⟩, nofun⟩
  | .comparison name operator literal o v, .comparison isName _ other _ value, lexed => by
    have path := normal_pathOf (lexed name (by simp [Operand.tokens])) isName
    have known := value.normal (lexed literal (by simp [Operand.tokens]))
    exact Node.Shaped.comparison
      ⟨⟨path, Operator.word_mem _, known, fun same => absurd same other⟩, nofun⟩
  | .valuePath name opening inner closing, .valuePath isName single _ valid _, lexed => by
    have path := normal_pathOf (lexed name (by simp [Operand.tokens])) isName
    have normal := valid.normal fun t ht => lexed t (by simp [Operand.tokens, ht])
    have below := normal.under (Comparison.NormalBelow.under path) valid.plain_tree
    rw [Operand.tree]
    generalize pathOf name = p at path single below
    obtain ⟨schema, names⟩ := p
    obtain ⟨only, rfl⟩ := List.length_eq_one_iff.mp single
    exact Node.Shaped.valuePath path below

theorem Links.Valid.normal {place : Place} : {l : Links} → l.Valid place →
    (∀ t ∈ l.tokens, t.Lexed) → ∀ link ∈ l.trees, link.2.Normal
  | _, .nil, _ => by
    intro link hl
    cases hl
  | .cons _ operand more, .cons _ valid links, lexed => by
    rw [Links.trees, List.forall_mem_cons]
    exact ⟨valid.normal fun t ht => lexed t (by simp [Links.tokens, ht]),
      links.normal fun t ht => lexed t (by simp [Links.tokens, ht])⟩

/-- **The tree of a derivation** from the tokens of a text is in normal form. -/
theorem Chain.Valid.normal {place : Place} : {c : Chain} → c.Valid place →
    (∀ t ∈ c.tokens, t.Lexed) → c.tree.Normal
  | .mk first more, .mk valid links, lexed =>
    Chain.tree_of_folds (fun _ _ folded => folded.shaped nofun)
      (fun _ _ folded => folded.shaped nofun)
      (valid.normal fun t ht => lexed t (by simp [Chain.tokens, ht]))
      (links.normal fun t ht => lexed t (by simp [Chain.tokens, ht]))

end

end Phrase

end Scim
