import Scim.Proofs.Phrase.Writable
import Scim.Proofs.Report.Envelope

/-!
# Trees in JSON reports

A report in JSON holds the tree of the expression, but for the values that JSON has no number for.

* `Node.printed`            a tree as a report prints it, with null for infinite values;
* `Node.printed_eq_self_iff`    the trees that are printed as they are;
* `Filter.reads_equal`      a comparison with a literal is read as such;
* `Filter.large`            decimal numbers that may be too large for a double;
* `Command.Accepts`         arguments that ask for JSON, with an expression that is accepted;
* `Command.prints_tree`     what is printed for them, and when it is the same.
-/

namespace Scim

open Number (Double)

/-! ## Trees as they are printed -/

def Value.printed : Value → Value
  | double x => if x.isFinite then .double x else .null
  | v => v

theorem Value.toJson_printed (v : Value) : v.printed.toJson = v.toJson.finiteOnly := by
  cases v with
  | double x => cases x <;> rfl
  | _ => rfl

theorem AttributePath.finiteOnly_toJson (p : AttributePath) : p.toJson.finiteOnly = p.toJson := by
  rw [Json.finiteOnly_eq_self_iff, Node.doubles_path]
  exact List.forall_mem_nil _

namespace Node

mutual

/-- A tree as a report prints it. -/
def printed : Node → Node
  | comparison c => comparison { c with value := c.value.printed }
  | negation inner => negation inner.printed
  | connective kind children => connective kind (allPrinted children)
  | valuePath p inner sub => valuePath p inner.printed sub
  | n => n

def allPrinted : List Node → List Node
  | [] => []
  | n :: ns => n.printed :: allPrinted ns

end

mutual

theorem toJson_printed : (n : Node) → n.printed.toJson = n.toJson.finiteOnly
  | path p => p.finiteOnly_toJson.symm
  | comparison c => by
    simp only [printed, toJson, Comparison.toJson, c.value.toJson_printed, Json.finiteOnly,
      Json.finiteFields, AttributePath.finiteOnly_toJson]
  | negation inner => by
    simp only [printed, toJson, toJson_printed inner, Json.finiteOnly, Json.finiteFields]
  | connective kind children => by
    simp only [printed, toJson, toJsonAll_printed children, Json.finiteOnly, Json.finiteFields]
  | valuePath p inner sub => by
    simp only [printed, toJson, toJson_printed inner, Json.finiteOnly, Json.finiteFields,
      AttributePath.finiteOnly_toJson, Command.finiteOnly_ofString?]
  | missing => rfl

theorem toJsonAll_printed : (ns : List Node) →
    toJsonAll (allPrinted ns) = Json.finiteItems (toJsonAll ns)
  | [] => rfl
  | n :: ns => by
    simp only [allPrinted, toJsonAll, toJson_printed n, toJsonAll_printed ns, Json.finiteItems]

end

/-- **The trees that are printed as they are** have no infinite value. -/
theorem printed_eq_self_iff (n : Node) : n.printed = n ↔ n.Finite := by
  rw [← finiteOnly_toJson_iff, ← toJson_printed]
  exact ⟨congrArg toJson, toJson_injective n.printed n⟩

end Node

/-! ## Large numbers -/

namespace Filter

open Grammar Phrase Text

/-- The tree of `a eq` before a value. -/
def equalTree (v : Value) : Node := .comparison ⟨⟨none, ["a"]⟩, .eq, v⟩

theorem reads_equal {text : String} {kind : Kind} {v : Value}
    (literal : ∀ p, Literal ⟨kind, text.toList, p⟩ v)
    (found : Mode.filter.lexeme? text.toList = some (kind, text.toList)) :
    Reads ("a eq " ++ text) (equalTree v) 0 := by
  have operator : Mode.filter.lexeme? ([' ', 'e', 'q', ' '] ++ text.toList) =
      some (.comparison, [' ', 'e', 'q', ' ']) :=
    lexeme?_operator (o := .eq) (by decide) ((literal 0).takeWhile_blank found)
  have last : Mode.filter.lexeme? (text.toList ++ []) = some (kind, text.toList) := by
    rwa [List.append_nil]
  rw [← List.append_nil text.toList] at operator
  have tiles : Tiles .filter 0 (['a'] ++ ([' ', 'e', 'q', ' '] ++ (text.toList ++ []))) _ :=
    .token (by rfl) (.token operator (.token last (.nil _)))
  have whole : ("a eq " ++ text).toList =
      ['a'] ++ ([' ', 'e', 'q', ' '] ++ (text.toList ++ [])) := by
    simp
  rw [← whole] at tiles
  refine ⟨_, tiles, ⟨.mk (.comparison _ _ _ .eq _) .nil, .mk (.comparison rfl rfl (by decide)
    (wordOf_operator .eq _) (literal _)) .nil, rfl, rfl⟩, ?_⟩
  have values : ∀ kind ∈ Kind.values, kind.opens = false ∧ kind.closes = false := by decide
  obtain ⟨notOpen, notClose⟩ := values kind (literal 0).mem_values
  rw [nesting_cons_of_plain rfl rfl, nesting_cons_of_plain rfl rfl,
    nesting_cons_of_plain notOpen notClose]
  rfl

/-- A power of ten, as a decimal number. -/
def large (k : Nat) : String := String.ofList ('1' :: List.replicate k '0' ++ ['.', '0'])

theorem lexeme?_large (k : Nat) :
    Mode.filter.lexeme? ('1' :: List.replicate k '0' ++ ['.', '0']) =
      some (.number, '1' :: List.replicate k '0' ++ ['.', '0']) := by
  have digits : ∀ c ∈ '1' :: List.replicate k '0', isDigit c = true := by
    refine List.forall_mem_cons.mpr ⟨by decide, ?_⟩
    intro c hc
    rw [List.eq_of_mem_replicate hc]
    decide
  have whole : ('1' :: List.replicate k '0' ++ ['.', '0']).takeWhile isDigit =
      '1' :: List.replicate k '0' := by
    rw [List.takeWhile_append_of_pos digits, List.takeWhile_cons_of_neg (by decide),
      List.append_nil]
  have run : Lexeme.number? ('1' :: List.replicate k '0' ++ ['.', '0']) =
      some ('1' :: List.replicate k '0' ++ ['.', '0']) := by
    have behind : ('1' :: List.replicate k '0' ++ ['.', '0']).drop
        ('1' :: List.replicate k '0').length = ['.', '0'] := List.drop_left
    unfold Lexeme.number?
    dsimp only
    rw [whole, behind]
    rfl
  exact lexeme?_of_number run

theorem literal_large (k : Nat) (p : Int) :
    Literal ⟨.number, '1' :: List.replicate k '0' ++ ['.', '0'], p⟩
      (.double (.ofDecimal false (10 ^ (k + 1)) (-1))) := by
  have noPoint : '.' ∉ '1' :: List.replicate k '0' := by
    intro mem
    rcases List.mem_cons.mp mem with same | mem
    · cases same
    · cases List.eq_of_mem_replicate mem
  have value : digitsValue ('1' :: List.replicate k '0' ++ ['0']) = 10 ^ (k + 1) := by
    rw [List.cons_append, ← List.replicate_succ', ← List.singleton_append,
      digitsValue_append_zeros]
    exact Nat.one_mul _
  have literal : Literal ⟨.number, '1' :: List.replicate k '0' ++ ['.', '0'], p⟩ _ :=
    .decimal rfl noPoint rfl
  rwa [value] at literal

theorem length_large (k : Nat) : (large k).length = k + 3 := by
  rw [large, String.length_ofList, List.length_append, List.length_cons, List.length_replicate]
  rfl

theorem reads_large (k : Nat) :
    Reads ("a eq " ++ large k) (equalTree (.double (.ofDecimal false (10 ^ (k + 1)) (-1)))) 0 := by
  have text : (large k).toList = '1' :: List.replicate k '0' ++ ['.', '0'] := String.toList_ofList
  have literal := literal_large k
  have found := lexeme?_large k
  rw [← text] at literal found
  exact reads_equal literal found

end Filter

namespace Command

/-! ## Reports of trees -/

/-- The tree in a report. -/
def printedTree (output : String) : Option Json :=
  (Json.read? output).bind fun report =>
    (report.field? "data").bind fun data => data.field? "ast"

/-- The arguments ask for JSON, and their expression is accepted as a tree. -/
inductive Accepts (libraries : Libraries) (environment : String → Option String)
    (arguments : List String) (n : Node) : Prop where
  | intro {limits : Limits} {mode : Mode} {rest : List String} {settings : Settings}
      {expression : String} :
      Limits.ofEnvironment environment libraries.limits = .ok limits →
      readSettings libraries arguments = .ok (settings, mode.label :: rest) →
      settings.style.form = .json → readExpression libraries rest = .ok expression →
      mode.parse (limitsFor settings limits) expression = .ok (some n) →
      Accepts libraries environment arguments n

namespace Accepts

variable {libraries : Libraries} {environment : String → Option String} {arguments : List String}
  {n : Node} (h : Accepts libraries environment arguments n) (lawful : libraries.writer.Lawful)

include h lawful

theorem finishes_iff :
    (∃ code screen, run environment arguments libraries = .finished code screen) ↔
      n.toJson.depth ≤ libraries.writer.deepest := by
  obtain ⟨defaults, options, json, argument, accepted⟩ := h
  rw [run_eq_execute defaults options argument,
    finishes_iff_shows lawful.flat (ne_invalid_of_ok accepted), accepted]
  unfold Shows
  rw [json]
  exact ⟨fun shown => shown n rfl, by rintro shown _ ⟨⟩; exact shown⟩

theorem printedTree_eq {code : Nat} {screen : Screen}
    (finished : run environment arguments libraries = .finished code screen) :
    printedTree screen.output = some n.printed.toJson := by
  obtain ⟨defaults, options, json, argument, accepted⟩ := h
  rw [run_eq_execute defaults options argument] at finished
  have read := (reports_of_finished lawful (ne_invalid_of_ok accepted) finished).json json
  unfold printedTree
  rw [read, accepted, Node.toJson_printed]
  rfl

end Accepts

/-- **A report in JSON holds the tree of the expression**, with null for infinite values.  It is
written for every tree that does not nest too deep, and two reports hold the same if their trees are
the same, but for these values. -/
theorem prints_tree {libraries : Libraries} (lawful : libraries.writer.Lawful)
    {environment : String → Option String} {arguments : List String} {n : Node}
    (h : Accepts libraries environment arguments n) :
    ((∃ code screen, run environment arguments libraries = .finished code screen) ↔
      n.toJson.depth ≤ libraries.writer.deepest) ∧
    (n.printed = n ↔ n.Finite) ∧
    ∀ code screen, run environment arguments libraries = .finished code screen →
      printedTree screen.output = some n.printed.toJson ∧
      (printedTree screen.output = some n.toJson ↔ n.Finite) ∧
      ∀ environment' arguments' n' code' screen', Accepts libraries environment' arguments' n' →
        run environment' arguments' libraries = .finished code' screen' →
        (printedTree screen'.output = printedTree screen.output ↔ n'.printed = n.printed) := by
  refine ⟨h.finishes_iff lawful, n.printed_eq_self_iff, ?_⟩
  intro code screen finished
  have held := h.printedTree_eq lawful finished
  refine ⟨held, ?_, ?_⟩
  · rw [held, Option.some.injEq, ← n.printed_eq_self_iff]
    exact ⟨Node.toJson_injective n.printed n, congrArg Node.toJson⟩
  · intro environment' arguments' n' code' screen' h' finished'
    rw [h'.printedTree_eq lawful finished', held, Option.some.injEq]
    exact ⟨Node.toJson_injective n'.printed n.printed, congrArg Node.toJson⟩

theorem accepts_of_reads {t : String} {n : Node} {depth : Nat} (h : Filter.Reads t n depth)
    (plain : isOption t = false) (short : t.length ≤ 8192) (flat : depth ≤ 64) :
    Accepts .standard (fun _ => none) ["--json", "filter", t] n := by
  refine .intro ofEnvironment_none (readSettings_json .filter [t]) rfl
    (readExpression_of_plain plain) (h.parse ?_ ?_)
  · rintro _ ⟨⟩
    exact short
  · rintro _ ⟨⟩
    exact flat

/-- a report of a tree without infinite values -/
theorem prints_joined :
    Accepts .standard (fun _ => none) ["--json", "filter", "a[b eq 1] and c pr"]
      Filter.joinedTree ∧
    ∃ code screen,
      run (fun _ => none) ["--json", "filter", "a[b eq 1] and c pr"] = .finished code screen ∧
      printedTree screen.output = some Filter.joinedTree.toJson := by
  have accepts : Accepts .standard (fun _ => none) ["--json", "filter", "a[b eq 1] and c pr"]
      Filter.joinedTree :=
    accepts_of_reads Filter.reads_joined rfl (by decide) (by decide)
  obtain ⟨finishes, same, prints⟩ := prints_tree Writer.lawful_standard accepts
  obtain ⟨code, screen, finished⟩ := finishes.mpr (by decide)
  refine ⟨accepts, code, screen, finished, ?_⟩
  exact (prints code screen finished).2.1.mpr (same.mp rfl)

/-- a large number is infinite, and printed as null -/
theorem large_printed_as_null :
    let infinite := Filter.equalTree (.double (.ofDecimal false (10 ^ (309 + 1)) (-1)))
    infinite ≠ Filter.equalTree .null ∧
    Accepts .standard (fun _ => none) ["--json", "filter", "a eq " ++ Filter.large 309] infinite ∧
    Accepts .standard (fun _ => none) ["--json", "filter", "a eq " ++ "null"]
      (Filter.equalTree .null) ∧
    ∃ code screen code' screen',
      run (fun _ => none) ["--json", "filter", "a eq " ++ Filter.large 309] =
        .finished code screen ∧
      run (fun _ => none) ["--json", "filter", "a eq " ++ "null"] = .finished code' screen' ∧
      printedTree screen.output = printedTree screen'.output ∧
      printedTree screen.output ≠ some infinite.toJson := by
  intro infinite
  have value : infinite = Filter.equalTree (.double (.infinite false)) :=
    congrArg (fun x => Filter.equalTree (.double x)) (by decide +kernel)
  have differ : infinite ≠ Filter.equalTree .null := by
    rw [value]
    nofun
  have plain (k : Nat) : isOption ("a eq " ++ Filter.large k) = false := by simp [isOption]
  have length (k : Nat) : ("a eq " ++ Filter.large k).length = k + 8 := by
    rw [String.length_append, Filter.length_large]
    show 5 + (k + 3) = k + 8
    omega
  have accepts := accepts_of_reads (Filter.reads_large 309) (plain 309) (by rw [length]; decide)
    (by decide)
  have accepts' : Accepts .standard (fun _ => none) ["--json", "filter", "a eq " ++ "null"]
      (Filter.equalTree .null) :=
    accepts_of_reads (Filter.reads_equal (fun _ => .null rfl) (by rfl)) rfl (by decide) (by decide)
  have shallow : infinite.toJson.depth ≤ Libraries.standard.writer.deepest := by
    rw [value]
    decide
  obtain ⟨code, screen, finished⟩ := (accepts.finishes_iff Writer.lawful_standard).mpr shallow
  obtain ⟨code', screen', finished'⟩ :=
    (accepts'.finishes_iff Writer.lawful_standard).mpr (by decide)
  have held : printedTree screen.output = some infinite.printed.toJson :=
    accepts.printedTree_eq Writer.lawful_standard finished
  have null : infinite.printed = Filter.equalTree .null := by
    rw [value]
    rfl
  rw [null] at held
  refine ⟨differ, accepts, accepts', code, screen, code', screen', finished, finished', ?_, ?_⟩
  · rw [held, accepts'.printedTree_eq Writer.lawful_standard finished']
    rfl
  · rw [held]
    intro same
    exact differ (Node.toJson_injective _ _ (Option.some.inj same)).symm

end Command

end Scim
