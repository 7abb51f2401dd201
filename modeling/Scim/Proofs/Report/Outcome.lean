import Scim.Proofs.Parse.Site
import Scim.Proofs.Report.Deep
import Scim.Proofs.Report.Drawing
import Scim.Proofs.Report.Writer

/-!
# What a command does

A command parses its expression under the limits that are in force, and renders the report on the
result.

* `Problem.Placed`               the problems of an expression: a limit, or a place in it;
* `Command.splitOptions_of_done`, `Command.readExpression_of_plain`    how arguments are read;
* `Command.run_eq_execute`       running the program with a command and an expression;
* `Command.execute_of_ok`        what is done for an expression that is accepted;
* `Command.execute_of_problem`   what is done for one that is refused for a problem;
* `Report.render_json_eq_ok`     when a report is written as JSON, and as what;
* `Report.render_tree_success`, `Report.render_tree_failure`    the same for a drawing;
* `Report.output_of_render`      what is written to the output depends on the form alone.
-/

namespace Scim

open Number (Double)

/-! ## The problems of an expression -/

/-- A problem of an expression is a limit, or a place in the expression. -/
inductive Problem.Placed (text : String) (p : Problem) : Prop where
  | limit (limit actual : Nat) : p.kind = .limit limit actual → Placed text p
  | site (site : Site) : p.kind = .malformed site ∨ p.kind = .valuePath site →
      site.Within text → Placed text p

theorem Problem.placed_ofFault {mode : Mode} {text : String} {f : Fault}
    (within : Site.Within text ⟨f.token.map String.ofList, some f.position, some text⟩) :
    (Problem.ofFault mode text f).Placed text := by
  refine .site _ ?_ within
  unfold Problem.ofFault
  cases f.cause.isValuePath
  · exact .inl rfl
  · exact .inr rfl

/-- **The problems of an expression** are limits and places in it. -/
theorem Mode.placed_of_parse {mode : Mode} {limits : Limits} {text : String} {p : Problem}
    (refused : mode.parse limits text = .error (.problem p)) : p.Placed text := by
  cases refused_of_parse refused with
  | length _ => exact .limit _ _ rfl
  | depth _ _ => exact .limit _ _ rfl
  | stray scanned => exact Problem.placed_ofFault (stray_within scanned)
  | fault scanned located =>
    exact Problem.placed_ofFault ((scan_eq_ok_iff.mp scanned).located_within located)

theorem Problem.Placed.exitCode {text : String} {p : Problem} (h : p.Placed text) :
    p.failure.exitCode = 2 := by
  unfold Problem.failure
  cases h with
  | limit _ _ kind => rw [kind]
  | site _ kind _ => rcases kind with kind | kind <;> rw [kind]

/-- The position of a problem in the expression. -/
def Problem.place? (p : Problem) : Option Int := p.site?.bind Site.position

theorem Problem.Placed.place_within {text : String} {p : Problem} (h : p.Placed text) {n : Int}
    (place : p.place? = some n) : ∃ k : Nat, n = k ∧ k ≤ text.length := by
  cases h with
  | limit _ _ kind => simp [place?, site?, kind, Kind.site?] at place
  | site site kind within =>
    have known : p.site? = some site := by
      rcases kind with kind | kind <;> simp [site?, kind, Kind.site?]
    obtain ⟨k, position, low, -⟩ := within.position
    rw [place?, known, Option.bind_some, position] at place
    exact ⟨k, (Option.some.inj place).symm, low⟩

namespace Command

/-! ## Reading the arguments -/

theorem splitOptions_of_done {α : Type} {specs : List (Spec α)} {interspersed : Bool}
    {argument : String} {given more : List (Given α)} {arguments rest : List String}
    (shape : isOption argument = true) (other : argument ≠ "--")
    (known : readOption specs argument = .ok (.done given))
    (h : splitOptions specs interspersed arguments = .ok (more, rest)) :
    splitOptions specs interspersed (argument :: arguments) = .ok (given ++ more, rest) := by
  rw [splitOptions, if_neg other, if_pos shape, known]
  show (splitOptions specs interspersed arguments).bind _ = _
  rw [h]
  rfl

theorem splitOptions_label {α : Type} (specs : List (Spec α)) (mode : Mode)
    (rest : List String) :
    splitOptions specs false (mode.label :: rest) = .ok ([], mode.label :: rest) := by
  have other : mode.label ≠ "--" := by cases mode <;> decide
  have plain : ¬ isOption mode.label = true := by cases mode <;> decide
  rw [splitOptions, if_neg other, if_neg plain]
  rfl

theorem ofEnvironment_none :
    Limits.ofEnvironment (fun _ => none) Libraries.standard.limits = .ok {} := by rfl

theorem readSettings_label (mode : Mode) (rest : List String) :
    readSettings .standard (mode.label :: rest) =
      .ok (⟨⟨.tree, false⟩, 0, none, none⟩, mode.label :: rest) := by
  have split : Libraries.standard.split specs false (mode.label :: rest) = _ :=
    splitOptions_label specs mode rest
  unfold readSettings
  rw [split]
  rfl

theorem readSettings_json (mode : Mode) (rest : List String) :
    readSettings .standard ("--json" :: mode.label :: rest) =
      .ok (⟨⟨.json, false⟩, 0, none, none⟩, mode.label :: rest) := by
  have split : Libraries.standard.split specs false ("--json" :: mode.label :: rest) = _ :=
    splitOptions_of_done rfl (by decide) (by rfl) (splitOptions_label specs mode rest)
  unfold readSettings
  rw [split]
  rfl

theorem readExpression_of_plain {expression : String} (plain : isOption expression = false) :
    readExpression .standard [expression] = .ok expression := by
  have other : expression ≠ "--" := by
    rintro rfl
    cases plain
  have split : Libraries.standard.split helpSpecs true [expression] = .ok ([], [expression]) := by
    show splitOptions helpSpecs true [expression] = _
    rw [splitOptions, if_neg other, plain, splitOptions]
    rfl
  unfold readExpression
  rw [split]
  rfl

/-! ## Running a command -/

/-- **Running the program** with a command and an expression. -/
theorem run_eq_execute {libraries : Libraries} {environment : String → Option String}
    {limits : Limits} {mode : Mode} {arguments rest : List String} {settings : Settings}
    {expression : String}
    (defaults : Limits.ofEnvironment environment libraries.limits = .ok limits)
    (options : readSettings libraries arguments = .ok (settings, mode.label :: rest))
    (argument : readExpression libraries rest = .ok expression) :
    run environment arguments libraries =
      execute libraries settings mode (limitsFor settings limits) expression := by
  have known : commandOf? mode.label = some mode := by cases mode <;> rfl
  unfold run
  rw [options]
  dsimp only
  rw [known]
  dsimp only
  unfold runNamed
  rw [defaults]
  dsimp only
  rw [argument]

/-- What is written before a report. -/
def notes (settings : Settings) (mode : Mode) (limits : Limits) (expression : String) : String :=
  if 2 ≤ settings.verbosity then
    log mode limits expression (read mode limits expression).renamed
  else ""

/-- What is done once a report is rendered. -/
def outcomeOf (before : String) (exitCode : Nat) : Except Undrawable Screen → Outcome
  | .ok screen => .finished exitCode { screen with errors := before ++ screen.errors }
  | .error e => .undrawable e

variable {libraries : Libraries} {settings : Settings} {mode : Mode} {limits : Limits}
  {expression : String}

theorem parse_eq_refuse (mode : Mode) (limits : Limits) (expression : String) :
    mode.parse limits expression =
      Grammar.refuse mode expression (read mode limits expression).result := by
  cases mode <;> rfl

theorem execute_of_ok {node : Option Node} (h : mode.parse limits expression = .ok node) :
    execute libraries settings mode limits expression =
      outcomeOf (notes settings mode limits expression) 0
        ((success mode expression node).render settings.style libraries.writer) := by
  rw [parse_eq_refuse] at h
  unfold execute
  cases result : (read mode limits expression).result with
  | error e =>
    rw [result] at h
    cases h
  | ok node' =>
    rw [result] at h
    obtain rfl := Except.ok.inj h
    cases rendered : (success mode expression node').render settings.style libraries.writer <;>
      simp only [report, result, rendered, outcomeOf, notes]

theorem execute_of_problem {p : Problem}
    (h : mode.parse limits expression = .error (.problem p)) :
    execute libraries settings mode limits expression =
      outcomeOf (notes settings mode limits expression) 2
        ((failure mode expression p.failure).render settings.style libraries.writer) := by
  have code := (Mode.placed_of_parse h).exitCode
  rw [parse_eq_refuse] at h
  unfold execute
  cases result : (read mode limits expression).result with
  | ok node =>
    rw [result] at h
    cases h
  | error e =>
    rw [result] at h
    have same : e.refusal mode expression = .problem p := Except.error.inj h
    cases rendered : (failure mode expression p.failure).render settings.style libraries.writer <;>
      simp only [report, result, same, rendered, code, outcomeOf, notes]

theorem outcomeOf_eq_finished {before : String} {code code' : Nat} {screen : Screen}
    {rendered : Except Undrawable Screen} :
    outcomeOf before code rendered = .finished code' screen ↔
      code' = code ∧ ∃ s, rendered = .ok s ∧ screen = ⟨s.output, before ++ s.errors⟩ := by
  cases rendered with
  | ok s => simp [outcomeOf, eq_comm]
  | error e => simp [outcomeOf]

end Command

/-! ## Rendering -/

namespace Report

open Command

variable {writer : Writer} {style : Style} {mode : Mode} {limits : Limits} {expression : String}
  {screen : Screen}

theorem render_json_eq_ok (json : style.form = .json) (r : Report) :
    r.render style writer = .ok screen ↔
      r.nestsTooDeep writer.deepest = false ∧ screen = ⟨r.toJson.pretty ++ "\n", ""⟩ := by
  unfold render
  rw [json]
  dsimp only
  cases r.nestsTooDeep writer.deepest <;> simp [eq_comm]

theorem nestsTooDeep_empty (mode : Mode) (expression : String) (deepest : Nat) :
    (success mode expression none).nestsTooDeep deepest = false :=
  show decide (deepest < 0) = false from decide_eq_false (Nat.not_lt_zero deepest)

theorem nestsTooDeep_success {deepest : Nat} (flat : 2 ≤ deepest) (mode : Mode)
    (expression : String) (n : Node) :
    (success mode expression (some n)).nestsTooDeep deepest =
      decide (deepest < n.toJson.depth) := by
  have attributes := Json.depth_strings n.attributes
  have depth : max (Json.depthOfFields (dataOf n)) (Json.depthOfFields []) =
      max n.toJson.depth (Json.array (n.attributes.map .string)).depth := by
    simp [dataOf, Json.depthOfFields]
  show decide (deepest < max (Json.depthOfFields (dataOf n)) (Json.depthOfFields [])) = _
  rw [depth, decide_eq_decide]
  omega

theorem nestsTooDeep_failure {deepest : Nat} (flat : 2 ≤ deepest) {text : String} {p : Problem}
    (h : p.Placed text) (mode : Mode) (expression : String) :
    (failure mode expression p.failure).nestsTooDeep deepest = false := by
  have shallow : Json.depthOfFields (p.failure.details.getD []) ≤ 1 := by
    unfold Problem.failure
    cases h with
    | limit _ _ kind =>
      rw [kind]
      simp [Json.depthOfFields, Json.depth]
    | site site kind _ =>
      have details : Json.depthOfFields ((Failure.details? site.details).getD []) ≤ 1 := by
        obtain ⟨token, position, whole⟩ := site
        cases token <;> cases position <;>
          simp [Site.details, Failure.details?, Json.depthOfFields, Json.depth]
      rcases kind with kind | kind <;> rw [kind] <;> exact details
  show decide (deepest < max 0 (Json.depthOfFields (p.failure.details.getD []))) = false
  rw [decide_eq_false_iff_not, Nat.zero_max]
  omega

theorem render_tree_empty (tree : style.form = .tree) :
    (success mode expression none).render style writer =
      .ok ⟨"", if style.quiet then "" else "Empty expression.\n"⟩ := by
  unfold render
  rw [tree]
  rfl

theorem render_tree_success (tree : style.form = .tree) {n : Node}
    (h : mode.parse limits expression = .ok (some n)) :
    (success mode expression (some n)).render style writer =
      .ok ⟨String.ofList (writer.drawing n.outline), ""⟩ := by
  unfold render
  rw [tree]
  show (drawing writer (dataOf n)).map _ = _
  rw [Mode.drawing_of_parse writer h]
  rfl

/-- What a report writes to the output, in a form. -/
def outputOf (writer : Writer) : Form → Report → String
  | .json, r => r.toJson.pretty ++ "\n"
  | .tree, ⟨true, _, _, some data, _⟩ =>
    match drawing writer data with
    | .ok lines => String.ofList lines
    | .error _ => ""
  | .tree, _ => ""

theorem output_of_render {r : Report} (h : r.render style writer = .ok screen) :
    screen.output = outputOf writer style.form r := by
  obtain ⟨ok, command, input, data, error⟩ := r
  unfold render at h
  cases form : style.form with
  | json =>
    rw [form] at h
    dsimp only at h
    split at h
    · cases h
    · rw [← Except.ok.inj h]
      rfl
  | tree =>
    rw [form] at h
    cases ok with
    | true =>
      cases data with
      | none =>
        rw [← Except.ok.inj h]
        rfl
      | some data =>
        change (drawing writer data).map _ = _ at h
        cases drawn : drawing writer data with
        | error _ =>
          rw [drawn] at h
          cases h
        | ok lines =>
          rw [drawn] at h
          rw [← Except.ok.inj h, outputOf, drawn]
    | false =>
      cases error with
      | none => cases h
      | some e =>
        change (errorLines _ _ _ _).map _ = _ at h
        cases lines : errorLines writer style.quiet input e with
        | error _ =>
          rw [lines] at h
          cases h
        | ok ls =>
          rw [lines] at h
          rw [← Except.ok.inj h]
          rfl

def errorOf (p : Problem) : ReportError :=
  ⟨p.failure.type, p.failure.message, p.failure.scimType, p.failure.details⟩

theorem message_errorOf {text : String} {p : Problem} (h : p.Placed text) :
    (errorOf p).message = p.text := by
  show p.failure.message = p.text
  unfold Problem.failure
  cases h with
  | limit _ _ kind =>
    have noPlace : p.site? = none := by rw [Problem.site?, kind]; rfl
    rw [kind]
    dsimp only
    rw [Problem.text, noPlace]
    rfl
  | site _ kind _ => rcases kind with kind | kind <;> rw [kind]

theorem lookup_position {text : String} {p : Problem} (h : p.Placed text) :
    Json.lookup "position" ((errorOf p).details.getD []) = p.place?.map .int := by
  show Json.lookup "position" (p.failure.details.getD []) = _
  unfold Problem.failure
  cases h with
  | limit _ _ kind =>
    rw [Problem.place?, Problem.site?, kind]
    simp [Json.lookup, Problem.Kind.site?]
  | site site kind _ =>
    have details : Json.lookup "position" ((Failure.details? site.details).getD []) =
        site.position.map .int := by
      obtain ⟨token, position, whole⟩ := site
      cases token <;> cases position <;> simp [Site.details, Failure.details?, Json.lookup]
    rcases kind with kind | kind <;> rw [Problem.place?, Problem.site?, kind] <;> exact details

/-- the place of a problem, as a report gives it -/
theorem position_errorOf {text : String} {p : Problem} (h : p.Placed text) :
    position (errorOf p) = match p.place? with
      | none => .ok none
      | some n =>
        if Number.wordBound ≤ n then .error .positionTooLarge
        else if lineCapacity ≤ n then .error .noRoom
        else .ok (some n.toNat) := by
  unfold position
  rw [lookup_position h]
  cases place : p.place? with
  | none => rfl
  | some n =>
    obtain ⟨k, rfl, -⟩ := h.place_within place
    have natural : ¬ (k : Int) < -Number.wordBound := by
      have : Number.wordBound = 0x8000000000000000 := rfl
      omega
    simp only [Option.map_some, natural, false_or]

theorem render_tree_failure (tree : style.form = .tree) {p : Problem} (h : p.Placed expression) :
    (failure mode expression p.failure).render style writer =
      match (if style.quiet then none else p.place?) with
      | none => .ok ⟨"", String.ofList (writer.text ("Error: ".toList ++ p.text.toList))⟩
      | some n =>
        if Number.wordBound ≤ n then .error .positionTooLarge
        else if lineCapacity ≤ n then .error .noRoom
        else .ok ⟨"", String.ofList (writer.text ("Error: ".toList ++ p.text.toList) ++
          caretLines writer expression n.toNat)⟩ := by
  have message := message_errorOf h
  unfold render
  rw [tree]
  show (errorLines writer style.quiet expression (errorOf p)).map _ = _
  unfold errorLines
  rw [message]
  cases style.quiet with
  | true => rfl
  | false =>
    show Except.map _ (position (errorOf p) >>= _) = _
    rw [position_errorOf h]
    cases p.place? with
    | none => rfl
    | some n =>
      rw [if_neg Bool.false_ne_true]
      dsimp only
      by_cases huge : Number.wordBound ≤ n
      · rw [if_pos huge, if_pos huge]
        rfl
      · rw [if_neg huge, if_neg huge]
        by_cases far : lineCapacity ≤ n
        · rw [if_pos far, if_pos far]
          rfl
        · rw [if_neg far, if_neg far]
          rfl

theorem errors_of_render (tree : style.form = .tree) {p : Problem} (h : p.Placed expression)
    (rendered : (failure mode expression p.failure).render style writer = .ok screen) :
    ∃ more, screen.errors =
      String.ofList (writer.text ("Error: ".toList ++ p.text.toList) ++ more) ∧
        (style.quiet = true → more = []) := by
  rw [render_tree_failure tree h] at rendered
  have alone {drawn : Screen} (same : drawn = screen) (errors : drawn.errors =
      String.ofList (writer.text ("Error: ".toList ++ p.text.toList))) :
      ∃ more, screen.errors =
        String.ofList (writer.text ("Error: ".toList ++ p.text.toList) ++ more) ∧
          (style.quiet = true → more = []) :=
    ⟨[], by rw [← same, errors, List.append_nil], fun _ => rfl⟩
  cases quiet : style.quiet with
  | true =>
    rw [quiet] at rendered alone
    exact alone (Except.ok.inj rendered) rfl
  | false =>
    rw [quiet] at rendered alone
    cases place : p.place? with
    | none =>
      rw [place] at rendered
      exact alone (Except.ok.inj rendered) rfl
    | some n =>
      rw [place, if_neg Bool.false_ne_true] at rendered
      dsimp only at rendered
      split at rendered
      · cases rendered
      · split at rendered
        · cases rendered
        · rw [← Except.ok.inj rendered]
          exact ⟨_, rfl, nofun⟩

end Report

end Scim
