import Scim.Proofs.Report.Outcome

/-!
# What a command reports

The exit code and what is written say what the parser does with the expression.

* `Command.envelope`        the JSON value that reports on the result of the parser;
* `Command.read?_envelope`  a report is written so that this value is read back;
* `Command.Shows`           when a result can be shown;
* `Command.shows_of_flat`   as JSON it can be shown under a low limit of depth;
* `Command.Reports`         what is shown of it;
* `Command.run_reports`     a command shows the result of the parser, if it can be shown.
-/

namespace Scim

open Text

/-! ## The envelope -/

/-- The word for a class of problem. -/
def Problem.Kind.word : Problem.Kind → String
  | malformed _ => "syntax_error"
  | valuePath _ => "invalid_value_path"
  | limit _ _ => "limit_exceeded"
  | configuration => "config_error"
  | internal | general => "internal_error"

/-- The token and the position of a place, as far as they are known. -/
def Site.known (site : Site) : Json :=
  match site.token, site.position with
  | some token, some position => .object [("token", .string token), ("position", .int position)]
  | some token, none => .object [("token", .string token)]
  | none, some position => .object [("position", .int position)]
  | none, none => .null

/-- What is known of a problem: its place, or the limit and what exceeds it. -/
def Problem.Kind.details : Problem.Kind → Json
  | malformed site | valuePath site => site.known
  | limit bound actual => .object [("limit", .int bound), ("actual", .int actual)]
  | _ => .null

def Problem.toJson (p : Problem) : Json :=
  .object [("type", .string p.kind.word), ("message", .string p.text),
    ("scimType", .ofString? p.scimType), ("details", p.kind.details)]

namespace Command

/-- The tree of a result and the attributes in it, or null. -/
def dataJson : Except Refusal (Option Node) → Json
  | .ok (some n) => .object [("ast", n.toJson.finiteOnly),
      ("attributes", .array (n.attributes.map .string))]
  | _ => .null

def errorJson : Except Refusal (Option Node) → Json
  | .error (.problem p) => p.toJson
  | _ => .null

/-- The JSON value that reports on a result. -/
def envelope (mode : Mode) (expression : String) (result : Except Refusal (Option Node)) : Json :=
  .object [("ok", .bool result.toBool), ("command", .string mode.label),
    ("input", .string expression), ("data", dataJson result), ("error", errorJson result)]

theorem finiteItems_strings (names : List String) :
    Json.finiteItems (names.map .string) = names.map .string := by
  induction names with
  | nil => rfl
  | cons name names ih => rw [List.map_cons, Json.finiteItems, ih]; rfl

variable {mode : Mode} {limits : Limits} {expression : String}

theorem toJson_success (mode : Mode) (expression : String) (node : Option Node) :
    (success mode expression node).toJson = envelope mode expression (.ok node) := by
  cases node with
  | none => rfl
  | some n =>
    unfold Report.toJson envelope
    simp only [success, Option.map_some, Report.objectOf, dataOf, Json.finiteOnly,
      Json.finiteFields, finiteItems_strings, dataJson]
    rfl

theorem finiteOnly_ofString? (s : Option String) :
    (Json.ofString? s).finiteOnly = Json.ofString? s := by
  cases s <;> rfl

theorem finiteOnly_details (kind : Problem.Kind) : kind.details.finiteOnly = kind.details := by
  have known (site : Site) : site.known.finiteOnly = site.known := by
    obtain ⟨token, position, whole⟩ := site
    cases token <;> cases position <;> rfl
  cases kind with
  | malformed site => exact known site
  | valuePath site => exact known site
  | _ => rfl

theorem objectOf_details (site : Site) :
    Report.objectOf (Failure.details? site.details) = site.known := by
  obtain ⟨token, position, whole⟩ := site
  cases token <;> cases position <;> rfl

theorem errorToJson_errorOf {p : Problem} (h : p.Placed expression) :
    Report.errorToJson (Report.errorOf p) = p.toJson := by
  have message := Report.message_errorOf h
  unfold Report.errorToJson Problem.toJson
  rw [message]
  cases h with
  | limit bound actual kind => simp only [Report.errorOf, Problem.failure, kind]; rfl
  | site site kind _ =>
    have details := objectOf_details site
    rcases kind with kind | kind
    · simp only [Report.errorOf, Problem.failure, kind, details]; rfl
    · simp only [Report.errorOf, Problem.failure, kind, details]; rfl

theorem toJson_failure {p : Problem} (h : p.Placed expression) (mode : Mode) :
    (failure mode expression p.failure).toJson =
      envelope mode expression (.error (.problem p)) := by
  have error : (Report.errorToJson (Report.errorOf p)).finiteOnly = p.toJson := by
    rw [errorToJson_errorOf h]
    simp only [Problem.toJson, Json.finiteOnly, Json.finiteFields, finiteOnly_ofString?,
      finiteOnly_details]
  unfold Report.toJson envelope
  show Json.object [_, _, _, _, ("error", (Report.errorToJson (Report.errorOf p)).finiteOnly)] = _
  rw [error]
  rfl

/-! ## Reading a report -/

theorem doubles_details (kind : Problem.Kind) : kind.details.doubles = [] := by
  have known (site : Site) : site.known.doubles = [] := by
    obtain ⟨token, position, whole⟩ := site
    cases token <;> cases position <;> rfl
  cases kind with
  | malformed site => exact known site
  | valuePath site => exact known site
  | _ => rfl

theorem doubles_errorJson (result : Except Refusal (Option Node)) :
    (errorJson result).doubles = [] := by
  cases result with
  | ok node => rfl
  | error refusal =>
    cases refusal with
    | problem p =>
      simp [errorJson, Problem.toJson, Json.doubles, Json.doublesOfFields, Node.doubles_ofString?,
        doubles_details]
    | invalid e => rfl

theorem canonical_envelope (mode : Mode) (limits : Limits) (expression : String) :
    ∀ x ∈ (envelope mode expression (mode.parse limits expression)).doubles, x.Canonical := by
  have data : ∀ x ∈ (dataJson (mode.parse limits expression)).doubles, x.Canonical := by
    intro x hx
    cases result : mode.parse limits expression with
    | error refusal =>
      rw [result] at hx
      cases hx
    | ok node =>
      rw [result] at hx
      cases node with
      | none => cases hx
      | some n =>
        refine Mode.canonical_of_parse result x ?_
        simpa [dataJson, Json.doubles, Json.doublesOfFields, Node.doublesOfItems_strings] using hx
  simpa [envelope, Json.doubles, Json.doublesOfFields, doubles_errorJson] using data

/-- **A report is read back** from what is written. -/
theorem read?_envelope (mode : Mode) (limits : Limits) (expression : String) :
    let j := envelope mode expression (mode.parse limits expression)
    Json.read? (j.pretty ++ "\n") = some j :=
  Json.read?_pretty (canonical_envelope mode limits expression) ['\n']
    (List.forall_mem_singleton.mpr rfl)

/-! ## What is shown -/

/-- A result can be shown: as JSON unless its tree nests too deep, and as a drawing unless its place
lies beyond the longest line. -/
def Shows (writer : Writer) (style : Style) (result : Except Refusal (Option Node)) : Prop :=
  match style.form with
  | .json => ∀ n, result = .ok (some n) → n.toJson.depth ≤ writer.deepest
  | .tree => style.quiet = true ∨
      ∀ p, result = .error (.problem p) → ∀ n, p.place? = some n → n < Report.lineCapacity

theorem shows_of_flat {writer : Writer} {style : Style} {d : Nat} (json : style.form = .json)
    (limited : limits.maxDepth = some d) (low : 6 * d + 9 ≤ writer.deepest) :
    Shows writer style (mode.parse limits expression) := by
  unfold Shows
  rw [json]
  intro n accepted
  exact (Mode.depth_toJson_le limited accepted).trans low

/-- What is shown of a result. -/
structure Reports (writer : Writer) (settings : Settings) (mode : Mode) (limits : Limits)
    (expression : String) (code : Nat) (screen : Screen) : Prop where
  returned : ∀ node, mode.parse limits expression = .ok node → code = 0
  raised : ∀ p, mode.parse limits expression = .error (.problem p) → code = 2
  json : settings.style.form = .json → Json.read? screen.output =
    some (envelope mode expression (mode.parse limits expression))
  empty : settings.style.form = .tree → (∀ n, mode.parse limits expression ≠ .ok (some n)) →
    screen.output = ""
  message : settings.style.form = .tree → ∀ p, mode.parse limits expression = .error (.problem p) →
    ∃ message more, screen.errors = notes settings mode limits expression ++
      String.ofList (message ++ more) ∧
        message = writer.text ("Error: ".toList ++ p.text.toList) ∧
        Printed message (shown writer.width ("Error: ".toList ++ p.text.toList)) ∧
        (settings.style.quiet = true → more = [])

variable {libraries : Libraries} {settings : Settings} {code : Nat} {screen : Screen}

theorem finished_of_ok {node : Option Node} (result : mode.parse limits expression = .ok node) :
    execute libraries settings mode limits expression = .finished code screen ↔ code = 0 ∧
      ∃ s, (success mode expression node).render settings.style libraries.writer = .ok s ∧
        screen = ⟨s.output, notes settings mode limits expression ++ s.errors⟩ := by
  rw [execute_of_ok result, outcomeOf_eq_finished]

theorem finished_of_problem {p : Problem}
    (result : mode.parse limits expression = .error (.problem p)) :
    execute libraries settings mode limits expression = .finished code screen ↔ code = 2 ∧
      ∃ s, (failure mode expression p.failure).render settings.style libraries.writer = .ok s ∧
        screen = ⟨s.output, notes settings mode limits expression ++ s.errors⟩ := by
  rw [execute_of_problem result, outcomeOf_eq_finished]

theorem exists_render_failure {writer : Writer} {p : Problem} (h : p.Placed expression)
    (tree : settings.style.form = .tree) :
    (∃ s, (failure mode expression p.failure).render settings.style writer = .ok s) ↔
      (settings.style.quiet = true ∨ ∀ n, p.place? = some n → n < Report.lineCapacity) := by
  have wide : Report.lineCapacity ≤ Number.wordBound := by decide
  rw [Report.render_tree_failure tree h]
  cases settings.style.quiet with
  | true => simp
  | false =>
    cases p.place? with
    | none => simp
    | some n =>
      by_cases huge : Number.wordBound ≤ n
      · have far : Report.lineCapacity ≤ n := wide.trans huge
        simp [huge, far]
      · by_cases far : Report.lineCapacity ≤ n
        · simp [huge, far]
        · have near := not_le.mp far
          simp [huge, far, near]

theorem ne_invalid_of_ok {node : Option Node} (h : mode.parse limits expression = .ok node) :
    ∀ e, mode.parse limits expression ≠ .error (.invalid e) := by
  rw [h]
  nofun

theorem finishes_iff_shows (flat : 2 ≤ libraries.writer.deepest)
    (library : ∀ e, mode.parse limits expression ≠ .error (.invalid e)) :
    (∃ code screen, execute libraries settings mode limits expression =
      .finished code screen) ↔
        Shows libraries.writer settings.style (mode.parse limits expression) := by
  cases result : mode.parse limits expression with
  | ok node =>
    have finishes : (∃ code screen, execute libraries settings mode limits expression =
        .finished code screen) ↔
          ∃ s, (success mode expression node).render settings.style libraries.writer = .ok s := by
      simp [finished_of_ok result]
    rw [finishes]
    unfold Shows
    cases form : settings.style.form with
    | json =>
      cases node with
      | none => simp [Report.render_json_eq_ok form, Report.nestsTooDeep_empty]
      | some n => simp [Report.render_json_eq_ok form, Report.nestsTooDeep_success flat]
    | tree =>
      refine iff_of_true ?_ (.inr nofun)
      cases node with
      | none => exact ⟨_, Report.render_tree_empty form⟩
      | some n => exact ⟨_, Report.render_tree_success form result⟩
  | error refusal =>
    cases refusal with
    | invalid e => exact absurd result (library e)
    | problem p =>
      have placed := Mode.placed_of_parse result
      have finishes : (∃ code screen, execute libraries settings mode limits expression =
          .finished code screen) ↔
            ∃ s, (failure mode expression p.failure).render settings.style libraries.writer =
              .ok s := by
        simp [finished_of_problem result]
      rw [finishes]
      unfold Shows
      cases form : settings.style.form with
      | json => simp [Report.render_json_eq_ok form, Report.nestsTooDeep_failure flat placed]
      | tree => simp [exists_render_failure placed form]

theorem reports_of_finished (lawful : libraries.writer.Lawful)
    (library : ∀ e, mode.parse limits expression ≠ .error (.invalid e))
    (finished : execute libraries settings mode limits expression = .finished code screen) :
    Reports libraries.writer settings mode limits expression code screen := by
  cases result : mode.parse limits expression with
  | ok node =>
    obtain ⟨rfl, s, rendered, rfl⟩ := (finished_of_ok result).mp finished
    refine ⟨fun _ _ => rfl, ?_, ?_, ?_, ?_⟩
    · rintro p refused
      cases result.symm.trans refused
    · intro json
      obtain ⟨-, rfl⟩ := (Report.render_json_eq_ok json _).mp rendered
      have read := read?_envelope mode limits expression
      rwa [result, ← toJson_success] at read ⊢
    · intro tree none
      cases node with
      | some n => exact absurd result (none n)
      | none =>
        rw [Report.render_tree_empty tree] at rendered
        rw [← Except.ok.inj rendered]
    · rintro - p refused
      cases result.symm.trans refused
  | error refusal =>
    cases refusal with
    | invalid e => exact absurd result (library e)
    | problem p =>
      have placed := Mode.placed_of_parse result
      obtain ⟨rfl, s, rendered, rfl⟩ := (finished_of_problem result).mp finished
      refine ⟨?_, fun _ _ => rfl, ?_, ?_, ?_⟩
      · rintro node returned
        cases result.symm.trans returned
      · intro json
        obtain ⟨-, rfl⟩ := (Report.render_json_eq_ok json _).mp rendered
        have read := read?_envelope mode limits expression
        rwa [result, ← toJson_failure placed] at read ⊢
      · intro tree _
        have written := Report.output_of_render rendered
        rw [tree] at written
        exact written
      · rintro tree p' refused
        obtain rfl := Refusal.problem.inj (Except.error.inj (result.symm.trans refused))
        obtain ⟨more, errors, quiet⟩ := Report.errors_of_render tree placed rendered
        exact ⟨_, more, congrArg (notes settings mode limits expression ++ ·) errors, rfl,
          lawful.text _, quiet⟩

theorem exists_report (library : ∀ e, mode.parse limits expression ≠ .error (.invalid e)) :
    ∃ (exitCode : Nat) (r : Report), ∀ settings,
      execute libraries settings mode limits expression =
        outcomeOf (notes settings mode limits expression) exitCode
          (r.render settings.style libraries.writer) := by
  cases result : mode.parse limits expression with
  | ok node => exact ⟨0, success mode expression node, fun _ => execute_of_ok result⟩
  | error refusal =>
    cases refusal with
    | invalid e => exact absurd result (library e)
    | problem p => exact ⟨2, failure mode expression p.failure, fun _ => execute_of_problem result⟩

/-- **A command shows the result of the parser.**  It does whenever the result can be shown: a tree
that does not nest too deep, or a place on the longest line.  The exit code says whether the parser
returned.  In JSON what is written to the output is one envelope of the result, and nothing is
written there of a text without a tree in the other form.  How much is written beside it changes
neither the exit code nor the output. -/
theorem run_reports {libraries : Libraries} (lawful : libraries.writer.Lawful)
    {environment : String → Option String} {limits : Limits} {mode : Mode}
    {arguments rest : List String} {settings : Settings} {expression : String}
    (defaults : Limits.ofEnvironment environment libraries.limits = .ok limits)
    (options : readSettings libraries arguments = .ok (settings, mode.label :: rest))
    (argument : readExpression libraries rest = .ok expression)
    (library : ∀ e, mode.parse (limitsFor settings limits) expression ≠ .error (.invalid e)) :
    ((∃ code screen, run environment arguments libraries = .finished code screen) ↔
      Shows libraries.writer settings.style
        (mode.parse (limitsFor settings limits) expression)) ∧
    ∀ code screen, run environment arguments libraries = .finished code screen →
      Reports libraries.writer settings mode (limitsFor settings limits) expression code screen ∧
      ∀ arguments' settings' code' screen',
        readSettings libraries arguments' = .ok (settings', mode.label :: rest) →
        settings'.style.form = settings.style.form →
        limitsFor settings' limits = limitsFor settings limits →
        run environment arguments' libraries = .finished code' screen' →
        code' = code ∧ screen'.output = screen.output := by
  rw [run_eq_execute defaults options argument]
  refine ⟨finishes_iff_shows lawful.flat library, ?_⟩
  intro code screen finished
  refine ⟨reports_of_finished lawful library finished, ?_⟩
  intro arguments' settings' code' screen' options' form same finished'
  rw [run_eq_execute defaults options' argument, same] at finished'
  obtain ⟨exitCode, r, executed⟩ := exists_report library
  rw [executed, outcomeOf_eq_finished] at finished finished'
  obtain ⟨rfl, s, rendered, rfl⟩ := finished
  obtain ⟨rfl, s', rendered', rfl⟩ := finished'
  have written := Report.output_of_render rendered
  have written' := Report.output_of_render rendered'
  rw [form, ← written] at written'
  exact ⟨rfl, written'⟩

/-- a filter that is shown as JSON, quietly and under a limit of depth -/
theorem run_reports_joined :
    ∃ screen,
      run (fun name => if name = depthVariable then some "1" else none)
        ["--json", "-q", "filter", "a[b eq 1] and c pr"] = .finished 0 screen ∧
      Json.read? screen.output =
        some (envelope .filter "a[b eq 1] and c pr" (.ok (some Filter.joinedTree))) := by
  have limits : Limits.ofEnvironment (fun name => if name = depthVariable then some "1" else none)
      Libraries.standard.limits = .ok ⟨some 8192, some 1⟩ := by rfl
  have options (rest : List String) :
      readSettings .standard ("--json" :: "-q" :: Mode.filter.label :: rest) =
        .ok (⟨⟨.json, true⟩, 0, none, none⟩, Mode.filter.label :: rest) := by
    have split : Libraries.standard.split specs false
        ("--json" :: "-q" :: Mode.filter.label :: rest) = _ :=
      splitOptions_of_done rfl (by decide) (by rfl)
        (splitOptions_of_done rfl (by decide) (by rfl) (splitOptions_label specs .filter rest))
    unfold readSettings
    rw [split]
    rfl
  have accepted : Mode.filter.parse ⟨some 8192, some 1⟩ "a[b eq 1] and c pr" =
      .ok (some Filter.joinedTree) :=
    Filter.reads_joined.parse (by rintro l ⟨⟩; decide) (by rintro d ⟨⟩; decide)
  obtain ⟨finishes, reports⟩ :=
    run_reports Writer.lawful_standard limits (options _) (readExpression_of_plain rfl)
      (ne_invalid_of_ok accepted)
  have shown : Shows .standard ⟨.json, true⟩
      (Mode.filter.parse ⟨some 8192, some 1⟩ "a[b eq 1] and c pr") :=
    shows_of_flat rfl rfl (by decide)
  obtain ⟨code, screen, finished⟩ := finishes.mpr shown
  obtain ⟨reported, -⟩ := reports code screen finished
  obtain rfl := reported.returned _ accepted
  refine ⟨screen, finished, ?_⟩
  rw [← accepted]
  exact reported.json rfl

/-- a filter within the limits whose tree nests too deep -/
theorem run_nested_undrawable :
    Mode.filter.parse {} (Filter.nested 51) = .ok (some (Filter.nestedTree 51)) ∧
      run (fun _ => none) ["--json", "filter", Filter.nested 51] = .undrawable .tooDeep := by
  have accepted : Mode.filter.parse {} (Filter.nested 51) = .ok (some (Filter.nestedTree 51)) := by
    refine Filter.parse_nested ?_ ?_ <;> rintro _ ⟨⟩ <;> decide
  have options := readSettings_json .filter [Filter.nested 51]
  have argument := readExpression_of_plain (Filter.isOption_nested 51)
  have deep : (success .filter (Filter.nested 51) (some (Filter.nestedTree 51))).nestsTooDeep
      Libraries.standard.writer.deepest = true := by
    rw [Report.nestsTooDeep_success (by decide), Filter.depth_nested]
    rfl
  refine ⟨accepted, ?_⟩
  have executed := run_eq_execute ofEnvironment_none options argument
  have defaultLimits : limitsFor ⟨⟨.json, false⟩, 0, none, none⟩ {} = {} := rfl
  have drawn : (success .filter (Filter.nested 51) (some (Filter.nestedTree 51))).render
      ⟨.json, false⟩ Libraries.standard.writer = .error .tooDeep := by
    unfold Report.render
    rw [deep]
    rfl
  rw [defaultLimits, execute_of_ok accepted, drawn] at executed
  exact executed

end Command

end Scim
