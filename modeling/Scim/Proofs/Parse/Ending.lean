import Scim.Proofs.Descent.Raised
import Scim.Proofs.Parse.Site

/-!
# The end of the input

Some problems are reported as an unexpected end of the input.  What is read at that moment is then
at its end, or a name that spells a logical operator stands there.

* `Problem.SaysEnd`             a problem that is reported so;
* `Fault.cases_of_said`         the faults with these words;
* `Mode.raised_of_parse`        where the fault of a refused text is raised;
* `Stretch.IsEnd`               nothing is left at a place, or only such a name;
* `Stretch.GoesOn`              more is left behind such a name;
* `Mode.end_said_iff`           the words are true unless more is left behind such a name.
-/

namespace Scim

open Grammar Descent Phrase

/-! ## The words -/

/-- The words with which a message says that nothing is left. -/
def endWords : String := "Unexpected end of input"

/-- A problem that is reported as an unexpected end of the input. -/
def Problem.SaysEnd (p : Problem) : Prop := endWords.toList <+: p.message.toList

instance (p : Problem) : Decidable p.SaysEnd :=
  inferInstanceAs (Decidable (endWords.toList <+: p.message.toList))

theorem not_said_of_start (start rest : String) {message : String} (same : message = start ++ rest)
    (apart : ¬ endWords.toList <+: start.toList ∧ ¬ start.toList <+: endWords.toList) :
    ¬ endWords.toList <+: message.toList := by
  intro said
  have begins : start.toList <+: message.toList := by
    rw [same, String.toList_append]
    exact List.prefix_append _ _
  rcases List.prefix_or_prefix_of_prefix said begins with longer | shorter
  · exact apart.1 longer
  · exact apart.2 shorter

theorem Problem.not_saysEnd_tooLong (limit actual : Nat) : ¬ (tooLong limit actual).SaysEnd := by
  refine not_said_of_start "Expression is "
    (toString actual ++ (" characters long, the limit is " ++ (toString limit ++ "."))) ?_
    (by decide)
  simp only [tooLong, make, String.append_assoc]

theorem Problem.not_saysEnd_tooDeep (limit actual : Nat) : ¬ (tooDeep limit actual).SaysEnd := by
  refine not_said_of_start "Expression nests "
    (toString actual ++ (" levels deep, the limit is " ++ (toString limit ++ "."))) ?_
    (by decide)
  simp only [tooDeep, make, String.append_assoc]

/-- **The faults with these words**: those without a token, and a name that spells an operator. -/
theorem Fault.cases_of_said {f : Fault} (said : endWords.toList <+: f.message.toList) :
    f.token = none ∨ f.cause = .danglingOperator := by
  obtain ⟨cause, token, position⟩ := f
  cases token with
  | none => exact .inl rfl
  | some token =>
    cases cause with
    | danglingOperator => exact .inr rfl
    | strayCharacter =>
      exact absurd said (not_said_of_start "Unexpected character '" _
        (String.append_assoc ..) (by decide))
    | expected kinds =>
      refine absurd said (not_said_of_start "Unexpected '" ?_ ?_ (by decide))
      · exact String.ofList (Text.stripBlanks token) ++ ("'" ++ (", expected " ++
          (anyOf kinds ++ ".")))
      · simp only [message, shown, String.append_assoc]
        rfl
    | trailingToken =>
      refine absurd said (not_said_of_start "Unexpected '" ?_ ?_ (by decide))
      · exact String.ofList (Text.stripBlanks token) ++ ("'" ++ " after the end of the expression.")
      · simp only [message, shown, String.append_assoc]
        rfl
    | expectedOperand =>
      exact absurd said (not_said_of_start
        "Expected an attribute/value path, opening parenthesis or a negation, got " _
        (String.append_assoc ..) (by decide))
    | emptyOperand =>
      exact absurd said (not_said_of_start "Expected an expression after " _
        (String.append_assoc ..) (by decide))
    | expectedComparison =>
      exact absurd said (not_said_of_start
        "Expected a comparison, negation or logical expression inside value path brackets, got " _
        (String.append_assoc ..) (by decide))
    | nestedValuePath =>
      refine absurd said (not_said_of_start "Value path '" ?_ ?_ (by decide))
      · exact String.ofList token ++ ("[...]'" ++ " cannot be nested inside another value path.")
      · simp only [message, valuePath, String.append_assoc]
        rfl
    | deepValuePath =>
      refine absurd said (not_said_of_start "Value path '" ?_ ?_ (by decide))
      · exact String.ofList token ++ ("[...]'" ++ " is only allowed on a top-level attribute.")
      · simp only [message, valuePath, String.append_assoc]
        rfl
    | emptyValuePath name =>
      refine absurd said (not_said_of_start "Value path '" ?_ ?_ (by decide))
      · exact name ++ ("[...]'" ++ " must contain a filter.")
      · simp only [message, valuePath, String.append_assoc]

/-! ## Places -/

/-- Nothing is left at a place, or only a name that spells an operator. -/
def Descent.Stretch.IsEnd (s : Stretch) (f : Fault) : Prop :=
  (f.token = none ∧ s.rest = []) ∨
    ∃ t, s.rest = [t] ∧ isDangling t = true ∧ f.token = some t.text

/-- Behind a complete expression stands a name that spells an operator, and more behind it. -/
def Descent.Stretch.GoesOn (s : Stretch) (f : Fault) : Prop :=
  ∃ read t u after, s.tokens = read ++ t :: u :: after ∧ s.rest = t :: u :: after ∧
    Complete read ∧ isDangling t = true ∧ f.token = some t.text

theorem Descent.Stretch.IsEnd.not_goesOn {s : Stretch} {f : Fault} (h : s.IsEnd f) :
    ¬ s.GoesOn f := by
  rintro ⟨read, t, u, after, -, left, -⟩
  obtain ⟨-, none⟩ | ⟨t', single, -⟩ := h
  · cases left.symm.trans none
  · cases left.symm.trans single

theorem Descent.Raised.end_or_goesOn {whole : List Token} {stop : Int} {f : Fault} {s : Stretch}
    (raised : Raised whole stop f s) (said : endWords.toList <+: f.message.toList) :
    s.IsEnd f ∨ s.GoesOn f := by
  cases raised with
  | ending _ none _ _ => exact .inl (.inl ⟨none, rfl⟩)
  | @token read after t _ _ _ shown _ operator =>
    have dangling : f.cause = .danglingOperator := by
      rcases Fault.cases_of_said said with none | dangling
      · cases shown.symm.trans none
      · exact dangling
    obtain ⟨spells, complete⟩ := operator dangling
    cases after with
    | nil => exact .inl (.inr ⟨t, rfl, spells, shown⟩)
    | cons u after => exact .inr ⟨read, t, u, after, rfl, rfl, complete, spells, shown⟩

theorem Mode.raised_of_descend {mode : Mode} {stop : Int} {ts : List Token} {f : Fault}
    (h : mode.descend stop ts = .error (.fault f)) : ∃ s, Raised ts stop f s := by
  cases mode with
  | filter => exact raised_filterWithin ts.length stop ts f h
  | path => exact raised_pathWithin ts.length stop ts f h

theorem Limits.not_saysEnd_of_start {limits : Limits} {mode : Mode} {text : String} {e : Failed}
    {p : Problem} (h : limits.start mode text = .error e)
    (same : e.refusal mode text = .problem p) : ¬ p.SaysEnd := by
  unfold Limits.start Cursor.ofText at h
  split at h
  · obtain rfl := Except.error.inj h
    obtain rfl := Refusal.problem.inj same
    exact Problem.not_saysEnd_tooLong _ _
  · cases scanned : scan mode text.toList 0 with
    | error stray =>
      rw [scanned] at h
      obtain rfl := Except.error.inj h
      obtain rfl := Refusal.problem.inj same
      intro said
      rcases Fault.cases_of_said (f := stray.fault) said with none | dangling
      · cases none
      · cases dangling
    | ok ts =>
      rw [scanned] at h
      dsimp only at h
      split at h
      · obtain rfl := Except.error.inj h
        obtain rfl := Refusal.problem.inj same
        exact Problem.not_saysEnd_tooDeep _ _
      · cases h

theorem Mode.raised_of_parse {mode : Mode} {limits : Limits} {text : String} {p : Problem}
    (refused : mode.parse limits text = .error (.problem p)) (said : p.SaysEnd) :
    ∃ f ts s, p = .ofFault mode text f ∧ scan mode text.toList 0 = .ok ts ∧
      Raised ts text.length f s := by
  cases started : limits.start mode text with
  | error e =>
    rw [Mode.parse_eq, started] at refused
    have same : e.refusal mode text = .problem p := Except.error.inj refused
    exact absurd said (Limits.not_saysEnd_of_start started same)
  | ok c =>
    obtain ⟨ts, scanned, rfl⟩ := Limits.start_eq_ok started
    rw [Mode.parse_eq, started] at refused
    change refuse mode text (mode.descend text.length ts) = _ at refused
    cases result : mode.descend text.length ts with
    | ok node =>
      rw [result] at refused
      cases refused
    | error e =>
      rw [result] at refused
      have same : e.refusal mode text = .problem p := Except.error.inj refused
      cases (mode.meets_descend text.length ts).error result with
      | fault located =>
        obtain ⟨s, raised⟩ := Mode.raised_of_descend result
        exact ⟨_, ts, s, (Refusal.problem.inj same).symm, scanned, raised⟩
      | invalid _ => cases same
      | exhausted few => exact few.elim

/-- **When the words are true.**  A text that is refused with them is refused for a fault that is
raised in one passage of it, the whole text or the contents of a group, at its end or at a name that
spells an operator behind a complete expression.  The words are true of the passage unless more
tokens of it stand behind that name. -/
theorem Mode.end_said_iff {mode : Mode} {limits : Limits} {text : String} {p : Problem}
    (refused : mode.parse limits text = .error (.problem p)) (said : p.SaysEnd) :
    ∃ f ts s, p = .ofFault mode text f ∧ scan mode text.toList 0 = .ok ts ∧
      Raised ts text.length f s ∧ (∀ s', Raised ts text.length f s' → s' = s) ∧
      (s.IsEnd f ↔ ¬ s.GoesOn f) := by
  obtain ⟨f, ts, s, rfl, scanned, raised⟩ := Mode.raised_of_parse refused said
  have tiles := scan_eq_ok_iff.mp scanned
  rw [← String.length_toList] at raised ⊢
  refine ⟨f, ts, s, rfl, scanned, raised, fun s' other => other.unique tiles raised rfl rfl, ?_⟩
  refine ⟨Stretch.IsEnd.not_goesOn, fun ends => ?_⟩
  rcases raised.end_or_goesOn said with isEnd | goesOn
  · exact isEnd
  · exact absurd goesOn ends

/-- The tokens of `(a pr and) or b pr`. -/
def groupTokens : List Token :=
  [⟨.openParen, ['('], 0⟩, ⟨.name, ['a'], 1⟩, ⟨.comparison, [' ', 'p', 'r'], 2⟩,
    ⟨.name, ['a', 'n', 'd'], 6⟩, ⟨.closeParen, [')'], 9⟩, ⟨.logical, [' ', 'o', 'r', ' '], 10⟩,
    ⟨.name, ['b'], 14⟩, ⟨.comparison, [' ', 'p', 'r'], 15⟩]

/-- the words said of the contents of a group, behind which the text goes on -/
theorem Mode.end_said_in_group : ∃ p f s,
    Mode.filter.parse .unlimited "(a pr and) or b pr" = .error (.problem p) ∧ p.SaysEnd ∧
      p = .ofFault .filter "(a pr and) or b pr" f ∧ Raised groupTokens 18 f s ∧
      s.tokens.length = 3 ∧ s.IsEnd f := by
  let word : Token := ⟨.name, ['a', 'n', 'd'], 6⟩
  have scanned : scan .filter "(a pr and) or b pr".toList 0 = .ok groupTokens := by rfl
  have refused : Mode.filter.parse .unlimited "(a pr and) or b pr" = .error (.problem
      (.ofFault .filter "(a pr and) or b pr" ⟨.danglingOperator, some ['a', 'n', 'd'], 6⟩)) := by
    rw [Mode.parse_unlimited scanned]
    rfl
  have said : Problem.SaysEnd (.ofFault .filter "(a pr and) or b pr"
      ⟨.danglingOperator, some ['a', 'n', 'd'], 6⟩) := by decide +kernel
  obtain ⟨f, ts, s, same, scanned', raised, -, isEnd⟩ := Mode.end_said_iff refused said
  obtain rfl := Except.ok.inj (scanned.symm.trans scanned')
  have site := congrArg Problem.site? same
  rw [Problem.site?_ofFault, Problem.site?_ofFault] at site
  injection Option.some.inj site with shown place _
  obtain ⟨run, token, text⟩ := Option.map_eq_some_iff.mp shown.symm
  -- the stretch that the fault determines is the one of the group
  have presence : Complete [⟨.name, ['a'], 1⟩, ⟨.comparison, [' ', 'p', 'r'], 2⟩] :=
    .inl ⟨.filter, some _, .mk (.presence _ _) .nil, .mk (.presence rfl rfl (by decide)) .nil, rfl,
      rfl⟩
  have passage : Passage groupTokens 18 [⟨.name, ['a'], 1⟩, ⟨.comparison, [' ', 'p', 'r'], 2⟩, word]
      word.stop :=
    @Passage.group _ _ [] _ [⟨.logical, [' ', 'o', 'r', ' '], 10⟩, ⟨.name, ['b'], 14⟩,
      ⟨.comparison, [' ', 'p', 'r'], 15⟩] _ _ _ _ .whole rfl rfl
      (.other nofun nofun (.other nofun nofun (.other nofun nofun .nil))) rfl
  have here : Raised groupTokens 18 ⟨.danglingOperator, some word.text, 6⟩ ⟨_, _, [word]⟩ :=
    @Raised.token _ _ _ [_, _] _ _ _ passage (.other nofun nofun (.other nofun nofun .nil)) rfl rfl
      fun _ => ⟨rfl, presence⟩
  have only := here.unique (scan_eq_ok_iff.mp scanned) raised
    (by rw [token, String.ofList_injective text]) (Option.some.inj place)
  subst only
  refine ⟨_, f, _, refused, said, same, raised, rfl, isEnd.mpr ?_⟩
  rintro ⟨read, t, u, after, -, rest, -⟩
  cases rest

/-- a name that spells an operator, behind which a group is left -/
theorem Mode.exists_end_said_early :
    ¬ ∀ (mode : Mode) (limits : Limits) (text : String) (f : Fault) (ts : List Token) (s : Stretch),
      mode.parse limits text = .error (.problem (.ofFault mode text f)) →
        (Problem.ofFault mode text f).SaysEnd → scan mode text.toList 0 = .ok ts →
          Raised ts text.length f s → s.IsEnd f := by
  intro true_words
  let a : Token := ⟨.name, ['a'], 0⟩
  let pr : Token := ⟨.comparison, [' ', 'p', 'r'], 1⟩
  have scanned : scan .filter "a pr and(b pr)".toList 0 = .ok
      [⟨.name, ['a'], 0⟩, ⟨.comparison, [' ', 'p', 'r'], 1⟩, ⟨.name, ['a', 'n', 'd'], 5⟩,
        ⟨.openParen, ['('], 8⟩, ⟨.name, ['b'], 9⟩, ⟨.comparison, [' ', 'p', 'r'], 10⟩,
        ⟨.closeParen, [')'], 13⟩] := by rfl
  have refused : Mode.filter.parse .unlimited "a pr and(b pr)" = .error (.problem
      (.ofFault .filter "a pr and(b pr)" ⟨.danglingOperator, some ['a', 'n', 'd'], 5⟩)) := by
    rw [Mode.parse_unlimited scanned]
    rfl
  have presence : Complete [a, pr] :=
    .inl ⟨.filter, some _, .mk (.presence a pr) .nil, .mk (.presence rfl rfl (by decide)) .nil, rfl,
      rfl⟩
  have raised : Raised _ "a pr and(b pr)".length ⟨.danglingOperator, some ['a', 'n', 'd'], 5⟩ _ :=
    @Raised.token _ _ _ [a, pr] [⟨.openParen, ['('], 8⟩, ⟨.name, ['b'], 9⟩,
      ⟨.comparison, [' ', 'p', 'r'], 10⟩, ⟨.closeParen, [')'], 13⟩] ⟨.name, ['a', 'n', 'd'], 5⟩ _
      .whole (.other nofun nofun (.other nofun nofun .nil)) rfl rfl fun _ => ⟨rfl, presence⟩
  have isEnd := true_words .filter .unlimited _ _ _ _ refused (by decide +kernel) scanned raised
  exact isEnd.not_goesOn ⟨[a, pr], _, _, _, rfl, rfl, presence, rfl, rfl⟩

end Scim
