import Scim.Grammar.Path
import Scim.Proofs.Descent.Budget
import Scim.Proofs.Descent.Complete
import Scim.Proofs.Descent.Simulation

/-!
# The two parsers

The parser of either language, and what it does with a text: the text is scanned once, and all that
follows depends on its tokens alone.

* `Mode.parse`              the parser of a language;
* `Mode.descend`            the descent of a language over the tokens of a whole text;
* `Mode.readAt_eq`          reading within a budget of at least the depth of the tokens;
* `Mode.parse_eq`           the parser is the descent over the tokens of the text;
* `Mode.meets_descend`      what the descent returns, and how it fails;
* `Mode.descend_eq_ok_iff`  the descent returns what the grammar derives;
* `Mode.refused_of_parse`   how a text is refused.
-/

namespace Scim

open Grammar Descent

theorem Tiles.length_le {mode : Mode} {p : Int} {cs : List Char} {ts : List Token}
    (h : Tiles mode p cs ts) : ts.length ≤ cs.length := by
  induction h with
  | nil p => exact Nat.le_refl 0
  | blank _ _ _ ih => exact Nat.le_succ_of_le ih
  | token found _ ih =>
    have long := List.length_pos_iff.mpr (Mode.exists_of_lexeme?_eq_some found).2.1
    rw [List.length_cons, List.length_append]
    omega

/-! ## The cursor before a text -/

theorem Limits.start_eq_ok {limits : Limits} {mode : Mode} {text : String} {c : Cursor}
    (h : limits.start mode text = .ok c) :
    ∃ ts, scan mode text.toList 0 = .ok ts ∧ c = ⟨text.toList, 0, 0, ts⟩ := by
  unfold Limits.start Cursor.ofText at h
  split at h
  · cases h
  · cases scanned : scan mode text.toList 0 with
    | error stray =>
      rw [scanned] at h
      cases h
    | ok ts =>
      rw [scanned] at h
      dsimp only at h
      split at h
      · cases h
      · obtain rfl := Except.ok.inj h
        exact ⟨ts, rfl, rfl⟩

theorem Limits.start_unlimited (mode : Mode) (text : String) :
    Limits.unlimited.start mode text = match scan mode text.toList 0 with
      | .ok ts => .ok ⟨text.toList, 0, 0, ts⟩
      | .error stray => .error (.fault stray.fault) := by
  unfold Limits.start Cursor.ofText
  cases scan mode text.toList 0 <;> rfl

namespace Mode

/-- The parser of a language. -/
def parse : Mode → Limits → String → Except Refusal (Option Node)
  | filter => Filter.parse
  | path => Path.parse

/-- The descent of a language over the tokens of a whole text. -/
def descend : Mode → (stop : Int) → List Token → Except Failed (Option Node)
  | filter => Descent.filter
  | path => Descent.path

/-- What the grammar of a language derives from the tokens of a whole text. -/
def Derives : Mode → Option Node → List Token → Prop
  | filter => Derived .filter
  | path => DerivedPath

/-- The tokens follow the grammar of a language up to a comparison that the tree cannot hold. -/
def Breaks : Mode → List Token → Invalid → Prop
  | filter => Descent.Breaks .filter
  | path => PathBreaks

/-- The reader of a language, with at most `budget` nested groups and brackets. -/
def readAt : Mode → (budget : Nat) → Cursor → Traced (Option Node)
  | filter => Filter.readAt
  | path => Path.readAt

theorem readAt_eq {mode : Mode} {limits : Limits} {text : String} {c : Cursor} {budget : Nat}
    (started : limits.start mode text = .ok c) (h : nesting c.rest ≤ budget) :
    (mode.readAt budget c).result = mode.descend text.length c.rest := by
  obtain ⟨ts, scanned, rfl⟩ := Limits.start_eq_ok started
  have fits : (⟨text.toList, 0, 0, ts⟩ : Cursor).Fits mode := ⟨[], scan_eq_ok_iff.mp scanned⟩
  have stop : stopOf ⟨text.toList, 0, 0, ts⟩ = text.length := by
    show (0 : Int) + text.toList.length = text.length
    rw [String.length_toList, Int.zero_add]
  cases mode with
  | filter =>
    have same : (Filter.readAt budget ⟨text.toList, 0, 0, ts⟩).result = _ :=
      agrees_filter budget fits
    rw [stop, filterWithin_eq _ h] at same
    exact same
  | path =>
    have same : (Path.readAt budget ⟨text.toList, 0, 0, ts⟩).result = _ := agrees_path budget fits
    rw [stop, pathWithin_eq _ h] at same
    exact same

theorem parse_eq_readAt (mode : Mode) (limits : Limits) (text : String) :
    mode.parse limits text = refuse mode text
      ((limits.start mode text).bind fun c => (mode.readAt text.length c).result) := by
  have started (read : Cursor → Traced (Option Node)) :
      (Traced.ofFailed (limits.start mode text) >>= read).result =
        (limits.start mode text).bind fun c => (read c).result := by
    rw [Traced.result_bind]
    cases limits.start mode text <;> rfl
  cases mode with
  | filter => exact congrArg (refuse .filter text) (started (Filter.readAt text.length))
  | path => exact congrArg (refuse .path text) (started (Path.readAt text.length))

/-- **A parser is the descent over the tokens of the text.** -/
theorem parse_eq (mode : Mode) (limits : Limits) (text : String) :
    mode.parse limits text = refuse mode text
      ((limits.start mode text).bind fun c => mode.descend text.length c.rest) := by
  rw [parse_eq_readAt]
  cases started : limits.start mode text with
  | error e => rfl
  | ok c =>
    obtain ⟨ts, scanned, rfl⟩ := Limits.start_eq_ok started
    have short : ts.length ≤ text.toList.length := (scan_eq_ok_iff.mp scanned).length_le
    rw [String.length_toList] at short
    exact congrArg _ (readAt_eq started (Nat.le_trans (nesting_le_length ts) short))

theorem meets_descend (mode : Mode) (stop : Int) (ts : List Token) :
    Meets (mode.descend stop ts) (fun node => mode.Derives node ts)
      (Allowed ts stop (mode.Breaks ts) False) := by
  have never (breaks : Invalid → Prop) :
      ∀ e, Allowed ts stop breaks (ts.length < nesting ts) e → Allowed ts stop breaks False e :=
    Allowed.lift (fun _ => id) (Nat.not_lt.mpr (nesting_le_length ts))
  cases mode with
  | filter => exact (meets_filterWithin ts.length stop ts).mono (never _) fun _ => id
  | path => exact (meets_pathWithin ts.length stop ts).mono (never _) fun _ => id

/-- **The descent returns what the grammar derives.** -/
theorem descend_eq_ok_iff {mode : Mode} {stop : Int} {ts : List Token} {node : Option Node} :
    mode.descend stop ts = .ok node ↔ mode.Derives node ts := by
  refine ⟨(mode.meets_descend stop ts).ok, fun h => ?_⟩
  cases mode with
  | filter => exact filter_of_derived h
  | path => exact path_of_derived h

theorem descend_eq_invalid_iff {mode : Mode} {stop : Int} {ts : List Token} {e : Invalid} :
    mode.descend stop ts = .error (.invalid e) ↔ mode.Breaks ts e := by
  constructor
  · intro failed
    cases (mode.meets_descend stop ts).error failed with
    | invalid broken => exact broken
  · intro h
    cases mode with
    | filter => exact filter_of_breaks h
    | path => exact path_of_breaks h

theorem parse_unlimited {mode : Mode} {text : String} {ts : List Token}
    (h : scan mode text.toList 0 = .ok ts) :
    mode.parse .unlimited text = refuse mode text (mode.descend text.length ts) := by
  rw [parse_eq, Limits.start_unlimited, h]
  rfl

/-! ## Refusals -/

/-- How a text is refused: for a limit, for a stray character, at a place among its tokens, or for a
comparison that the tree cannot hold. -/
inductive Refused (mode : Mode) (limits : Limits) (text : String) : Refusal → Prop where
  | length {limit : Nat} : Limits.exceeded limits.maxLength text.length = some limit →
      Refused mode limits text (.problem (.tooLong limit text.length))
  | stray {s : Stray} : scan mode text.toList 0 = .error s →
      Refused mode limits text (.problem (.ofFault mode text s.fault))
  | depth {ts : List Token} {limit : Nat} : scan mode text.toList 0 = .ok ts →
      Limits.exceeded limits.maxDepth (nesting ts) = some limit →
      Refused mode limits text (.problem (.tooDeep limit (nesting ts)))
  | fault {ts : List Token} {f : Fault} : scan mode text.toList 0 = .ok ts →
      Located ts text.length f → Refused mode limits text (.problem (.ofFault mode text f))
  | invalid {c : Cursor} {e : Invalid} : limits.start mode text = .ok c → mode.Breaks c.rest e →
      Refused mode limits text (.invalid e)

theorem refused_of_start {mode : Mode} {limits : Limits} {text : String} {e : Failed}
    (h : limits.start mode text = .error e) : Refused mode limits text (e.refusal mode text) := by
  unfold Limits.start Cursor.ofText at h
  split at h
  · next limit long =>
    obtain rfl := Except.error.inj h
    exact .length long
  · cases scanned : scan mode text.toList 0 with
    | error stray =>
      rw [scanned] at h
      obtain rfl := Except.error.inj h
      exact .stray scanned
    | ok ts =>
      rw [scanned] at h
      dsimp only at h
      split at h
      · next limit deep =>
        obtain rfl := Except.error.inj h
        exact .depth scanned deep
      · cases h

/-- **Every refusal** of a text is one of these. -/
theorem refused_of_parse {mode : Mode} {limits : Limits} {text : String} {r : Refusal}
    (h : mode.parse limits text = .error r) : Refused mode limits text r := by
  rw [parse_eq] at h
  cases started : limits.start mode text with
  | error e =>
    rw [started] at h
    obtain rfl := Except.error.inj h
    exact refused_of_start started
  | ok c =>
    obtain ⟨ts, scanned, rfl⟩ := Limits.start_eq_ok started
    rw [started] at h
    change refuse mode text (mode.descend text.length ts) = _ at h
    cases result : mode.descend text.length ts with
    | ok node =>
      rw [result] at h
      cases h
    | error e =>
      rw [result] at h
      obtain rfl := Except.error.inj h
      cases (mode.meets_descend text.length ts).error result with
      | fault located => exact .fault scanned located
      | invalid breaks => exact .invalid started breaks
      | exhausted few => exact few.elim

end Mode

end Scim
