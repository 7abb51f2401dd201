import Scim.Proofs.Parse.Basic
import Scim.Proofs.Scan.Word

/-!
# Refusals that are no problem

A text is refused as malformed, for a value path or for a limit, with two exceptions: a whole number
of too many digits, and an operator that is spelled with the long s.  Both are met while a
comparison is built, and are reported as they are.

* `Refusal.Listed`              a refusal of one of the three classes;
* `Breaks.source`               the token at which the tree cannot hold a comparison;
* `Mode.refusals_listed_iff`    when every refusal is of one of the three classes.
-/

namespace Scim

open Grammar Descent Phrase Lexeme

/-- A refusal as malformed, for a value path or for a limit. -/
inductive Refusal.Listed : Refusal → Prop where
  | malformed {p : Problem} {site : Site} : p.kind = .malformed site → (Refusal.problem p).Listed
  | valuePath {p : Problem} {site : Site} : p.kind = .valuePath site → (Refusal.problem p).Listed
  | limit {p : Problem} {l n : Int} : p.kind = .limit l n → (Refusal.problem p).Listed

theorem Refusal.listed_ofFault (mode : Mode) (text : String) (f : Fault) :
    (Refusal.problem (.ofFault mode text f)).Listed := by
  cases h : f.cause.isValuePath with
  | true => exact .valuePath (by unfold Problem.ofFault; rw [h]; rfl)
  | false => exact .malformed (by unfold Problem.ofFault; rw [h]; rfl)

/-! ## The token at fault -/

/-- The reasons for which the tree cannot hold a comparison, by the token. -/
inductive Unheld : Token → Invalid → Prop where
  | longNumber {t : Token} : LongNumber t → Unheld t (.longNumber t.text.length)
  | unknownOperator {t : Token} : t.kind = .comparison →
      (∀ o : Operator, wordOf t ≠ o.word.toList) →
      Unheld t (.unknownOperator (Text.lowercase (String.ofList (wordOf t))))

theorem Descent.Breaks.source {place : Place} {ts : List Token} {e : Invalid}
    (h : Breaks place ts e) : ∃ t ∈ ts, Unheld t e := by
  induction h with
  | longNumber _ _ _ long => exact ⟨_, by simp, .longNumber long⟩
  | unknownOperator _ isOperator unknown _ =>
    exact ⟨_, by simp, .unknownOperator isOperator unknown⟩
  | group _ _ _ _ ih =>
    obtain ⟨t, mem, unheld⟩ := ih
    exact ⟨t, by simp [mem], unheld⟩
  | negation _ _ _ _ _ ih =>
    obtain ⟨t, mem, unheld⟩ := ih
    exact ⟨t, by simp [mem], unheld⟩
  | valuePath _ _ _ _ ih =>
    obtain ⟨t, mem, unheld⟩ := ih
    exact ⟨t, by simp [mem], unheld⟩
  | later _ _ _ ih =>
    obtain ⟨t, mem, unheld⟩ := ih
    exact ⟨t, by simp [mem], unheld⟩

theorem Mode.Breaks.source {mode : Mode} {ts : List Token} {e : Invalid} (h : mode.Breaks ts e) :
    ∃ t ∈ ts, Unheld t e := by
  cases mode with
  | filter => exact Descent.Breaks.source h
  | path =>
    cases h with
    | brackets _ _ _ broken =>
      obtain ⟨t, mem, unheld⟩ := broken.source
      exact ⟨t, by simp [mem], unheld⟩

theorem Unheld.cases_of_tiles {mode : Mode} {p : Int} {cs : List Char} {ts : List Token} {t : Token}
    {e : Invalid} (h : Unheld t e) (tiles : Tiles mode p cs ts) (mem : t ∈ ts) :
    e = .unknownOperator "ſw" ∨ ∃ n, Number.maxNumeralDigits < n ∧ e = .longNumber n := by
  cases h with
  | longNumber long => exact .inr ⟨_, long.2.2, rfl⟩
  | unknownOperator isOperator unknown =>
    obtain ⟨before, after, rfl⟩ := List.append_of_mem mem
    obtain ⟨u, v, -, -, run, -⟩ := tiles.split
    obtain ⟨found, -⟩ := Mode.exists_of_lexeme?_eq_some run
    rw [isOperator] at found
    rcases wordOf_comparison found with long | ⟨o, word⟩
    · rw [long]
      exact .inl (congrArg Invalid.unknownOperator (by decide +kernel))
    · exact absurd word (unknown o)

/-! ## Refusals -/

theorem Mode.parse_of_breaks {mode : Mode} {limits : Limits} {text : String} {c : Cursor}
    {e : Invalid} (started : limits.start mode text = .ok c) (breaks : mode.Breaks c.rest e) :
    mode.parse limits text = .error (.invalid e) := by
  rw [Mode.parse_eq, started]
  show refuse mode text (mode.descend text.length c.rest) = _
  rw [Mode.descend_eq_invalid_iff.mpr breaks]
  rfl

/-- **When every refusal is of one of the three classes**: unless the text keeps the limits and its
tokens follow the grammar up to a comparison that the tree cannot hold.  Then this comparison is the
reason, and it is a whole number of too many digits or an operator with the long s. -/
theorem Mode.refusals_listed_iff (mode : Mode) (limits : Limits) (text : String) :
    ((∀ r, mode.parse limits text = .error r → r.Listed) ↔
      ¬ ∃ c e, limits.start mode text = .ok c ∧ mode.Breaks c.rest e) ∧
    (∀ c e, limits.start mode text = .ok c → mode.Breaks c.rest e →
      mode.parse limits text = .error (.invalid e) ∧
        (e = .unknownOperator "ſw" ∨ ∃ n, Number.maxNumeralDigits < n ∧ e = .longNumber n)) := by
  refine ⟨⟨?_, ?_⟩, ?_⟩
  · rintro listed ⟨c, e, started, breaks⟩
    cases listed _ (Mode.parse_of_breaks started breaks)
  · intro unbroken r refused
    cases Mode.refused_of_parse refused with
    | length _ => exact .limit rfl
    | depth _ _ => exact .limit rfl
    | stray _ => exact Refusal.listed_ofFault mode text _
    | fault _ _ => exact Refusal.listed_ofFault mode text _
    | invalid started breaks => exact absurd ⟨_, _, started, breaks⟩ unbroken
  · intro c e started breaks
    refine ⟨Mode.parse_of_breaks started breaks, ?_⟩
    obtain ⟨ts, scanned, rfl⟩ := Limits.start_eq_ok started
    obtain ⟨t, mem, unheld⟩ := breaks.source
    exact unheld.cases_of_tiles (scan_eq_ok_iff.mp scanned) mem

/-- The tokens of `a ſw "x"`. -/
def longSTokens : List Token :=
  [⟨.name, ['a'], 0⟩, ⟨.comparison, [' ', 'ſ', 'w', ' '], 1⟩, ⟨.string, ['"', 'x', '"'], 5⟩]

theorem breaks_longSTokens : Mode.Breaks .filter longSTokens
    (.unknownOperator (Text.lowercase (String.ofList ['ſ', 'w']))) :=
  .unknownOperator rfl rfl (by intro o; cases o <;> decide) (.string rfl)

/-- an operator with the long s, the only one that is unknown -/
theorem Mode.parse_long_s : Mode.parse .filter .unlimited "a ſw \"x\"" =
    .error (.invalid (.unknownOperator (Text.lowercase (String.ofList ['ſ', 'w'])))) :=
  ((Mode.refusals_listed_iff .filter .unlimited "a ſw \"x\"").2
    ⟨['a', ' ', 'ſ', 'w', ' ', '"', 'x', '"'], 0, 0, longSTokens⟩ _ rfl breaks_longSTokens).1

/-- not every refusal is of one of the three classes -/
theorem Mode.exists_unlisted_refusal :
    ¬ ∀ (mode : Mode) (limits : Limits) (text : String) (r : Refusal),
      mode.parse limits text = .error r → r.Listed := by
  intro listed
  have started : Limits.unlimited.start .filter "a ſw \"x\"" =
      .ok ⟨['a', ' ', 'ſ', 'w', ' ', '"', 'x', '"'], 0, 0, longSTokens⟩ := rfl
  cases listed .filter .unlimited _ _ (Mode.parse_of_breaks started breaks_longSTokens)

end Scim
