import Scim.Proofs.Parse.Limits
import Scim.Proofs.Parse.Unlisted

/-!
# Types of problems

Each language has a type under which the protocol reports its problems.  All problems of a text
that keeps the limits have the type of the language.  A text that breaks a limit is reported as a
filter, also if it is a path.

* `Mode.scimType`               the type of a language;
* `Limits.Exceeded`             a text is too long, or its tokens nest too deep;
* `Limits.Exceeded.refused`     such a text is refused for a limit;
* `Mode.reported_by_language`   when every problem of a text has the type of the language.
-/

namespace Scim

open Grammar Descent

/-- The type under which the protocol reports the problems of a language. -/
def Mode.scimType : Mode → String
  | filter => "invalidFilter"
  | path => "invalidPath"

/-- A text is longer than the limit, or its tokens nest deeper. -/
def Limits.Exceeded (limits : Limits) (mode : Mode) (text : String) : Prop :=
  (∃ l, limits.maxLength = some l ∧ l < text.length) ∨
    ∃ ts d, scan mode text.toList 0 = .ok ts ∧ limits.maxDepth = some d ∧ d < nesting ts

/-- A problem with a limit, reported as one of a filter. -/
def Problem.OfLimit (p : Problem) : Prop :=
  (∃ l n, p.kind = .limit l n) ∧ p.scimType = some "invalidFilter"

/-- A problem at a place in the text, reported as one of its language. -/
def Problem.OfSite (mode : Mode) (p : Problem) : Prop :=
  (∃ site, p.kind = .malformed site ∨ p.kind = .valuePath site) ∧ p.scimType = some mode.scimType

theorem Problem.ofSite_ofFault (mode : Mode) (text : String) (f : Fault) :
    (Problem.ofFault mode text f).OfSite mode := by
  refine ⟨⟨⟨f.token.map String.ofList, some f.position, some text⟩, ?_⟩, ?_⟩
  · unfold Problem.ofFault
    cases f.cause.isValuePath
    · exact .inl rfl
    · exact .inr rfl
  · cases mode <;> rfl

theorem Problem.OfLimit.not_ofSite {mode : Mode} {p : Problem} (h : p.OfLimit) :
    ¬ p.OfSite mode := by
  obtain ⟨⟨l, n, limit⟩, -⟩ := h
  rintro ⟨⟨site, malformed | valuePath⟩, -⟩
  · cases limit.symm.trans malformed
  · cases limit.symm.trans valuePath

theorem Limits.exists_of_exceeded {limit : Option Nat} {n l : Nat}
    (h : exceeded limit n = some l) : limit = some l ∧ l < n := by
  obtain ⟨same, above⟩ := Option.filter_eq_some_iff.mp h
  exact ⟨same, of_decide_eq_true above⟩

variable {mode : Mode} {limits : Limits} {text : String}

theorem Limits.Exceeded.refused (h : limits.Exceeded mode text) :
    ∃ p, mode.parse limits text = .error (.problem p) ∧ p.OfLimit := by
  cases long : exceeded limits.maxLength text.length with
  | some l => exact ⟨_, Mode.parse_of_tooLong long, ⟨l, text.length, rfl⟩, rfl⟩
  | none =>
    obtain ⟨l, limited, above⟩ | ⟨ts, d, scanned, limited, deeper⟩ := h
    · rw [exceeded_eq_some limited above] at long
      cases long
    · have deep := exceeded_eq_some limited deeper
      exact ⟨_, Mode.parse_of_tooDeep long scanned deep, ⟨d, nesting ts, rfl⟩, rfl⟩

theorem Limits.ofSite_of_refused {p : Problem} (h : ¬ limits.Exceeded mode text)
    (refused : mode.parse limits text = .error (.problem p)) : p.OfSite mode := by
  cases Mode.refused_of_parse refused with
  | length long => exact absurd (.inl ⟨_, exists_of_exceeded long⟩) h
  | depth scanned deep => exact absurd (.inr ⟨_, _, scanned, exists_of_exceeded deep⟩) h
  | stray _ => exact Problem.ofSite_ofFault mode text _
  | fault _ _ => exact Problem.ofSite_ofFault mode text _

/-- **When every problem has the type of the language**: unless a path breaks a limit.  The problem
of a text that breaks one has the type of filters, whatever the language is, and every other problem
has the type of the language. -/
theorem Mode.reported_by_language (mode : Mode) (limits : Limits) (text : String) :
    ((∀ p, mode.parse limits text = .error (.problem p) → (Refusal.problem p).Listed →
        p.scimType = some mode.scimType) ↔ ¬ (mode = .path ∧ limits.Exceeded .path text)) ∧
      (∀ p, mode.parse limits text = .error (.problem p) →
        (Refusal.problem p).Listed ∧
          (p.OfLimit ↔ limits.Exceeded mode text) ∧
          (p.OfSite mode ↔ ¬ limits.Exceeded mode text)) ∧
      (limits.Exceeded mode text → ∃ p, mode.parse limits text = .error (.problem p)) := by
  have kept {p : Problem} (refused : mode.parse limits text = .error (.problem p)) :
      limits.Exceeded mode text ∧ p.OfLimit ∨ ¬ limits.Exceeded mode text ∧ p.OfSite mode := by
    by_cases exceeded : limits.Exceeded mode text
    · obtain ⟨p', refused', ofLimit⟩ := exceeded.refused
      obtain rfl := Refusal.problem.inj (Except.error.inj (refused.symm.trans refused'))
      exact .inl ⟨exceeded, ofLimit⟩
    · exact .inr ⟨exceeded, Limits.ofSite_of_refused exceeded refused⟩
  refine ⟨⟨?_, ?_⟩, ?_, ?_⟩
  · rintro typed ⟨rfl, exceeded⟩
    obtain ⟨p, refused, ⟨l, n, limit⟩, ofFilter⟩ := exceeded.refused
    have ofPath := typed p refused (.limit limit)
    rw [ofFilter] at ofPath
    exact absurd (Option.some.inj ofPath) (by decide)
  · intro keeps p refused _
    obtain ⟨exceeded, -, ofFilter⟩ | ⟨-, -, typed⟩ := kept refused
    · cases mode with
      | filter => exact ofFilter
      | path => exact absurd ⟨rfl, exceeded⟩ keeps
    · exact typed
  · intro p refused
    obtain ⟨exceeded, ofLimit⟩ | ⟨keeps, ofSite⟩ := kept refused
    · obtain ⟨l, n, limit⟩ := ofLimit.1
      exact ⟨.limit limit, iff_of_true ofLimit exceeded,
        iff_of_false ofLimit.not_ofSite (not_not_intro exceeded)⟩
    · have listed : (Refusal.problem p).Listed := by
        obtain ⟨site, malformed | valuePath⟩ := ofSite.1
        · exact .malformed malformed
        · exact .valuePath valuePath
      exact ⟨listed, iff_of_false (fun ofLimit => ofLimit.not_ofSite ofSite) keeps,
        iff_of_true ofSite keeps⟩
  · intro exceeded
    obtain ⟨p, refused, -⟩ := exceeded.refused
    exact ⟨p, refused⟩

/-- a path that is too long, and one that is malformed -/
theorem Mode.reports_of_paths :
    (∃ p, Mode.path.parse ⟨some 5, none⟩ "userName" = .error (.problem p) ∧ p.OfLimit ∧
      (Refusal.problem p).Listed) ∧
    ∃ p, Mode.path.parse .unlimited "title pr" = .error (.problem p) ∧
      p.scimType = some "invalidPath" := by
  have long : Limits.Exceeded ⟨some 5, none⟩ .path "userName" := .inl ⟨5, rfl, by decide⟩
  have keeps : ¬ Limits.unlimited.Exceeded .path "title pr" := by
    rintro (⟨l, none, -⟩ | ⟨ts, d, -, none, -⟩) <;> cases none
  have scanned : scan .path "title pr".toList 0 =
      .ok [⟨.name, "title".toList, 0⟩, ⟨.comparison, [' ', 'p', 'r'], 5⟩] := by rfl
  have malformed : Mode.path.parse .unlimited "title pr" = .error (.problem
      (.ofFault .path "title pr" ⟨.trailingToken, some [' ', 'p', 'r'], 5⟩)) := by
    rw [Mode.parse_unlimited scanned]
    rfl
  obtain ⟨-, longly, refused⟩ := reported_by_language .path ⟨some 5, none⟩ "userName"
  obtain ⟨p, tooLong⟩ := refused long
  obtain ⟨listed, ofLimit, -⟩ := longly p tooLong
  obtain ⟨typed, briefly, -⟩ := reported_by_language .path .unlimited "title pr"
  exact ⟨⟨p, tooLong, ofLimit.mpr long, listed⟩, _, malformed,
    typed.mpr (fun exceeds => keeps exceeds.2) _ malformed (briefly _ malformed).1⟩

/-- a path that is too long does not have the type of paths -/
theorem Mode.exists_path_reported_as_filter :
    ¬ ∀ (mode : Mode) (limits : Limits) (text : String) (p : Problem),
      mode.parse limits text = .error (.problem p) → (Refusal.problem p).Listed →
        p.scimType = some mode.scimType := by
  intro typed
  have refused : Mode.path.parse ⟨some 5, none⟩ "userName" = .error (.problem (.tooLong 5 8)) := by
    rfl
  have ofPath := typed .path ⟨some 5, none⟩ "userName" _ refused (.limit rfl)
  exact absurd (Option.some.inj ofPath) (by decide)

end Scim
