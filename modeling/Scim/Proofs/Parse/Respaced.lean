import Scim.Proofs.Parse.Accept
import Scim.Proofs.Phrase.Parallel
import Scim.Proofs.Scan.Rescan

/-!
# Parsing texts with other blanks

* `Refusal.sameClass`       refusals of the same class, or for the same invalid part;
* `Mode.parse_respaced`     two texts with other blanks have the same tokens up to blanks, and the
                            same result, or refusals of the same class.
-/

namespace Scim

open Text Grammar Descent Phrase

/-- Whether two problems are of the same class, wherever they are. -/
def Problem.Kind.sameClass : Problem.Kind → Problem.Kind → Bool
  | general, general => true
  | malformed _, malformed _ => true
  | valuePath _, valuePath _ => true
  | limit _ _, limit _ _ => true
  | internal, internal => true
  | configuration, configuration => true
  | _, _ => false

/-- Whether two refusals are problems of the same class, or are for the same invalid part. -/
def Refusal.sameClass : Refusal → Refusal → Bool
  | problem p, problem q => p.kind.sameClass q.kind
  | invalid e, invalid f => e == f
  | _, _ => false

theorem Refusal.sameClass_ofFault {mode : Mode} {text text' : String} {f g : Fault}
    (same : g.cause = f.cause) : (Refusal.problem (.ofFault mode text f)).sameClass
      (.problem (.ofFault mode text' g)) = true := by
  unfold Refusal.sameClass Problem.ofFault
  rw [same]
  cases f.cause.isValuePath <;> rfl

theorem Failed.Like.sameClass {mode : Mode} {text text' : String} {e e' : Failed} (h : e.Like e') :
    (e.refusal mode text).sameClass (e'.refusal mode text') = true := by
  cases h with
  | fault same => exact Refusal.sameClass_ofFault same
  | same e =>
    cases e with
    | fault f => exact Refusal.sameClass_ofFault rfl
    | invalid e => exact beq_self_eq_true e
    | _ => rfl

/-- **Two texts with other blanks** have the same tokens up to blanks and places, or stop at the
same stray character; and without limits they have the same result, or are refused for problems of
the same class or for the same invalid part. -/
theorem Mode.parse_respaced (mode : Mode) {text text' : String}
    (h : Respaced text.toList text'.toList) :
    (∀ p, Rescanned (scan mode text.toList p) (scan mode text'.toList p)) ∧
      ((∃ node, mode.parse .unlimited text = .ok node ∧ mode.parse .unlimited text' = .ok node) ∨
        ∃ r r', mode.parse .unlimited text = .error r ∧ mode.parse .unlimited text' = .error r' ∧
          r.sameClass r' = true) := by
  refine ⟨fun p => scan_respaced mode h p p, ?_⟩
  have scans := scan_respaced mode h 0 0
  generalize scanned : scan mode text.toList 0 = x at scans
  generalize scanned' : scan mode text'.toList 0 = y at scans
  cases scans with
  | tokens same =>
    rw [Mode.parse_unlimited scanned, Mode.parse_unlimited scanned']
    have alike := same.imp fun _ _ token => token.alike
    have read := mode.parallel_descend alike text.length text'.length
    generalize mode.descend text.length _ = x at read
    generalize mode.descend text'.length _ = y at read
    cases read with
    | @ok node _ same =>
      subst same
      exact .inl ⟨node, rfl, rfl⟩
    | error like => exact .inr ⟨_, _, rfl, rfl, like.sameClass⟩
  | stray same =>
    rw [Mode.parse_eq, Mode.parse_eq, Limits.start_unlimited, Limits.start_unlimited, scanned,
      scanned']
    exact .inr ⟨_, _, rfl, rfl, Refusal.sameClass_ofFault rfl⟩

/-- one blank more before an operator and other ones behind it, and a string that stays -/
theorem Mode.parse_respaced_string :
    let c : Comparison := ⟨⟨none, ["a"]⟩, .eq, .string "x  y"⟩
    Mode.filter.parse .unlimited "a eq \"x  y\"" = .ok (some (.comparison c)) ∧
      Respaced "a eq \"x  y\"".toList "a  eq\t\n\"x  y\"".toList ∧
      Mode.filter.parse .unlimited "a  eq\t\n\"x  y\"" = .ok (some (.comparison c)) := by
  intro c
  have head {c : Char} {cs : List Char} (hc : isBlank c = false) :
      ∀ d ∈ (c :: cs).head?, isBlank d = false := by
    intro d first
    obtain rfl := Option.some.inj first
    exact hc
  have longer : BlankRuns [' '] [' ', ' '] :=
    ⟨List.all_eq_true.mp rfl, List.all_eq_true.mp rfl, by simp⟩
  have other : BlankRuns [' '] ['\t', '\n'] :=
    ⟨List.all_eq_true.mp rfl, List.all_eq_true.mp rfl, by simp⟩
  have quoted : Respaced ['"', 'x', ' ', ' ', 'y', '"'] ['"', 'x', ' ', ' ', 'y', '"'] :=
    @Respaced.string ['x', ' ', ' ', 'y'] [] [] (by decide) .nil
  have behind := Respaced.blankRuns_append other (head (by decide)) quoted
  have word : Respaced ('e' :: 'q' :: _) ('e' :: 'q' :: _) := .solid rfl (.solid rfl behind)
  have before := Respaced.blankRuns_append longer (head (by decide)) word
  have respaced : Respaced "a eq \"x  y\"".toList "a  eq\t\n\"x  y\"".toList :=
    @Respaced.solid 'a' _ _ rfl before
  have scanned : scan .filter "a eq \"x  y\"".toList 0 = .ok [⟨.name, ['a'], 0⟩,
      ⟨.comparison, [' ', 'e', 'q', ' '], 1⟩, ⟨.string, ['"', 'x', ' ', ' ', 'y', '"'], 5⟩] := rfl
  have accepted : Mode.filter.parse .unlimited "a eq \"x  y\"" = .ok (some (.comparison c)) :=
    (Mode.parse_eq_ok_iff scanned).mpr
      ⟨.mk (.comparison ⟨.name, ['a'], 0⟩ ⟨.comparison, [' ', 'e', 'q', ' '], 1⟩
          ⟨.string, ['"', 'x', ' ', ' ', 'y', '"'], 5⟩ .eq (.string "x  y")) .nil,
        .mk (.comparison rfl rfl (by decide) rfl (.string rfl)) .nil, by rfl, rfl⟩
  refine ⟨accepted, respaced, ?_⟩
  rcases (Mode.parse_respaced .filter respaced).2 with ⟨node, first, second⟩ | ⟨r, _, refused, _⟩
  · rw [accepted] at first
    obtain rfl := Except.ok.inj first
    exact second
  · rw [accepted] at refused
    cases refused

end Scim
