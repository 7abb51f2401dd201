import Mathlib.Order.Bounds.Basic
import Scim.Proofs.Parse.Accept

/-!
# Limits only refuse

A text that keeps the limits is parsed as without them, and any other is refused for the length
first, then for the depth.

* `Limits.start_eq`           the cursor before the tokens of a text, by the limits that it breaks;
* `Limits.Within`             limits that are no lower than others;
* `Derived.balanced`          the tokens of an accepted text are balanced;
* `Mode.limits_only_refuse`   what the limits change, and the numbers at which they do.
-/

namespace Scim

open Grammar Descent Phrase

namespace Limits

theorem exceeded_eq_none_iff {limit : Option Nat} {n : Nat} :
    exceeded limit n = none ↔ ∀ l, limit = some l → n ≤ l := by
  cases limit with
  | none => exact ⟨fun _ => nofun, fun _ => rfl⟩
  | some l => simp [exceeded, Option.filter_some]

theorem exceeded_eq_some {limit : Option Nat} {n l : Nat} (h : limit = some l) (above : l < n) :
    exceeded limit n = some l := by
  subst h
  exact if_pos (decide_eq_true above)

/-- limits that are no lower, or none -/
def Within (limits higher : Limits) : Prop :=
  (∀ l', higher.maxLength = some l' → ∃ l, limits.maxLength = some l ∧ l ≤ l') ∧
    ∀ d', higher.maxDepth = some d' → ∃ d, limits.maxDepth = some d ∧ d ≤ d'

/-- the cursor before the tokens of a text: its length is looked at first, then their depth -/
theorem start_eq (limits : Limits) {mode : Mode} {text : String} {ts : List Token}
    (scanned : scan mode text.toList 0 = .ok ts) :
    limits.start mode text = match exceeded limits.maxLength text.length with
      | some l => .error (.tooLong l text.length)
      | none => match exceeded limits.maxDepth (nesting ts) with
        | some d => .error (.tooDeep d (nesting ts))
        | none => .ok ⟨text.toList, 0, 0, ts⟩ := by
  unfold start Cursor.ofText
  cases exceeded limits.maxLength text.length with
  | some l => rfl
  | none => cases deep : exceeded limits.maxDepth (nesting ts) <;> simp only [scanned, deep]

end Limits

/-! ## The tokens of accepted texts -/

theorem Descent.Derived.balanced {place : Place} {node : Option Node} {ts : List Token}
    (h : Derived place node ts) : Balanced ts := by
  cases node with
  | none => exact Vacant.balanced h
  | some n =>
    obtain ⟨c, valid, -, rfl⟩ := h
    exact valid.balanced

theorem Descent.SubAttribute.balanced {sub : Option String} {ts : List Token}
    (h : SubAttribute sub ts) : Balanced ts := by
  cases h with
  | none => exact .nil
  | some isSub => exact .of_kind isSub (by decide) .nil

theorem Descent.DerivedTarget.balanced {n : Node} {ts : List Token} (h : DerivedTarget n ts) :
    Balanced ts := by
  cases h with
  | simple isName => exact .of_kind isName (by decide) .nil
  | valuePath isName _ brackets sub =>
    obtain ⟨opens, valid, closes⟩ := brackets
    exact .of_kind isName (by decide) (.pair (.inr ⟨opens, closes⟩) valid.balanced sub.balanced)

theorem Mode.Derives.balanced {mode : Mode} {node : Option Node} {ts : List Token}
    (h : mode.Derives node ts) : Balanced ts := by
  cases mode with
  | filter => exact Derived.balanced h
  | path =>
    cases node with
    | none =>
      obtain rfl : ts = [] := h
      exact .nil
    | some n => exact DerivedTarget.balanced h

namespace Mode

variable {mode : Mode} {limits : Limits} {text : String} {ts : List Token}

/-! ## Texts that keep the limits, and those that do not -/

theorem parse_of_start_error {e : Failed} (h : limits.start mode text = .error e) :
    mode.parse limits text = .error (e.refusal mode text) := by
  rw [parse_eq, h]
  rfl

theorem parse_of_tooLong {l : Nat} (long : Limits.exceeded limits.maxLength text.length = some l) :
    mode.parse limits text = .error (.problem (.tooLong l text.length)) := by
  refine parse_of_start_error (e := .tooLong l text.length) ?_
  unfold Limits.start
  rw [long]

theorem parse_of_tooDeep {d : Nat} (short : Limits.exceeded limits.maxLength text.length = none)
    (scanned : scan mode text.toList 0 = .ok ts)
    (deep : Limits.exceeded limits.maxDepth (nesting ts) = some d) :
    mode.parse limits text = .error (.problem (.tooDeep d (nesting ts))) := by
  refine parse_of_start_error (e := .tooDeep d (nesting ts)) ?_
  rw [Limits.start_eq limits scanned, short, deep]

theorem parse_of_start {c : Cursor} (h : limits.start mode text = .ok c) :
    mode.parse limits text = mode.parse .unlimited text := by
  obtain ⟨ts, scanned, rfl⟩ := Limits.start_eq_ok h
  rw [parse_eq, h, parse_unlimited scanned]
  rfl

theorem parse_of_keeps (short : Limits.exceeded limits.maxLength text.length = none)
    (scanned : scan mode text.toList 0 = .ok ts)
    (flat : Limits.exceeded limits.maxDepth (nesting ts) = none) :
    mode.parse limits text = mode.parse .unlimited text := by
  refine parse_of_start (c := ⟨text.toList, 0, 0, ts⟩) ?_
  rw [Limits.start_eq limits scanned, short, flat]

theorem parse_unlimited_of_ok {node : Option Node} (h : mode.parse limits text = .ok node) :
    mode.parse .unlimited text = .ok node := by
  cases started : limits.start mode text with
  | error e =>
    rw [parse_of_start_error started] at h
    cases h
  | ok c => rwa [← parse_of_start started]

theorem parse_limited_or_same (mode : Mode) (limits : Limits) (text : String) :
    (∃ p l n, mode.parse limits text = .error (.problem p) ∧ p.kind = .limit l n) ∨
      mode.parse limits text = mode.parse .unlimited text := by
  cases long : Limits.exceeded limits.maxLength text.length with
  | some l => exact .inl ⟨_, l, text.length, parse_of_tooLong long, rfl⟩
  | none =>
    cases scanned : scan mode text.toList 0 with
    | error stray =>
      have refused {limits : Limits}
          (short : Limits.exceeded limits.maxLength text.length = none) :
          mode.parse limits text = .error ((Failed.fault stray.fault).refusal mode text) := by
        refine parse_of_start_error ?_
        unfold Limits.start Cursor.ofText
        rw [short, scanned]
      exact .inr ((refused long).trans (refused rfl).symm)
    | ok ts =>
      cases deep : Limits.exceeded limits.maxDepth (nesting ts) with
      | some d => exact .inl ⟨_, d, nesting ts, parse_of_tooDeep long scanned deep, rfl⟩
      | none => exact .inr (parse_of_keeps long scanned deep)

/-- **Limits only refuse**, and do so exactly at the length of the text and at the depth of its
tokens, the largest number of pairs of parentheses and brackets around a point of them.  The length
is looked at first.  Raising a limit, or removing it, refuses no accepted text. -/
theorem limits_only_refuse (mode : Mode) (limits : Limits) (text : String) :
    ((∃ p l n, mode.parse limits text = .error (.problem p) ∧ p.kind = .limit l n) ∨
        mode.parse limits text = mode.parse .unlimited text) ∧
      (∀ node, mode.parse .unlimited text = .ok node →
        ∃ ts depth, scan mode text.toList 0 = .ok ts ∧
          IsGreatest {n | ∃ us vs, ts = us ++ vs ∧ Encloses n us vs} depth ∧
          (mode.parse limits text = .ok node ↔
            (∀ l, limits.maxLength = some l → text.length ≤ l) ∧
              ∀ d, limits.maxDepth = some d → depth ≤ d) ∧
          (∀ l, limits.maxLength = some l → l < text.length →
            mode.parse limits text = .error (.problem (.tooLong l text.length))) ∧
          ∀ d, (∀ l, limits.maxLength = some l → text.length ≤ l) →
            limits.maxDepth = some d → d < depth →
            mode.parse limits text = .error (.problem (.tooDeep d depth))) ∧
      ∀ higher node, limits.Within higher → mode.parse limits text = .ok node →
        mode.parse higher text = .ok node := by
  have accepted {limits : Limits} {node : Option Node} {ts : List Token}
      (h : mode.parse .unlimited text = .ok node) (scanned : scan mode text.toList 0 = .ok ts) :
      mode.parse limits text = .ok node ↔
        (∀ l, limits.maxLength = some l → text.length ≤ l) ∧
          ∀ d, limits.maxDepth = some d → nesting ts ≤ d := by
    rw [← Limits.exceeded_eq_none_iff, ← Limits.exceeded_eq_none_iff]
    cases long : Limits.exceeded limits.maxLength text.length with
    | some l => simp [parse_of_tooLong long]
    | none =>
      cases deep : Limits.exceeded limits.maxDepth (nesting ts) with
      | some d => simp [parse_of_tooDeep long scanned deep]
      | none => simp [parse_of_keeps long scanned deep, h]
  refine ⟨parse_limited_or_same mode limits text, ?_, ?_⟩
  · intro node h
    obtain ⟨ts, tiles, derives⟩ := parse_eq_ok_iff_exists.mp h
    have scanned := tiles.scan_eq
    refine ⟨ts, nesting ts, scanned, derives.balanced.isGreatest_nesting, accepted h scanned, ?_, ?_⟩
    · intro l limited long
      exact parse_of_tooLong (Limits.exceeded_eq_some limited long)
    · intro d short limited deep
      exact parse_of_tooDeep (Limits.exceeded_eq_none_iff.mpr short) scanned
        (Limits.exceeded_eq_some limited deep)
  · intro higher node ⟨longer, deeper⟩ h
    have unlimited := parse_unlimited_of_ok h
    obtain ⟨ts, tiles, -⟩ := parse_eq_ok_iff_exists.mp unlimited
    have scanned := tiles.scan_eq
    obtain ⟨short, flat⟩ := (accepted unlimited scanned).mp h
    refine (accepted unlimited scanned).mpr ⟨?_, ?_⟩
    · intro l' limited
      obtain ⟨l, low, le⟩ := longer l' limited
      exact Nat.le_trans (short l low) le
    · intro d' limited
      obtain ⟨d, low, le⟩ := deeper d' limited
      exact Nat.le_trans (flat d low) le

/-- an empty group in a group, within a depth of two and of one -/
theorem limits_on_empty_groups :
    Mode.filter.parse ⟨some 4, some 2⟩ "(())" = .ok none ∧
      Mode.filter.parse ⟨none, some 1⟩ "(())" = .error (.problem (.tooDeep 1 2)) ∧
      Mode.filter.parse ⟨some 4, none⟩ "(())" = .ok none := by
  let groups : List Token := [⟨.openParen, ['('], 0⟩, ⟨.openParen, ['('], 1⟩,
    ⟨.closeParen, [')'], 2⟩, ⟨.closeParen, [')'], 3⟩]
  have scanned : scan .filter "(())".toList 0 = .ok groups := by rfl
  have accepted : Mode.filter.parse .unlimited "(())" = .ok none := by rfl
  have derives := (parse_eq_ok_iff scanned).mp accepted
  have depth := derives.balanced.isGreatest_nesting
  have within : Mode.filter.parse ⟨some 4, some 2⟩ "(())" = .ok none := by
    obtain ⟨ts, d, same, greatest, ok, -⟩ :=
      (limits_only_refuse .filter ⟨some 4, some 2⟩ "(())").2.1 none accepted
    obtain rfl := Except.ok.inj (scanned.symm.trans same)
    obtain rfl := greatest.unique depth
    exact ok.mpr ⟨by decide, by decide⟩
  refine ⟨within, ?_, ?_⟩
  · obtain ⟨ts, d, same, greatest, -, -, deep⟩ :=
      (limits_only_refuse .filter ⟨none, some 1⟩ "(())").2.1 none accepted
    obtain rfl := Except.ok.inj (scanned.symm.trans same)
    obtain rfl := greatest.unique depth
    exact deep 1 nofun rfl (by decide)
  · exact (limits_only_refuse .filter ⟨some 4, some 2⟩ "(())").2.2 ⟨some 4, none⟩ none
      ⟨fun _ same => ⟨4, rfl, Nat.le_of_eq (Option.some.inj same)⟩, nofun⟩ within

end Mode

end Scim
