import Scim.Proofs.Parse.Limits
import Scim.Proofs.Phrase.Height

/-!
# The limit of depth

* `Mode.Derives.height_le`   the tree of an accepted text is no higher than its nesting allows;
* `Mode.reads_within_depth`  a text that keeps the limit of depth is read with no more groups and
                             brackets open at once, and its tree is no higher than that allows.
-/

namespace Scim

open Grammar Descent Phrase

theorem Mode.Derives.height_le {mode : Mode} {n : Node} {ts : List Token}
    (h : mode.Derives (some n) ts) : n.height ≤ 3 * (nesting ts + 1) := by
  cases mode with
  | filter =>
    obtain ⟨c, valid, rfl, rfl⟩ := h
    exact valid.height_le
  | path =>
    cases h with
    | simple isName => exact Nat.zero_le _
    | valuePath isName _ brackets sub =>
      obtain ⟨opens, valid, closes⟩ := brackets
      have low := valid.height_le
      have deep := nesting_pair (.inr ⟨opens, closes⟩) valid.balanced
      rw [nesting_cons_of_kind isName (by decide), deep, Node.height, Node.height_under]
      omega

theorem Limits.nesting_le_of_start {limits : Limits} {mode : Mode} {text : String} {c : Cursor}
    {d : Nat} (limited : limits.maxDepth = some d) (started : limits.start mode text = .ok c) :
    nesting c.rest ≤ d := by
  obtain ⟨ts, scanned, rfl⟩ := Limits.start_eq_ok started
  rw [Limits.start_eq limits scanned] at started
  split at started
  · cases started
  · split at started
    · cases started
    · next flat => exact Limits.exceeded_eq_none_iff.mp flat d limited

/-- **The limit of depth bounds the recursion.**  A text that keeps a limit of `d` levels is read,
with or without success, as by a reader that gives up at more than `d` open groups and brackets, and
this reader does not give up.  No tree has more than three levels for each one of `d` and the top
one. -/
theorem Mode.reads_within_depth (mode : Mode) (limits : Limits) (text : String) (d : Nat)
    (c : Cursor) (limited : limits.maxDepth = some d)
    (started : limits.start mode text = .ok c) :
    (∀ budget, d ≤ budget →
        (mode.readAt budget c).result ≠ .error .exhausted ∧
          mode.parse limits text = refuse mode text (mode.readAt budget c).result) ∧
      ∀ n, mode.parse limits text = .ok (some n) → n.height ≤ 3 * (d + 1) := by
  have flat := Limits.nesting_le_of_start limited started
  refine ⟨?_, ?_⟩
  · intro budget enough
    have read := readAt_eq started (Nat.le_trans flat enough)
    rw [read]
    refine ⟨?_, ?_⟩
    · intro failed
      cases (mode.meets_descend text.length c.rest).error failed with
      | exhausted few => exact few
    · rw [parse_eq, started]
      rfl
  · intro n h
    obtain ⟨ts, scanned, rfl⟩ := Limits.start_eq_ok started
    have derives := (parse_eq_ok_iff scanned).mp (parse_unlimited_of_ok h)
    have low := derives.height_le
    have within : nesting ts ≤ d := flat
    omega

/-- a negated group, within a depth of one -/
theorem Mode.reads_negation_within_depth :
    ∃ c n, Limits.start ⟨none, some 1⟩ .filter "not (a pr)" = .ok c ∧
      Mode.filter.parse ⟨none, some 1⟩ "not (a pr)" = .ok (some n) ∧
      (Mode.filter.readAt 1 c).result ≠ .error .exhausted ∧ n.height ≤ 6 := by
  have scanned : scan .filter "not (a pr)".toList 0 = .ok [⟨.negation, ['n', 'o', 't', ' '], 0⟩,
      ⟨.openParen, ['('], 4⟩, ⟨.name, ['a'], 5⟩, ⟨.comparison, [' ', 'p', 'r'], 6⟩,
      ⟨.closeParen, [')'], 9⟩] := by rfl
  have started := Limits.start_eq ⟨none, some 1⟩ scanned
  have inner : (Chain.mk (.presence ⟨.name, ['a'], 5⟩ ⟨.comparison, [' ', 'p', 'r'], 6⟩)
      .nil).Valid .filter := .mk (.presence rfl rfl (by decide)) .nil
  have accepted : Mode.filter.parse ⟨none, some 1⟩ "not (a pr)" =
      .ok (some (.negation (.comparison ⟨⟨none, ["a"]⟩, .pr, .null⟩))) := by
    rw [parse_of_start started]
    exact (parse_eq_ok_iff scanned).mpr ⟨_, .mk (.negation rfl rfl inner rfl) .nil, by rfl, rfl⟩
  have bounded := Mode.reads_within_depth .filter ⟨none, some 1⟩ "not (a pr)" 1 _ rfl started
  exact ⟨_, _, started, accepted, (bounded.1 1 (Nat.le_refl 1)).1, bounded.2 _ accepted⟩

end Scim
