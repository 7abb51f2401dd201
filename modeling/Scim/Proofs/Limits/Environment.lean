import Scim.Limits.Environment
import Scim.Proofs.Number.Whole

/-!
# What an environment asks for

The two variables are read apart from each other; only the report of a problem looks at both.

* `Limits.trimmed`               the text of a variable without the blanks around it;
* `Limits.Asks`                  the limit that such a text asks for;
* `Limits.Refuses`               the problem with two texts, where one of them asks for none;
* `Limits.asked`                 what is read from one variable;
* `Limits.asked_of_readable`     a readable text asks for a limit or is too small;
* `Limits.Checks`                what is known of the check of the two limits;
* `Limits.ofEnvironment_eq`      the limits of an environment from what is read from the variables;
* `Limits.ofEnvironment_exact`   the limits and the problems of all environments.
-/

namespace Scim

open Number Text

namespace Limits

/-- The text of a variable without the blanks around it; nothing if the variable is not set. -/
def trimmed (environment : String → Option String) (name : String) : List Char :=
  stripBlanks ((environment name).getD "").toList

/-- **The limit that a text asks for**: the default if it is empty, none if it is the word `none` in
any case, and else the positive whole number that it writes. -/
inductive Asks (default : Option Nat) (text : List Char) : Option Nat → Prop
  | unset : text = [] → Asks default text default
  | unlimited : text.map lowerAscii = ['n', 'o', 'n', 'e'] → Asks default text none
  | limit {n : Nat} : Whole text n → 1 ≤ n → Asks default text (some n)

/-- A text that is empty, the word `none` or a whole number of any size. -/
def Readable (text : List Char) : Prop :=
  text = [] ∨ text.map lowerAscii = ['n', 'o', 'n', 'e'] ∨ ∃ n, Whole text n

/-- A text that writes a number below one. -/
def TooSmall (text : List Char) : Prop := ∃ n < 1, Whole text n

/-- **The problem with the texts of the two variables**: first with one that is not readable, then
with one that is too small, and each time with the length before the depth. -/
inductive Refuses (length depth : List Char) : Problem → Prop
  | length : ¬ Readable length →
      Refuses length depth (variableProblem lengthVariable (String.ofList length))
  | depth : Readable length → ¬ Readable depth →
      Refuses length depth (variableProblem depthVariable (String.ofList depth))
  | smallLength : Readable length → Readable depth → TooSmall length →
      Refuses length depth (fieldProblem ⟨["max_length"], .notPositive⟩)
  | smallDepth : Readable length → Readable depth → ¬ TooSmall length → TooSmall depth →
      Refuses length depth (fieldProblem ⟨["max_depth"], .notPositive⟩)

end Limits

/-! ## One variable -/

def Setting.bound (default : Option Nat) : Setting → Except FieldError.Cause (Option Nat)
  | keepDefault => .ok default
  | unlimited => .ok none
  | limit n => if 1 ≤ n then .ok (some n.toNat) else .error .notPositive

namespace Limits

/-- What is read from a variable: its text if that is not readable, and else the limit or what is
wrong with it. -/
def asked (default : Option Nat) (environment : String → Option String) (name : String) :
    Except String (Except FieldError.Cause (Option Nat)) :=
  (Setting.ofText (environment name)).map (Setting.bound default)

theorem not_whole_nil (n : Int) : ¬ Whole [] n := by
  intro whole
  obtain ⟨c, rest, same, -⟩ := whole.exists_cons
  cases same

theorem not_whole_none {text : List Char} (h : text.map lowerAscii = ['n', 'o', 'n', 'e'])
    (n : Int) : ¬ Whole text n := by
  intro whole
  obtain ⟨c, rest, rfl, first⟩ := whole.exists_cons
  have lower : lowerAscii c = 'n' := (List.cons.inj h).1
  rcases first with rfl | rfl | digit
  · exact absurd lower (by decide)
  · exact absurd lower (by decide)
  · rw [lowerAscii_of_isDigit digit] at lower
    rw [lower] at digit
    exact absurd digit (by decide)

section
variable {environment : String → Option String} {name : String} {default : Option Nat}

theorem ofText_eq :
    Setting.ofText (environment name) =
      if trimmed environment name = [] then .ok .keepDefault
      else if (trimmed environment name).map lowerAscii = ['n', 'o', 'n', 'e'] then .ok .unlimited
      else match readInt? (String.ofList (trimmed environment name)) with
        | some n => .ok (.limit n)
        | none => .error (String.ofList (trimmed environment name)) := by
  have empty (cs : List Char) : (String.ofList cs).isEmpty = true ↔ cs = [] := by
    rw [String.isEmpty_iff, ← String.toList_eq_nil_iff, String.toList_ofList]
  have same : strip ((environment name).getD "") = String.ofList (trimmed environment name) := rfl
  simp only [Setting.ofText, same, String.toList_ofList]
  by_cases unset : trimmed environment name = []
  · rw [if_pos ((empty _).mpr unset), if_pos unset]
  · refine (if_neg (mt (empty _).mp unset)).trans (Eq.trans ?_ (if_neg unset).symm)
    cases readInt? (String.ofList (trimmed environment name)) <;> rfl

theorem readInt?_trimmed {n : Int} :
    readInt? (String.ofList (trimmed environment name)) = some n ↔
      Whole (trimmed environment name) n := by
  rw [readInt?_eq_some_iff, String.toList_ofList, trimmed, stripSpaces_stripBlanks]

theorem asked_of_unset (unset : trimmed environment name = []) :
    asked default environment name = .ok (.ok default) := by
  rw [asked, ofText_eq, if_pos unset]
  rfl

theorem asked_of_unlimited
    (word : (trimmed environment name).map lowerAscii = ['n', 'o', 'n', 'e']) :
    asked default environment name = .ok (.ok none) := by
  have filled : trimmed environment name ≠ [] := by
    intro unset
    rw [unset] at word
    cases word
  rw [asked, ofText_eq, if_neg filled, if_pos word]
  rfl

theorem asked_of_whole {n : Int} (whole : Whole (trimmed environment name) n) :
    asked default environment name = .ok ((Setting.limit n).bound default) := by
  have filled : trimmed environment name ≠ [] := by
    intro unset
    rw [unset] at whole
    exact not_whole_nil n whole
  rw [asked, ofText_eq, if_neg filled, if_neg fun word => not_whole_none word n whole,
    readInt?_trimmed.mpr whole]
  rfl

theorem asked_of_tooSmall (small : TooSmall (trimmed environment name)) :
    asked default environment name = .ok (.error .notPositive) := by
  obtain ⟨n, below, whole⟩ := small
  rw [asked_of_whole whole, Setting.bound, if_neg (by omega)]

theorem asked_of_not_readable (unreadable : ¬ Readable (trimmed environment name)) :
    asked default environment name = .error (String.ofList (trimmed environment name)) := by
  obtain ⟨filled, word, number⟩ := not_or.mp unreadable |>.imp_right not_or.mp
  rw [asked, ofText_eq, if_neg filled, if_neg word]
  cases read : readInt? (String.ofList (trimmed environment name)) with
  | some n => exact absurd ⟨n, readInt?_trimmed.mp read⟩ number
  | none => rfl

theorem asked_of_readable (default : Option Nat) (readable : Readable (trimmed environment name)) :
    (∃ limit, Asks default (trimmed environment name) limit ∧
      asked default environment name = .ok (.ok limit)) ∨
    (TooSmall (trimmed environment name) ∧
      asked default environment name = .ok (.error .notPositive)) := by
  rcases readable with unset | word | ⟨n, whole⟩
  · exact .inl ⟨default, .unset unset, asked_of_unset unset⟩
  · exact .inl ⟨none, .unlimited word, asked_of_unlimited word⟩
  · by_cases positive : 1 ≤ n
    · have same : (n.toNat : Int) = n := Int.toNat_of_nonneg (by omega)
      refine .inl ⟨some n.toNat, .limit ?_ (by omega), ?_⟩
      · rwa [same]
      · rw [asked_of_whole whole, Setting.bound, if_pos positive]
    · have small : TooSmall (trimmed environment name) := ⟨n, Int.not_le.mp positive, whole⟩
      exact .inr ⟨small, asked_of_tooSmall small⟩

theorem exists_asked (default : Option Nat) (readable : Readable (trimmed environment name)) :
    ∃ result, asked default environment name = .ok result := by
  obtain ⟨limit, -, read⟩ | ⟨-, read⟩ := asked_of_readable default readable
  · exact ⟨.ok limit, read⟩
  · exact ⟨.error .notPositive, read⟩

theorem asked_ok_iff {limit : Option Nat} :
    asked default environment name = .ok (.ok limit) ↔
      Asks default (trimmed environment name) limit := by
  constructor
  · intro read
    by_cases readable : Readable (trimmed environment name)
    · obtain ⟨limit', asks, read'⟩ | ⟨-, small⟩ := asked_of_readable default readable
      · rw [read] at read'
        cases read'
        exact asks
      · rw [read] at small
        cases small
    · rw [asked_of_not_readable readable] at read
      cases read
  · rintro (unset | word | ⟨whole, positive⟩)
    · exact asked_of_unset unset
    · exact asked_of_unlimited word
    · rw [asked_of_whole whole, Setting.bound, if_pos (by omega), Int.toNat_natCast]

theorem asks_iff_of_toString {limit : Option Nat} {n : Nat}
    (digits : trimmed environment name = (toString n).toList) (positive : 1 ≤ n)
    (short : (toString n).length ≤ 4300) :
    Asks default (trimmed environment name) limit ↔ limit = some n := by
  have whole : Whole (trimmed environment name) n := by
    rw [digits]
    exact .of_toString short
  rw [← asked_ok_iff, asked_of_whole whole, Setting.bound, if_pos (by omega), Int.toNat_natCast]
  constructor
  · rintro ⟨⟩
    rfl
  · rintro rfl
    rfl

theorem trimmed_toString {before after : String} {n : Nat}
    (blank : ∀ c ∈ before.toList ++ after.toList, isBlank c = true)
    (given : environment name = some (before ++ toString n ++ after)) :
    trimmed environment name = (toString n).toList := by
  have digits : ∀ c ∈ (toString n).toList, isBlank c = false := by
    intro c hc
    have same : (toString n).toList = Nat.toDigits 10 n := Nat.toList_repr
    rw [same] at hc
    have range : 0x30 ≤ c.toNat ∧ c.toNat ≤ 0x39 :=
      Char.isDigit_iff_toNat.mp (isDigit_of_mem_toDigits hc)
    refine decide_eq_false ?_
    omega
  obtain ⟨front, back⟩ := List.forall_mem_append.mp blank
  rw [trimmed, given, Option.getD_some, String.toList_append, String.toList_append,
    List.append_assoc]
  exact stripBlanks_append front digits back

end

/-! ## Both variables -/

/-- **What is known of a check of named fields**: it takes the two limits if there is nothing wrong
with either of them, and reports what is wrong in the order of the fields. -/
def Checks (check : List (String × Json) → Except (List FieldError) Limits) : Prop :=
  ∀ length depth : Setting, check (length.field "max_length" ++ depth.field "max_depth") =
    match length.bound (some 8192), depth.bound (some 64) with
    | .ok l, .ok d => .ok ⟨l, d⟩
    | l, d => .error (errors "max_length" l ++ errors "max_depth" d)

theorem checks_ofFields : Checks ofFields := by
  intro length depth
  have hl : field (some 8192) (Json.lookup "max_length"
      (length.field "max_length" ++ depth.field "max_depth")) = length.bound (some 8192) := by
    cases length <;> cases depth <;> rfl
  have hd : field (some 64) (Json.lookup "max_depth"
      (length.field "max_length" ++ depth.field "max_depth")) = depth.bound (some 64) := by
    cases length <;> cases depth <;> rfl
  have noOther : (((length.field "max_length" ++ depth.field "max_depth").map Prod.fst).filter
      (!fieldNames.contains ·)) = [] := by
    cases length <;> cases depth <;> rfl
  simp only [ofFields, hl, hd, noOther, List.map_nil, List.append_nil]
  cases length.bound (some 8192) <;> cases depth.bound (some 64) <;> rfl

section
variable {check : List (String × Json) → Except (List FieldError) Limits} (checks : Checks check)

include checks

/-- **The limits of an environment**, from what is read from each variable. -/
theorem ofEnvironment_eq (environment : String → Option String) :
    ofEnvironment environment check =
      match asked (some 8192) environment lengthVariable,
        asked (some 64) environment depthVariable with
      | .error text, _ => .error (variableProblem lengthVariable text)
      | .ok _, .error text => .error (variableProblem depthVariable text)
      | .ok (.ok l), .ok (.ok d) => .ok ⟨l, d⟩
      | .ok (.error cause), .ok _ => .error (fieldProblem ⟨["max_length"], cause⟩)
      | .ok (.ok _), .ok (.error cause) => .error (fieldProblem ⟨["max_depth"], cause⟩) := by
  unfold ofEnvironment setting asked
  cases Setting.ofText (environment lengthVariable) with
  | error text => rfl
  | ok length =>
    cases Setting.ofText (environment depthVariable) with
    | error text => rfl
    | ok depth =>
      simp only [Except.mapError, Except.map, bind, Except.bind, checks length depth]
      cases length.bound (some 8192) <;> cases depth.bound (some 64) <;> rfl

theorem ofEnvironment_ok_iff {environment : String → Option String} {limits : Limits} :
    ofEnvironment environment check = .ok limits ↔
      Asks (some 8192) (trimmed environment lengthVariable) limits.maxLength ∧
        Asks (some 64) (trimmed environment depthVariable) limits.maxDepth := by
  obtain ⟨l, d⟩ := limits
  rw [← asked_ok_iff, ← asked_ok_iff, ofEnvironment_eq checks]
  rcases asked (some 8192) environment lengthVariable with _ | _ | _ <;>
    rcases asked (some 64) environment depthVariable with _ | _ | _ <;> simp

theorem ofEnvironment_error_iff {environment : String → Option String} {problem : Problem} :
    ofEnvironment environment check = .error problem ↔
      Refuses (trimmed environment lengthVariable) (trimmed environment depthVariable) problem := by
  constructor
  · intro h
    rw [ofEnvironment_eq checks] at h
    by_cases length : Readable (trimmed environment lengthVariable)
    · by_cases depth : Readable (trimmed environment depthVariable)
      · obtain ⟨l, -, readLength⟩ | ⟨small, readLength⟩ := asked_of_readable (some 8192) length
        · have large : ¬ TooSmall (trimmed environment lengthVariable) := by
            intro small
            rw [asked_of_tooSmall small] at readLength
            cases readLength
          obtain ⟨d, -, readDepth⟩ | ⟨small, readDepth⟩ := asked_of_readable (some 64) depth
          · rw [readLength, readDepth] at h
            cases h
          · rw [readLength, readDepth] at h
            cases h
            exact .smallDepth length depth large small
        · obtain ⟨d, readDepth⟩ := exists_asked (some 64) depth
          rw [readLength, readDepth] at h
          cases d <;> cases h <;> exact .smallLength length depth small
      · obtain ⟨l, readLength⟩ := exists_asked (some 8192) length
        rw [readLength, asked_of_not_readable depth] at h
        cases h
        exact .depth length depth
    · rw [asked_of_not_readable length] at h
      cases h
      exact .length length
  · rw [ofEnvironment_eq checks]
    rintro (length | ⟨length, depth⟩ | ⟨-, depth, small⟩ | ⟨length, depth, large, small⟩)
    · rw [asked_of_not_readable length]
    · obtain ⟨l, readLength⟩ := exists_asked (some 8192) length
      rw [readLength, asked_of_not_readable depth]
    · obtain ⟨d, readDepth⟩ := exists_asked (some 64) depth
      rw [asked_of_tooSmall small, readDepth]
      cases d <;> rfl
    · obtain ⟨l, -, readLength⟩ | ⟨small', -⟩ := asked_of_readable (some 8192) length
      · rw [readLength, asked_of_tooSmall small]
      · exact absurd small' large

/-- **The limits and the problems of all environments**, for any check of the limits. -/
theorem ofEnvironment_exact (environment : String → Option String) :
    (∀ limits, ofEnvironment environment check = .ok limits ↔
      Asks (some 8192) (trimmed environment lengthVariable) limits.maxLength ∧
        Asks (some 64) (trimmed environment depthVariable) limits.maxDepth) ∧
    (∀ problem, ofEnvironment environment check = .error problem ↔
      Refuses (trimmed environment lengthVariable) (trimmed environment depthVariable) problem) ∧
    (∀ problem, ofEnvironment environment check = .error problem → problem.kind = .configuration) ∧
    ∀ (n : Nat) (before after : String), 1 ≤ n → (toString n).length ≤ 4300 →
      (∀ c ∈ before.toList ++ after.toList, isBlank c = true) →
      (environment lengthVariable = some (before ++ toString n ++ after) →
        ∀ limits, ofEnvironment environment check = .ok limits ↔ limits.maxLength = some n ∧
          Asks (some 64) (trimmed environment depthVariable) limits.maxDepth) ∧
      (environment depthVariable = some (before ++ toString n ++ after) →
        ∀ limits, ofEnvironment environment check = .ok limits ↔
          Asks (some 8192) (trimmed environment lengthVariable) limits.maxLength ∧
            limits.maxDepth = some n) := by
  refine ⟨fun _ => ofEnvironment_ok_iff checks, fun _ => ofEnvironment_error_iff checks, ?_, ?_⟩
  · intro problem h
    cases (ofEnvironment_error_iff checks).mp h <;> rfl
  · intro n before after positive short blank
    constructor
    · intro given limits
      rw [ofEnvironment_ok_iff checks,
        asks_iff_of_toString (trimmed_toString blank given) positive short]
    · intro given limits
      rw [ofEnvironment_ok_iff checks,
        asks_iff_of_toString (trimmed_toString blank given) positive short]

end

/-- twelve between a tab and a space, and a word in mixed case -/
theorem ofEnvironment_padded_twelve :
    ofEnvironment (fun name => if name = lengthVariable then some ("\t" ++ toString 12 ++ " ")
      else some "NonE") = .ok ⟨some 12, none⟩ := by
  have blank : ∀ c ∈ "\t".toList ++ " ".toList, isBlank c = true :=
    List.all_eq_true.mp (by decide)
  refine (((ofEnvironment_exact checks_ofFields _).2.2.2 12 "\t" " " (by decide) (by decide)
    blank).1 (if_pos rfl) ⟨some 12, none⟩).mpr ⟨rfl, .unlimited ?_⟩
  decide

end Limits

end Scim
