import Scim.Number.Numeral
import Scim.Proofs.Number.Digits
import Scim.Proofs.Text.Strip

/-!
# Whole numbers in text

A numeral is made of runs of digits with a single underscore between each two of them, and a whole
number of a numeral of at most 4300 digits behind at most one sign.

* `Number.Numeral`               the numerals and their digits;
* `numeralDigits?_eq_some_iff`   they are what the reader of numerals takes;
* `Number.Whole`                 the texts of whole numbers;
* `readInt?_eq_some_iff`         they are what the reader of whole numbers takes, spaces around them;
* `Whole.of_toString`            the decimal digits of a number write it.
-/

namespace Scim.Number

open Scim.Text

/-- **A numeral and its digits**: runs of digits of any script, an underscore between each two. -/
def Numeral (cs ds : List Char) : Prop :=
  ∃ runs : List (List Char), runs ≠ [] ∧ (∀ r ∈ runs, r ≠ [] ∧ ∀ c ∈ r, isDigit c = true) ∧
    cs = ['_'].intercalate runs ∧ ds = runs.flatten

def signs : List (List Char) := [[], ['+'], ['-']]

/-- **A text that writes a whole number**: at most one sign, then a numeral of at most 4300
digits. -/
def Whole (cs : List Char) (n : Int) : Prop :=
  ∃ sign ∈ signs, ∃ body ds, cs = sign ++ body ∧ Numeral body ds ∧ ds.length ≤ 4300 ∧
    n = if sign = ['-'] then -(digitsValue ds : Int) else digitsValue ds

/-! ## Numerals -/

theorem ne_underscore_of_isDigit {c : Char} (h : isDigit c = true) : c ≠ '_' := by
  rintro rfl
  exact absurd h (by decide)

theorem numeralDigits?_run_append {r : List Char} (digits : ∀ c ∈ r, isDigit c = true)
    (filled : r ≠ []) (cs : List Char) :
    numeralDigits? (r ++ '_' :: cs) = (numeralDigits? cs).map (r ++ ·) := by
  induction r with
  | nil => exact absurd rfl filled
  | cons c r ih =>
    obtain ⟨first, more⟩ := List.forall_mem_cons.mp digits
    cases r with
    | nil =>
      rw [List.singleton_append, numeralDigits?, if_pos first, if_pos rfl]
      rfl
    | cons d r =>
      have second : d ≠ '_' := ne_underscore_of_isDigit (more d (List.mem_cons_self ..))
      have tail := ih more (List.cons_ne_nil d r)
      rw [List.cons_append] at tail ⊢
      rw [List.cons_append, numeralDigits?, if_pos first, if_neg second, tail, Option.map_map]
      rfl

theorem numeralDigits?_run {r : List Char} (digits : ∀ c ∈ r, isDigit c = true)
    (filled : r ≠ []) : numeralDigits? r = some r := by
  induction r with
  | nil => exact absurd rfl filled
  | cons c r ih =>
    obtain ⟨first, more⟩ := List.forall_mem_cons.mp digits
    cases r with
    | nil => rw [numeralDigits?, if_pos first]
    | cons d r =>
      have second : d ≠ '_' := ne_underscore_of_isDigit (more d (List.mem_cons_self ..))
      rw [numeralDigits?, if_pos first, if_neg second, ih more (List.cons_ne_nil d r)]
      rfl

namespace Numeral

theorem digit {c : Char} (h : isDigit c = true) : Numeral [c] [c] := by
  refine ⟨[[c]], List.cons_ne_nil _ _, ?_, rfl, rfl⟩
  intro r mem
  rw [List.mem_singleton.mp mem]
  exact ⟨List.cons_ne_nil c [], fun d hd => by rwa [List.mem_singleton.mp hd]⟩

theorem separated {c : Char} {cs ds : List Char} (h : isDigit c = true) (rest : Numeral cs ds) :
    Numeral (c :: '_' :: cs) (c :: ds) := by
  obtain ⟨runs, nonempty, digits, rfl, rfl⟩ := rest
  refine ⟨[c] :: runs, List.cons_ne_nil _ _, ?_, ?_, rfl⟩
  · refine List.forall_mem_cons.mpr ⟨⟨List.cons_ne_nil c [], ?_⟩, digits⟩
    intro d hd
    rwa [List.mem_singleton.mp hd]
  · obtain ⟨r, more, rfl⟩ := List.exists_cons_of_ne_nil nonempty
    rw [List.intercalate_cons_cons]
    rfl

theorem joined {c : Char} {cs ds : List Char} (h : isDigit c = true) (rest : Numeral cs ds) :
    Numeral (c :: cs) (c :: ds) := by
  obtain ⟨runs, nonempty, digits, rfl, rfl⟩ := rest
  obtain ⟨r, more, rfl⟩ := List.exists_cons_of_ne_nil nonempty
  obtain ⟨⟨-, first⟩, later⟩ := List.forall_mem_cons.mp digits
  refine ⟨(c :: r) :: more, List.cons_ne_nil _ _, ?_, ?_, rfl⟩
  · exact List.forall_mem_cons.mpr
      ⟨⟨List.cons_ne_nil c r, List.forall_mem_cons.mpr ⟨h, first⟩⟩, later⟩
  · cases more with
    | nil => rw [List.intercalate_singleton, List.intercalate_singleton]
    | cons s more =>
      rw [List.intercalate_cons_cons, List.intercalate_cons_cons]
      rfl

theorem exists_cons {cs ds : List Char} (h : Numeral cs ds) :
    ∃ c rest, cs = c :: rest ∧ isDigit c = true := by
  obtain ⟨runs, nonempty, digits, rfl, -⟩ := h
  obtain ⟨r, more, rfl⟩ := List.exists_cons_of_ne_nil nonempty
  obtain ⟨filled, first⟩ := digits r (List.mem_cons_self ..)
  obtain ⟨c, r, rfl⟩ := List.exists_cons_of_ne_nil filled
  have digit : isDigit c = true := first c (List.mem_cons_self ..)
  cases more with
  | nil => exact ⟨c, r, List.intercalate_singleton, digit⟩
  | cons s more =>
    refine ⟨c, r ++ '_' :: ['_'].intercalate (s :: more), ?_, digit⟩
    rw [List.intercalate_cons_cons]
    simp

end Numeral

/-- **The reader of numerals** takes the numerals, and gives their digits. -/
theorem numeralDigits?_eq_some_iff {cs ds : List Char} :
    numeralDigits? cs = some ds ↔ Numeral cs ds := by
  constructor
  · intro h
    induction cs using numeralDigits?.induct generalizing ds with
    | case1 => exact absurd h (by rw [numeralDigits?]; nofun)
    | case2 c digit =>
      rw [numeralDigits?, if_pos digit] at h
      cases h
      exact .digit digit
    | case3 c other =>
      rw [numeralDigits?, if_neg other] at h
      cases h
    | case4 c cs digit ih =>
      rw [numeralDigits?, if_pos digit, if_pos rfl] at h
      obtain ⟨tail, read, rfl⟩ := Option.map_eq_some_iff.mp h
      exact .separated digit (ih read)
    | case5 c d cs digit other ih =>
      rw [numeralDigits?, if_pos digit, if_neg other] at h
      obtain ⟨tail, read, rfl⟩ := Option.map_eq_some_iff.mp h
      exact .joined digit (ih read)
    | case6 c d cs other =>
      rw [numeralDigits?, if_neg other] at h
      cases h
  · rintro ⟨runs, nonempty, digits, rfl, rfl⟩
    induction runs with
    | nil => exact absurd rfl nonempty
    | cons r runs ih =>
      obtain ⟨⟨filled, first⟩, later⟩ := List.forall_mem_cons.mp digits
      cases runs with
      | nil =>
        rw [List.intercalate_singleton, numeralDigits?_run first filled]
        simp
      | cons s runs =>
        rw [List.intercalate_cons_cons, List.append_assoc, List.singleton_append,
          numeralDigits?_run_append first filled, ih (List.cons_ne_nil s runs) later]
        rfl

/-! ## Whole numbers -/

theorem splitSign_append {sign : List Char} (h : sign ∈ signs) {c : Char} (cs : List Char)
    (digit : isDigit c = true) :
    splitSign (sign ++ c :: cs) = (decide (sign = ['-']), c :: cs) := by
  have plus : c ≠ '+' := by rintro rfl; exact absurd digit (by decide)
  have minus : c ≠ '-' := by rintro rfl; exact absurd digit (by decide)
  simp only [signs, List.mem_cons, List.not_mem_nil, or_false] at h
  obtain rfl | rfl | rfl := h
  · rw [List.nil_append, splitSign]
    · simp
    · rintro _ ⟨⟩
      exact minus rfl
    · rintro _ ⟨⟩
      exact plus rfl
  · rfl
  · rfl

theorem exists_sign (cs : List Char) :
    ∃ sign ∈ signs, cs = sign ++ (splitSign cs).2 ∧
      (splitSign cs).1 = decide (sign = ['-']) := by
  unfold splitSign
  split
  · exact ⟨['-'], by decide, rfl, rfl⟩
  · exact ⟨['+'], by decide, rfl, rfl⟩
  · exact ⟨[], by decide, rfl, rfl⟩

/-- **The reader of whole numbers** takes the texts that write one, spaces around them. -/
theorem readInt?_eq_some_iff {s : String} {n : Int} :
    readInt? s = some n ↔ Whole (stripSpaces s.toList) n := by
  have value (negative : Bool) (m : Nat) :
      signed negative m = if negative = true then -(m : Int) else m := rfl
  constructor
  · intro h
    obtain ⟨sign, mem, whole, negative⟩ := exists_sign (stripSpaces s.toList)
    simp only [readInt?, Option.bind_eq_bind, Option.bind_eq_some_iff] at h
    obtain ⟨ds, read, fits⟩ := h
    split at fits
    · cases fits
    · next short =>
      injection fits with same
      refine ⟨sign, mem, _, ds, whole, numeralDigits?_eq_some_iff.mp read, Nat.not_lt.mp short, ?_⟩
      rw [← same, value, negative]
      simp
  · rintro ⟨sign, mem, body, ds, whole, numeral, short, rfl⟩
    obtain ⟨c, rest, rfl, digit⟩ := numeral.exists_cons
    have read := numeralDigits?_eq_some_iff.mpr numeral
    rw [readInt?, whole, splitSign_append mem rest digit]
    simp only [read, Option.bind_eq_bind, Option.bind_some]
    rw [maxNumeralDigits, if_neg (Nat.not_lt.mpr short), value]
    simp

namespace Whole

/-- **The decimal digits of a number** write it. -/
theorem of_toString {n : Nat} (short : (toString n).length ≤ 4300) :
    Whole (toString n).toList n := by
  have same : (toString n).toList = Nat.toDigits 10 n := Nat.toList_repr
  refine ⟨[], by decide, Nat.toDigits 10 n, Nat.toDigits 10 n, same, ?_, ?_, ?_⟩
  · refine numeralDigits?_eq_some_iff.mp (numeralDigits?_run ?_ Nat.toDigits_ne_nil)
    intro c hc
    rw [isDigit, digitValue?_of_mem_toDigits hc]
    rfl
  · rwa [← String.length_toList, same] at short
  · rw [if_neg (by decide), digitsValue_toDigits]

theorem exists_cons {cs : List Char} {n : Int} (h : Whole cs n) :
    ∃ c rest, cs = c :: rest ∧ (c = '+' ∨ c = '-' ∨ isDigit c = true) := by
  obtain ⟨sign, mem, body, ds, rfl, numeral, -, -⟩ := h
  simp only [signs, List.mem_cons, List.not_mem_nil, or_false] at mem
  obtain rfl | rfl | rfl := mem
  · obtain ⟨c, rest, rfl, digit⟩ := numeral.exists_cons
    exact ⟨c, rest, rfl, .inr (.inr digit)⟩
  · exact ⟨'+', body, rfl, .inl rfl⟩
  · exact ⟨'-', body, rfl, .inr (.inl rfl)⟩

end Whole

end Scim.Number
