import Mathlib.Data.List.Basic
import Mathlib.Tactic.Ring
import Scim.Number.Shortest
import Scim.Text.Digit
import Scim.Text.Letter

/-!
# Runs of decimal digits

* `digitsValue_append`        the number that two runs of digits write together;
* `digitsValue_toDigits`      the digits of a number write this number;
* `head?_toDigits_ne_zero`    they do not begin with a zero, unless the number is zero;
* `exists_significant`        the digits of a positive number without the zeros at their end.
-/

namespace Scim

open Number Text

/-! ## The value of digits -/

theorem lowerAscii_of_isDigit {c : Char} (h : isDigit c = true) : lowerAscii c = c := by
  have letters : ∀ n ∈ List.range' 0x41 26, isDigit (Char.ofNat n) = false := by decide
  refine if_neg fun upper => ?_
  have letter := letters c.toNat (by rw [List.mem_range'_1]; omega)
  rw [Char.ofNat_toNat, h] at letter
  cases letter

theorem digitsValue_append (cs ds : List Char) :
    digitsValue (cs ++ ds) = digitsValue cs * 10 ^ ds.length + digitsValue ds := by
  have from_ (n : Nat) : ds.foldl (fun n c => 10 * n + (digitValue? c).getD 0) n =
      n * 10 ^ ds.length + digitsValue ds := by
    unfold digitsValue
    induction ds generalizing n with
    | nil => simp
    | cons d ds ih =>
      rw [List.foldl_cons, List.foldl_cons, ih, ih (10 * 0 + _), List.length_cons]
      ring
  show (cs ++ ds).foldl _ 0 = _
  rw [List.foldl_append]
  exact from_ _

@[simp] theorem digitsValue_zeros (k : Nat) : digitsValue (List.replicate k '0') = 0 := by
  induction k with
  | zero => rfl
  | succ k ih =>
    rw [List.replicate_succ, ← List.singleton_append, digitsValue_append, ih]
    show 0 * _ + 0 = 0
    omega

theorem digitsValue_zeros_append (k : Nat) (ds : List Char) :
    digitsValue (List.replicate k '0' ++ ds) = digitsValue ds := by
  rw [digitsValue_append, digitsValue_zeros, Nat.zero_mul, Nat.zero_add]

theorem digitsValue_append_zeros (ds : List Char) (k : Nat) :
    digitsValue (ds ++ List.replicate k '0') = digitsValue ds * 10 ^ k := by
  rw [digitsValue_append, digitsValue_zeros, List.length_replicate, Nat.add_zero]

/-! ## The digits of a number -/

theorem isDigit_of_mem_toDigits {n : Nat} {c : Char} (h : c ∈ Nat.toDigits 10 n) :
    c.isDigit = true :=
  Nat.isDigit_of_mem_toDigits (by decide) (by decide) h

theorem digitValue?_of_mem_toDigits {n : Nat} {c : Char} (h : c ∈ Nat.toDigits 10 n) :
    digitValue? c = some (c.toNat - '0'.toNat) := by
  have between : 0x30 ≤ c.toNat ∧ c.toNat ≤ 0x39 :=
    Char.isDigit_iff_toNat.mp (isDigit_of_mem_toDigits h)
  unfold digitValue?
  rw [if_pos (Nat.lt_of_le_of_lt between.2 (by decide)), if_pos between]
  rfl

theorem digitsValue_toDigits (n : Nat) : digitsValue (Nat.toDigits 10 n) = n := by
  have same : digitsValue (Nat.toDigits 10 n) = Nat.ofDigitChars 10 (Nat.toDigits 10 n) 0 := by
    refine List.foldl_ext _ _ 0 fun m c hc => ?_
    rw [digitValue?_of_mem_toDigits hc]
    rfl
  rw [same, Nat.ofDigitChars_toDigits (by decide) (by decide)]

theorem head?_toDigits_ne_zero {n : Nat} (h : 0 < n) : (Nat.toDigits 10 n).head? ≠ some '0' := by
  induction n using Nat.strongRecOn with
  | ind n ih =>
    by_cases small : n < 10
    · have digits : ∀ m < 10, 0 < m → some m.digitChar ≠ some '0' := by decide
      rw [Nat.toDigits_of_lt_base small, List.head?_cons]
      exact digits n small h
    · have first := ih (n / 10) (by omega) (by omega)
      rw [Nat.toDigits_of_base_le (by decide) (by omega), List.head?_append,
        List.head?_eq_some_head Nat.toDigits_ne_nil, Option.some_or]
      rwa [List.head?_eq_some_head Nat.toDigits_ne_nil] at first

theorem exists_zeros_at_end (cs : List Char) :
    ∃ k, cs = (cs.reverse.dropWhile (· == '0')).reverse ++ List.replicate k '0' := by
  refine ⟨(cs.reverse.takeWhile (· == '0')).length, ?_⟩
  have zeros : cs.reverse.takeWhile (· == '0') =
      List.replicate (cs.reverse.takeWhile (· == '0')).length '0' := by
    refine List.eq_replicate_iff.mpr ⟨rfl, ?_⟩
    intro c hc
    exact eq_of_beq (List.all_eq_true.mp List.all_takeWhile c hc)
  rw [← List.reverse_replicate, ← zeros, ← List.reverse_append, List.takeWhile_append_dropWhile,
    List.reverse_reverse]

/-- **The digits of a positive number without the zeros at their end** begin with a digit that is no
zero. -/
theorem exists_significant {n : Nat} (h : 0 < n) {ds : List Char}
    (hds : ds = ((decimalDigits n).reverse.dropWhile (· == '0')).reverse) :
    ∃ k, decimalDigits n = ds ++ List.replicate k '0' ∧ n = digitsValue ds * 10 ^ k ∧
      (∃ c cs, ds = c :: cs ∧ c ≠ '0') ∧ ∀ c ∈ ds, c.isDigit = true := by
  obtain ⟨k, whole⟩ := exists_zeros_at_end (decimalDigits n)
  rw [← hds] at whole
  have value : n = digitsValue ds * 10 ^ k := by
    rw [← digitsValue_append_zeros, ← whole]
    exact (digitsValue_toDigits n).symm
  have first : (ds ++ List.replicate k '0').head? ≠ some '0' := by
    rw [← whole]
    exact head?_toDigits_ne_zero h
  refine ⟨k, whole, value, ?_, ?_⟩
  · cases ds with
    | nil =>
      rw [value] at h
      simp [digitsValue] at h
    | cons c cs =>
      refine ⟨c, cs, rfl, ?_⟩
      rintro rfl
      exact first rfl
  · intro c hc
    refine isDigit_of_mem_toDigits (n := n) ?_
    show c ∈ decimalDigits n
    rw [whole]
    exact List.mem_append_left _ hc

end Scim
