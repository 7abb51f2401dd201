import Mathlib.Data.List.TakeWhile
import Scim.Json.Printer
import Scim.Proofs.Json.Reader
import Scim.Proofs.Number.Digits
import Scim.Proofs.Number.Nearest

/-!
# Numbers in JSON texts

A printed number is read back, whatever follows it, if no number goes on there.

* `Ends`                 no number goes on with these characters;
* `readNumber_of_parts`  reading a number part by part;
* `readNumber_render`    a decimal number in any layout is read as the double nearest to it;
* `readNumber_intText`   a printed whole number is read back;
* `readNumber_doubleText`  a printed canonical double is read back.
-/

namespace Scim.Json

open Number Text

/-! ## Parts of numbers -/

/-- No run of digits goes on with these characters. -/
def EndsDigits (rest : List Char) : Prop := ∀ c, rest.head? = some c → c.isDigit = false

/-- No number goes on with these characters. -/
def Ends (rest : List Char) : Prop :=
  ∀ c, rest.head? = some c → c.isDigit = false ∧ c ≠ '.' ∧ c ≠ 'e' ∧ c ≠ 'E'

theorem Ends.endsDigits {rest : List Char} (h : Ends rest) : EndsDigits rest :=
  fun c hc => (h c hc).1

theorem endsDigits_cons {c : Char} (h : c.isDigit = false) (cs : List Char) :
    EndsDigits (c :: cs) := by
  rintro d same
  obtain rfl := Option.some.inj same
  exact h

variable {ds rest : List Char}

theorem readDigits_append (nonempty : ds ≠ []) (digits : ∀ c ∈ ds, c.isDigit = true)
    (ends : EndsDigits rest) : readDigits (ds ++ rest) = some (ds, rest) := by
  have none : rest.takeWhile Char.isDigit = [] ∧ rest.dropWhile Char.isDigit = rest := by
    cases rest with
    | nil => exact ⟨rfl, rfl⟩
    | cons c cs =>
      have stop : ¬ c.isDigit = true := by simp [ends c rfl]
      exact ⟨List.takeWhile_cons_of_neg stop, List.dropWhile_cons_of_neg stop⟩
  unfold readDigits
  rw [List.takeWhile_append_of_pos digits, List.dropWhile_append_of_pos digits, none.1, none.2,
    List.append_nil]
  exact if_neg nonempty

theorem readFraction_of_ends (h : rest.head? ≠ some '.') :
    readFraction rest = some (none, rest) := by
  unfold readFraction
  split
  · exact absurd rfl h
  · rfl

theorem readFraction_digits (nonempty : ds ≠ []) (digits : ∀ c ∈ ds, c.isDigit = true)
    (ends : EndsDigits rest) : readFraction ('.' :: (ds ++ rest)) = some (some ds, rest) := by
  show (readDigits (ds ++ rest)).bind _ = _
  rw [readDigits_append nonempty digits ends]
  rfl

theorem readPower_of_ends (h : Ends rest) : readPower rest = some (none, rest) := by
  cases rest with
  | nil => rfl
  | cons c cs =>
    obtain ⟨-, -, lower, upper⟩ := h c rfl
    unfold readPower
    exact if_neg (not_or.mpr ⟨lower, upper⟩)

/-- The sign before the digits of a number. -/
def minus (negative : Bool) : List Char := if negative then ['-'] else []

theorem readNumber_of_parts (negative : Bool) (whole : List Char) {after behind : List Char}
    {fraction : Option (List Char)} {power : Option Int} (nonempty : whole ≠ [])
    (digits : ∀ c ∈ whole, c.isDigit = true) (first : hasLeadingZero whole = false)
    (ends : EndsDigits after) (hf : readFraction after = some (fraction, behind))
    (hp : readPower behind = some (power, rest)) :
    readNumber (minus negative ++ whole ++ after) =
      some (numberOf negative whole fraction power, rest) := by
  have sign : splitMinus (minus negative ++ whole ++ after) =
      (minus negative, whole ++ after) := by
    cases negative with
    | true => rfl
    | false =>
      obtain ⟨c, cs, rfl⟩ := List.exists_cons_of_ne_nil nonempty
      have other : c ≠ '-' := by
        rintro rfl
        exact absurd (digits '-' List.mem_cons_self) (by decide)
      show splitMinus (c :: (cs ++ after)) = _
      unfold splitMinus
      split
      · next same => exact absurd (List.cons.inj same).1 other
      · rfl
  have given : decide (minus negative ≠ []) = negative := by
    cases negative <;> rfl
  unfold readNumber
  rw [sign]
  simp only [readDigits_append nonempty digits ends, Option.bind_eq_bind, Option.bind_some, first,
    hf, hp, given]
  rfl

/-! ## Whole numbers -/

theorem signed_natAbs (n : Int) : signed (decide (n < 0)) n.natAbs = n := by
  unfold signed
  rcases Int.lt_or_le n 0 with negative | positive
  · rw [decide_eq_true negative, if_pos rfl]
    omega
  · rw [decide_eq_false (Int.not_lt.mpr positive), if_neg Bool.false_ne_true]
    omega

theorem hasLeadingZero_toDigits (n : Nat) : hasLeadingZero (Nat.toDigits 10 n) = false := by
  rcases Nat.eq_zero_or_pos n with rfl | positive
  · rfl
  · have first := head?_toDigits_ne_zero positive
    unfold hasLeadingZero
    split
    · next same =>
      rw [same] at first
      exact absurd rfl first
    · rfl

/-- **A whole number is read back.** -/
theorem readNumber_intText (n : Int) (h : Ends rest) :
    readNumber (intText n ++ rest) = some (.int n, rest) := by
  have read := readNumber_of_parts (decide (n < 0)) (Nat.toDigits 10 n.natAbs)
    Nat.toDigits_ne_nil (fun _ => isDigit_of_mem_toDigits) (hasLeadingZero_toDigits _)
    h.endsDigits (readFraction_of_ends fun point => (h _ point).2.1 rfl) (readPower_of_ends h)
  have value : numberOf (decide (n < 0)) (Nat.toDigits 10 n.natAbs) none none = .int n := by
    show Json.int (signed (decide (n < 0)) (digitsValue (Nat.toDigits 10 n.natAbs))) = .int n
    rw [digitsValue_toDigits, signed_natAbs]
  rw [value] at read
  simpa [intText, decimalDigits, minus] using read

/-! ## Decimal numbers -/

theorem isDigit_zero : ∀ c ∈ ['0'], c.isDigit = true := List.forall_mem_singleton.mpr rfl

theorem isDigit_of_mem_zeros {k : Nat} {c : Char} (h : c ∈ List.replicate k '0') :
    c.isDigit = true := by
  rw [List.eq_of_mem_replicate h]
  rfl

theorem hasLeadingZero_of_head {c : Char} (h : c ≠ '0') (cs : List Char) :
    hasLeadingZero (c :: cs) = false := by
  unfold hasLeadingZero
  split
  · next same => exact absurd (List.cons.inj same).1 h
  · rfl

theorem readNumber_withPoint (negative : Bool) (h : Ends rest) (whole fraction : List Char)
    (nonempty : whole ≠ []) (more : fraction ≠ []) (hw : ∀ d ∈ whole, d.isDigit = true)
    (hf : ∀ d ∈ fraction, d.isDigit = true) (first : hasLeadingZero whole = false) :
    readNumber (minus negative ++ whole ++ '.' :: (fraction ++ rest)) =
      some (.double (.ofDecimal negative (digitsValue (whole ++ fraction)) (0 - fraction.length)),
        rest) :=
  readNumber_of_parts negative whole nonempty hw first (endsDigits_cons (by decide) _)
    (readFraction_digits more hf h.endsDigits) (readPower_of_ends h)

section

variable (negative : Bool) {c : Char} {cs : List Char} (notZero : c ≠ '0')
  (digits : ∀ d ∈ c :: cs, d.isDigit = true)

include digits

theorem readNumber_zerosBefore (zeros : Nat) (h : Ends rest) :
    readNumber (minus negative ++ '0' :: '.' :: (List.replicate zeros '0' ++ c :: cs ++ rest)) =
      some (.double (.ofDecimal negative (digitsValue (c :: cs)) (-zeros - (c :: cs).length)),
        rest) := by
  have fraction : ∀ d ∈ List.replicate zeros '0' ++ c :: cs, d.isDigit = true := by
    intro d hd
    rcases List.mem_append.mp hd with hd | hd
    · exact isDigit_of_mem_zeros hd
    · exact digits d hd
  have read := readNumber_withPoint negative h ['0'] (List.replicate zeros '0' ++ c :: cs)
    (by simp) (by simp) isDigit_zero fraction rfl
  have value : digitsValue (['0'] ++ (List.replicate zeros '0' ++ c :: cs)) =
      digitsValue (c :: cs) := by
    have zero : digitsValue ['0'] = 0 := by decide
    rw [digitsValue_append, digitsValue_zeros_append, zero, Nat.zero_mul, Nat.zero_add]
  have exponent : (0 : Int) - (List.replicate zeros '0' ++ c :: cs).length =
      -zeros - (c :: cs).length := by
    rw [List.length_append, List.length_replicate]
    omega
  rw [value, exponent] at read
  simpa using read

include notZero

theorem readNumber_zerosBehind (zeros : Nat) (h : Ends rest) :
    readNumber (minus negative ++ (c :: cs ++ List.replicate zeros '0') ++
      '.' :: (['0'] ++ rest)) =
        some (.double (.ofDecimal negative (digitsValue (c :: cs)) zeros), rest) := by
  have whole : ∀ d ∈ c :: cs ++ List.replicate zeros '0', d.isDigit = true := by
    intro d hd
    rcases List.mem_append.mp hd with hd | hd
    · exact digits d hd
    · exact isDigit_of_mem_zeros hd
  have read := readNumber_withPoint negative h (c :: cs ++ List.replicate zeros '0') ['0']
    (by simp) (by simp) whole isDigit_zero (hasLeadingZero_of_head notZero _)
  have value : digitsValue (c :: cs ++ List.replicate zeros '0' ++ ['0']) =
      digitsValue (c :: cs) * 10 ^ (zeros + 1) := by
    rw [List.append_assoc, ← List.replicate_one, List.replicate_append_replicate,
      digitsValue_append_zeros]
  have exponent : (0 : Int) - (['0'] : List Char).length + (zeros + 1 : Nat) = zeros := by
    simp only [List.length_singleton]
    omega
  rwa [value, Double.ofDecimal_mul_pow, exponent] at read

theorem readNumber_pointBetween {whole : Nat} (positive : 0 < whole)
    (short : whole < (c :: cs).length) (h : Ends rest) :
    readNumber (minus negative ++ (c :: cs).take whole ++ '.' :: ((c :: cs).drop whole ++ rest)) =
      some (.double (.ofDecimal negative (digitsValue (c :: cs)) (whole - (c :: cs).length)),
        rest) := by
  have taken : (c :: cs).take whole = c :: cs.take (whole - 1) := List.take_cons positive
  have first : hasLeadingZero ((c :: cs).take whole) = false := by
    rw [taken]
    exact hasLeadingZero_of_head notZero _
  have more : (c :: cs).drop whole ≠ [] := by
    rw [Ne, List.drop_eq_nil_iff]
    exact not_le.mpr short
  have read := readNumber_withPoint negative h ((c :: cs).take whole) ((c :: cs).drop whole)
    (by simp [taken]) more (fun d hd => digits d (List.mem_of_mem_take hd))
    (fun d hd => digits d (List.mem_of_mem_drop hd)) first
  have exponent : (0 : Int) - ((c :: cs).drop whole).length = whole - (c :: cs).length := by
    rw [List.length_drop]
    omega
  rwa [List.take_append_drop, exponent] at read

theorem readNumber_positional (point : Int) (h : Ends rest) :
    readNumber (minus negative ++ Layout.positional (c :: cs) point ++ rest) =
      some (.double (.ofDecimal negative (digitsValue (c :: cs)) (point - (c :: cs).length)),
        rest) := by
  unfold Layout.positional
  split
  · next low =>
    have read := readNumber_zerosBefore negative digits (-point).toNat h
    have zeros : -((-point).toNat : Int) = point := by omega
    rw [zeros] at read
    simpa using read
  · next high =>
    dsimp only
    split
    · next fits =>
      have read := readNumber_zerosBehind negative notZero digits
        (point.toNat - (c :: cs).length) h
      have zeros : ((point.toNat - (c :: cs).length : Nat) : Int) = point - (c :: cs).length := by
        omega
      rw [zeros] at read
      simpa using read
    · next long =>
      have read := readNumber_pointBetween negative notZero digits
        (Int.pos_iff_toNat_pos.mp (not_le.mp high)) (not_le.mp long) h
      have whole : (point.toNat : Int) = point := by omega
      rw [whole] at read
      simpa using read

omit notZero digits in
theorem readPower_exponent (layout : Layout) (exponent : Int) (h : Ends rest) :
    readPower ('e' :: (if exponent < 0 then '-' else '+') ::
        (List.replicate (layout.exponentDigits - (decimalDigits exponent.natAbs).length) '0' ++
          decimalDigits exponent.natAbs ++ rest)) = some (some exponent, rest) := by
  have sign (more : List Char) : splitSign ((if exponent < 0 then '-' else '+') :: more) =
      (decide (exponent < 0), more) := by
    split <;> simp_all [splitSign]
  unfold readPower
  dsimp only
  rw [if_pos (Or.inl rfl), sign]
  dsimp only
  rw [readDigits_append (by simp [decimalDigits]) _ h.endsDigits]
  · simp only [Option.bind_eq_bind, Option.bind_some, digitsValue_zeros_append, decimalDigits,
      digitsValue_toDigits, signed_natAbs]
    rfl
  · intro d hd
    rcases List.mem_append.mp hd with hd | hd
    · exact isDigit_of_mem_zeros hd
    · exact isDigit_of_mem_toDigits hd

theorem readNumber_scientific (layout : Layout) (exponent : Int) (h : Ends rest) :
    readNumber (minus negative ++ layout.scientific (c :: cs) exponent ++ rest) =
      some (.double (.ofDecimal negative (digitsValue (c :: cs))
        (exponent + 1 - (c :: cs).length)), rest) := by
  have power := readPower_exponent layout exponent h
  have lone : ∀ d ∈ [c], d.isDigit = true := fun d hd => digits d (by simp_all)
  unfold Layout.scientific
  cases cs with
  | nil =>
    have read := readNumber_of_parts negative [c] (by simp) lone
      (hasLeadingZero_of_head notZero []) (endsDigits_cons (by decide) _)
      (readFraction_of_ends (by simp)) power
    have number : numberOf negative [c] none (some exponent) =
        .double (.ofDecimal negative (digitsValue [c]) (exponent + 1 - ([c] : List Char).length)) :=
      by simp [numberOf]
    rw [number] at read
    simpa using read
  | cons d more =>
    have read := readNumber_of_parts negative [c] (by simp) lone
      (hasLeadingZero_of_head notZero []) (endsDigits_cons (by decide) _)
      (readFraction_digits (List.cons_ne_nil d more)
        (fun x hx => digits x (List.mem_cons_of_mem c hx)) (endsDigits_cons (by decide) _)) power
    have number : numberOf negative [c] (some (d :: more)) (some exponent) =
        .double (.ofDecimal negative (digitsValue (c :: d :: more))
          (exponent + 1 - (c :: d :: more).length)) := by
      have same : exponent - ((d :: more).length : Int) =
          exponent + 1 - ((c :: d :: more).length : Int) := by
        simp only [List.length_cons]
        omega
      show Json.double (.ofDecimal negative (digitsValue (c :: d :: more))
        (exponent - (d :: more).length)) = _
      rw [same]
    rw [number] at read
    simpa using read

omit notZero digits in
/-- **A decimal number in any layout is read as the double nearest to it.** -/
theorem readNumber_render (layout : Layout) {d : Decimal} (positive : 0 < d.digits)
    (h : Ends rest) :
    readNumber (minus negative ++ layout.render d ++ rest) =
      some (.double (.ofDecimal negative d.digits d.exponent), rest) := by
  obtain ⟨ds, same⟩ : ∃ ds, ds =
      ((decimalDigits d.digits).reverse.dropWhile (· == '0')).reverse := ⟨_, rfl⟩
  obtain ⟨k, whole, value, ⟨c, cs, rfl, notZero⟩, digits⟩ := exists_significant positive same
  have length : (decimalDigits d.digits).length = (c :: cs).length + k := by
    rw [whole, List.length_append, List.length_replicate]
  have shifted : Double.ofDecimal negative d.digits d.exponent =
      Double.ofDecimal negative (digitsValue (c :: cs))
        ((decimalDigits d.digits).length + d.exponent - (c :: cs).length) := by
    rw [value, Double.ofDecimal_mul_pow, ← value, length]
    congr 1
    push_cast
    omega
  unfold Layout.render
  dsimp only
  rw [← same, shifted]
  split
  · exact readNumber_positional negative notZero digits _ h
  · have read := readNumber_scientific negative notZero digits layout
      ((decimalDigits d.digits).length + d.exponent - 1) h
    rwa [Int.sub_add_cancel] at read

end

/-! ## Doubles -/

theorem toDouble_shortest {m : Nat} {e : Int} (h : Double.Canonical (.finite false m e))
    (positive : 0 < m) : (Decimal.shortest m e).toDouble = .finite false m e := by
  unfold Decimal.shortest
  dsimp only
  generalize tried : List.findSome? _ _ = found
  cases found with
  | none => exact Decimal.toDouble_exact h positive
  | some d =>
    obtain ⟨k, -, first⟩ := List.exists_of_findSome?_eq_some tried
    have readsBack := List.find?_some first
    exact of_decide_eq_true readsBack

/-- **A canonical double is read back.** -/
theorem readNumber_doubleText {x : Double} (hx : x.Canonical) (h : Ends rest) :
    readNumber (doubleText x ++ rest) = some (.double x, rest) := by
  cases hx with
  | @mk negative m e short low high full =>
    rcases Nat.eq_zero_or_pos m with rfl | positive
    · have smallest : e = Double.minExponent := full.resolve_left (by decide)
      have read := readNumber_withPoint negative h ['0'] ['0'] (by simp) (by simp) isDigit_zero
        isDigit_zero rfl
      have value : digitsValue (['0'] ++ ['0']) = 0 := by decide
      rw [value, Double.ofDecimal_zero] at read
      have text : doubleText (.finite negative 0 e) = minus negative ++ ['0', '.', '0'] := rfl
      rw [text, smallest]
      simpa using read
    · have shortest := toDouble_shortest (.mk false short low high full) positive
      have digits : 0 < (Decimal.shortest m e).digits := by
        rcases Nat.eq_zero_or_pos (Decimal.shortest m e).digits with none | nonempty
        · rw [Decimal.toDouble, none, Double.ofDecimal_zero] at shortest
          cases shortest
          exact absurd positive (by decide)
        · exact nonempty
      have read := readNumber_render negative Double.layout digits h
      rw [Double.ofDecimal_eq_finite_of_sign negative shortest] at read
      have text : doubleText (.finite negative m e) =
          minus negative ++ Double.layout.render (Decimal.shortest m e) := if_neg positive.ne'
      rw [text]
      exact read

end Scim.Json
