import Mathlib.Algebra.Order.Field.Rat
import Mathlib.Data.Int.Log
import Mathlib.Data.Rat.Floor
import Mathlib.Tactic.FieldSimp
import Mathlib.Tactic.GCongr
import Mathlib.Tactic.NormNum
import Mathlib.Tactic.Ring
import Scim.Number.Shortest

/-!
# The nearest double

The double nearest to a quotient depends on the value of the quotient alone, and it is the quotient
itself if that is a double.

* `Double.Canonical`        finite doubles in the form that a rounded number takes;
* `binaryExponent_eq_log`   the exponent of a quotient is its logarithm;
* `scaleQuotient_lt`, `le_scaleQuotient`    how large a quotient is at its scale;
* `ofQuotient_congr`        equal quotients have the same nearest double;
* `ofDecimal_mul_pow`       zeros at the end of the digits can be moved into the exponent;
* `canonical_ofDecimal`     a decimal number that is not too large gives a canonical double;
* `toDouble_exact`          the decimal number that a canonical double is gives this double again.
-/

namespace Scim.Number

/-! ## Quotients at a scale -/

theorem scaleQuotient_snd_pos {d : Nat} (n : Nat) (e : Int) (hd : 0 < d) :
    0 < (scaleQuotient n d e).2 := by
  unfold scaleQuotient
  split
  · exact Nat.mul_pos hd (Nat.pow_pos (by decide))
  · exact hd

theorem scaleQuotient_value (n d : Nat) (e : Int) :
    ((scaleQuotient n d e).1 : ℚ) / (scaleQuotient n d e).2 = n / d / 2 ^ e := by
  unfold scaleQuotient
  split
  · next nonneg =>
    obtain ⟨k, rfl⟩ := Int.eq_ofNat_of_zero_le nonneg
    simp [div_div]
  · next negative =>
    obtain ⟨k, rfl⟩ : ∃ k : Nat, e = -k := ⟨(-e).toNat, by omega⟩
    simp [mul_div_right_comm]

theorem quotient_pos {n d : Nat} (hn : 0 < n) (hd : 0 < d) : (0 : ℚ) < n / d :=
  div_pos (by exact_mod_cast hn) (by exact_mod_cast hd)

theorem scaleQuotient_ge_one_iff {n d : Nat} (hn : 0 < n) (hd : 0 < d) (e : Int) :
    (scaleQuotient n d e).2 ≤ (scaleQuotient n d e).1 ↔ e ≤ Int.log 2 ((n : ℚ) / d) := by
  have below : (0 : ℚ) < (scaleQuotient n d e).2 := by
    exact_mod_cast scaleQuotient_snd_pos n e hd
  have power : (0 : ℚ) < 2 ^ e := zpow_pos (by norm_num) _
  rw [← Int.zpow_le_iff_le_log (by decide) (quotient_pos hn hd), ← Nat.cast_le (α := ℚ),
    ← one_le_div below, scaleQuotient_value, one_le_div power]
  norm_cast

/-- the difference of the logarithms is at most one too large -/
theorem log_near {n d : Nat} (hn : 0 < n) (hd : 0 < d) :
    (n.log2 : Int) - d.log2 - 1 ≤ Int.log 2 ((n : ℚ) / d) ∧
      Int.log 2 ((n : ℚ) / d) < (n.log2 : Int) - d.log2 + 1 := by
  have positive := quotient_pos hn hd
  have hd' : (0 : ℚ) < d := by exact_mod_cast hd
  rw [← Int.zpow_le_iff_le_log (by decide) positive, ← Int.lt_zpow_iff_log_lt (by decide) positive]
  constructor
  · have top : (d : ℚ) ≤ 2 ^ (d.log2 + 1) := by exact_mod_cast Nat.lt_log2_self.le
    have bottom : (2 : ℚ) ^ n.log2 ≤ n := by exact_mod_cast Nat.log2_self_le hn.ne'
    calc ((2 : Nat) : ℚ) ^ ((n.log2 : Int) - d.log2 - 1) = 2 ^ n.log2 / 2 ^ (d.log2 + 1) := by
          rw [← zpow_natCast, ← zpow_natCast, ← zpow_sub₀ (by norm_num)]
          push_cast
          ring_nf
      _ ≤ n / d := by gcongr
  · have top : (n : ℚ) < 2 ^ (n.log2 + 1) := by exact_mod_cast Nat.lt_log2_self
    have bottom : (2 : ℚ) ^ d.log2 ≤ d := by exact_mod_cast Nat.log2_self_le hd.ne'
    calc (n : ℚ) / d < 2 ^ (n.log2 + 1) / 2 ^ d.log2 := by gcongr
      _ = (2 : Nat) ^ ((n.log2 : Int) - d.log2 + 1) := by
        rw [← zpow_natCast, ← zpow_natCast, ← zpow_sub₀ (by norm_num)]
        push_cast
        ring_nf

theorem binaryExponent_eq_log {n d : Nat} (hn : 0 < n) (hd : 0 < d) :
    binaryExponent n d = Int.log 2 ((n : ℚ) / d) := by
  obtain ⟨below, above⟩ := log_near hn hd
  have exact := scaleQuotient_ge_one_iff hn hd ((n.log2 : Int) - d.log2)
  unfold binaryExponent
  dsimp only
  split
  · next fits =>
    have := exact.mp fits
    omega
  · next fails =>
    have := mt exact.mpr fails
    omega

theorem roundQuotient_mul_left {k : Nat} (hk : 0 < k) (n d : Nat) :
    roundQuotient (k * n) (k * d) = roundQuotient n d := by
  unfold roundQuotient
  rw [Nat.mul_div_mul_left _ _ hk, Nat.mul_mod_mul_left, Nat.mul_left_comm 2 k]
  simp only [Nat.mul_lt_mul_left hk]

theorem roundQuotient_congr {n d n' d' : Nat} (hd : 0 < d) (hd' : 0 < d')
    (h : (n : ℚ) / d = n' / d') : roundQuotient n d = roundQuotient n' d' := by
  have cross : d' * n = d * n' := by
    have nonzero : (d : ℚ) ≠ 0 := by exact_mod_cast hd.ne'
    have nonzero' : (d' : ℚ) ≠ 0 := by exact_mod_cast hd'.ne'
    rw [div_eq_div_iff nonzero nonzero'] at h
    have swapped : (n : ℚ) * d' = n' * d := h
    have naturals : n * d' = n' * d := by exact_mod_cast swapped
    rw [Nat.mul_comm d', Nat.mul_comm d, naturals]
  rw [← roundQuotient_mul_left hd' n d, ← roundQuotient_mul_left hd n' d', cross,
    Nat.mul_comm d' d]

namespace Double

/-- **Equal quotients have the same nearest double.** -/
theorem ofQuotient_congr {n d n' d' : Nat} (negative : Bool) (hd : 0 < d) (hd' : 0 < d')
    (h : (n : ℚ) / d = n' / d') : ofQuotient negative n d = ofQuotient negative n' d' := by
  have zero : n = 0 ↔ n' = 0 := by
    have nonzero : (d : ℚ) ≠ 0 := by exact_mod_cast hd.ne'
    have nonzero' : (d' : ℚ) ≠ 0 := by exact_mod_cast hd'.ne'
    constructor
    · rintro rfl
      rw [Nat.cast_zero, zero_div, eq_comm, div_eq_zero_iff] at h
      exact_mod_cast h.resolve_right nonzero'
    · rintro rfl
      rw [Nat.cast_zero, zero_div, div_eq_zero_iff] at h
      exact_mod_cast h.resolve_right nonzero
  unfold ofQuotient
  by_cases none : n = 0
  · rw [if_pos none, if_pos (zero.mp none)]
  · have hn := Nat.pos_of_ne_zero none
    have hn' := Nat.pos_of_ne_zero (mt zero.mpr none)
    rw [if_neg none, if_neg (mt zero.mpr none)]
    dsimp only
    rw [binaryExponent_eq_log hn hd, binaryExponent_eq_log hn' hd', h]
    congr 1
    apply roundQuotient_congr (scaleQuotient_snd_pos n _ hd) (scaleQuotient_snd_pos n' _ hd')
    rw [scaleQuotient_value, scaleQuotient_value, h]

/-! ## Decimal numbers -/

theorem ofDecimal_eq_ofQuotient {negative : Bool} {a n d : Nat} {e : Int} (hd : 0 < d)
    (h : (a : ℚ) * 10 ^ e = n / d) : ofDecimal negative a e = ofQuotient negative n d := by
  unfold ofDecimal
  split
  · next nonneg =>
    obtain ⟨k, rfl⟩ := Int.eq_ofNat_of_zero_le nonneg
    refine ofQuotient_congr negative Nat.one_pos hd ?_
    rw [← h]
    simp
  · next below =>
    obtain ⟨k, rfl⟩ : ∃ k : Nat, e = -k := ⟨(-e).toNat, by omega⟩
    refine ofQuotient_congr negative (Nat.pow_pos (by decide)) hd ?_
    rw [← h]
    simp [div_eq_mul_inv]

theorem exists_quotient (a : Nat) (e : Int) : ∃ n d : Nat, 0 < d ∧ (a : ℚ) * 10 ^ e = n / d := by
  rcases Int.le_total 0 e with nonneg | below
  · obtain ⟨k, rfl⟩ := Int.eq_ofNat_of_zero_le nonneg
    exact ⟨a * 10 ^ k, 1, Nat.one_pos, by simp⟩
  · obtain ⟨k, rfl⟩ : ∃ k : Nat, e = -k := ⟨(-e).toNat, by omega⟩
    exact ⟨a, 10 ^ k, Nat.pow_pos (by decide), by simp [div_eq_mul_inv]⟩

/-- **Equal decimal numbers have the same nearest double.** -/
theorem ofDecimal_congr {a b : Nat} {e f : Int} (negative : Bool)
    (h : (a : ℚ) * 10 ^ e = b * 10 ^ f) : ofDecimal negative a e = ofDecimal negative b f := by
  obtain ⟨n, d, hd, value⟩ := exists_quotient b f
  rw [ofDecimal_eq_ofQuotient hd (h.trans value), ofDecimal_eq_ofQuotient hd value]

theorem ofDecimal_mul_pow (negative : Bool) (a k : Nat) (e : Int) :
    ofDecimal negative (a * 10 ^ k) e = ofDecimal negative a (e + k) := by
  apply ofDecimal_congr
  rw [zpow_add₀ (by norm_num), zpow_natCast, Nat.cast_mul, Nat.cast_pow]
  push_cast
  ring

@[simp] theorem ofDecimal_zero (negative : Bool) (e : Int) :
    ofDecimal negative 0 e = .finite negative 0 minExponent := by
  unfold ofDecimal ofQuotient
  split <;> simp

theorem ofDecimal_eq_finite_of_sign (negative : Bool) {a m : Nat} {e k : Int}
    (h : ofDecimal false a e = .finite false m k) :
    ofDecimal negative a e = .finite negative m k := by
  have rounded {n : Nat} {i : Int} (same : ofRounded false n i = .finite false m k) :
      ofRounded negative n i = .finite negative m k := by
    unfold ofRounded at same ⊢
    generalize (if n = _ then _ else _ : Nat × Int) = carried at same ⊢
    dsimp only at same ⊢
    split at same
    · cases same
    · next small =>
      rw [if_neg small]
      cases same
      rfl
  have quotient {n d : Nat} (same : ofQuotient false n d = .finite false m k) :
      ofQuotient negative n d = .finite negative m k := by
    unfold ofQuotient at same ⊢
    split at same
    · next zero =>
      rw [if_pos zero]
      cases same
      rfl
    · next other =>
      rw [if_neg other]
      exact rounded same
  unfold ofDecimal at h ⊢
  split at h
  · next whole =>
    rw [if_pos whole]
    exact quotient h
  · next fraction =>
    rw [if_neg fraction]
    exact quotient h

/-! ## Canonical doubles -/

/-- A finite double in the form that a rounded number takes: its significand has all its bits, or
its exponent is the smallest one. -/
inductive Canonical : Double → Prop where
  | mk (negative : Bool) {m : Nat} {e : Int} : m < 2 ^ precision → minExponent ≤ e →
      e ≤ maxExponent → 2 ^ (precision - 1) ≤ m ∨ e = minExponent →
      Canonical (.finite negative m e)

/-- a rounded significand of at most all bits gives a canonical double, unless it is too large -/
theorem canonical_ofRounded {m : Nat} {e : Int} (negative : Bool) (hm : m ≤ 2 ^ precision)
    (he : minExponent ≤ e) (full : 2 ^ (precision - 1) ≤ m ∨ e = minExponent) :
    (ofRounded negative m e).Canonical ∨ ofRounded negative m e = .infinite negative := by
  unfold ofRounded
  by_cases carry : m = Nat.pow 2 precision
  · rw [if_pos carry]
    dsimp only
    split
    · exact .inr rfl
    · next low =>
      refine .inl (.mk negative (by decide) ?_ (by omega) (.inl (by decide)))
      omega
  · rw [if_neg carry]
    dsimp only
    split
    · exact .inr rfl
    · next low => exact .inl (.mk negative (Nat.lt_of_le_of_ne hm carry) he (by omega) full)

theorem roundQuotient_le {n d k : Nat} (h : n < k * d) : roundQuotient n d ≤ k := by
  have quotient : n / d < k := Nat.div_lt_of_lt_mul (by rwa [Nat.mul_comm])
  unfold roundQuotient
  dsimp only
  repeat' split
  all_goals omega

theorem le_roundQuotient {n d k : Nat} (hd : 0 < d) (h : k * d ≤ n) : k ≤ roundQuotient n d := by
  have quotient : k ≤ n / d := (Nat.le_div_iff_mul_le hd).mpr h
  unfold roundQuotient
  dsimp only
  repeat' split
  all_goals omega

theorem scaleQuotient_lt {n d : Nat} (hn : 0 < n) (hd : 0 < d) {e : Int}
    (scale : Int.log 2 ((n : ℚ) / d) - (precision - 1 : Nat) ≤ e) :
    (scaleQuotient n d e).1 < 2 ^ precision * (scaleQuotient n d e).2 := by
  have positive : (0 : ℚ) < (scaleQuotient n d e).2 := by
    exact_mod_cast scaleQuotient_snd_pos n e hd
  have scaled : (n : ℚ) / d / 2 ^ e < 2 ^ precision := by
    have small : Int.log 2 ((n : ℚ) / d) < precision + e := by
      have : (precision : Int) = 53 := rfl
      have : ((precision - 1 : Nat) : Int) = 52 := rfl
      omega
    have below := (Int.lt_zpow_iff_log_lt (by decide) (quotient_pos hn hd)).mpr small
    rw [div_lt_iff₀ (zpow_pos (by norm_num) _), ← zpow_natCast, ← zpow_add₀ (by norm_num)]
    exact_mod_cast below
  rw [← scaleQuotient_value, div_lt_iff₀ positive] at scaled
  exact_mod_cast scaled

/-- at the scale that its logarithm asks for a quotient has all bits of a significand -/
theorem le_scaleQuotient {n d : Nat} (hn : 0 < n) (hd : 0 < d) {e : Int}
    (scale : e ≤ Int.log 2 ((n : ℚ) / d) - (precision - 1 : Nat)) :
    2 ^ (precision - 1) * (scaleQuotient n d e).2 ≤ (scaleQuotient n d e).1 := by
  have positive : (0 : ℚ) < (scaleQuotient n d e).2 := by
    exact_mod_cast scaleQuotient_snd_pos n e hd
  have scaled : (2 : ℚ) ^ (precision - 1) ≤ n / d / 2 ^ e := by
    have large : ((precision - 1 : Nat) : Int) + e ≤ Int.log 2 ((n : ℚ) / d) := by omega
    have above := (Int.zpow_le_iff_le_log (by decide) (quotient_pos hn hd)).mpr large
    rw [le_div_iff₀ (zpow_pos (by norm_num) _), ← zpow_natCast, ← zpow_add₀ (by norm_num)]
    exact_mod_cast above
  rw [← scaleQuotient_value, le_div_iff₀ positive] at scaled
  exact_mod_cast scaled

theorem canonical_ofQuotient (negative : Bool) (n : Nat) {d : Nat} (hd : 0 < d) :
    (ofQuotient negative n d).Canonical ∨ ofQuotient negative n d = .infinite negative := by
  unfold ofQuotient
  split
  · exact .inl (.mk negative (by decide) (by decide) (by decide) (.inr rfl))
  · next nonzero =>
    have hn := Nat.pos_of_ne_zero nonzero
    rw [binaryExponent_eq_log hn hd]
    dsimp only
    refine canonical_ofRounded negative (roundQuotient_le ?_) (le_max_right _ _) ?_
    · exact scaleQuotient_lt hn hd (le_max_left _ _)
    · rcases Int.le_total (Int.log 2 ((n : ℚ) / d) - (precision - 1 : Nat)) minExponent with
        small | large
      · exact .inr (max_eq_right small)
      · rw [max_eq_left large]
        exact .inl (le_roundQuotient (scaleQuotient_snd_pos n _ hd)
          (le_scaleQuotient hn hd (Int.le_refl _)))

/-- **A decimal number gives a canonical double**, unless it is too large. -/
theorem canonical_ofDecimal (negative : Bool) (a : Nat) (e : Int) :
    (ofDecimal negative a e).Canonical ∨ ofDecimal negative a e = .infinite negative := by
  unfold ofDecimal
  split
  · exact canonical_ofQuotient negative _ Nat.one_pos
  · exact canonical_ofQuotient negative _ (Nat.pow_pos (by decide))

/-! ## Exact decimals -/

theorem roundQuotient_one (n : Nat) : roundQuotient n 1 = n := by
  simp [roundQuotient, Nat.mod_one]

theorem Canonical.scale_eq {negative : Bool} {m : Nat} {e : Int}
    (h : Canonical (.finite negative m e)) (hm : 0 < m) :
    max (Int.log 2 ((m : ℚ) * 2 ^ e) - (precision - 1 : Nat)) minExponent = e := by
  cases h with
  | mk _ short low high full =>
    have power : (0 : ℚ) < 2 ^ e := zpow_pos (by norm_num) _
    have positive : (0 : ℚ) < m * 2 ^ e := mul_pos (by exact_mod_cast hm) power
    have bits : (precision : Int) = 53 ∧ ((precision - 1 : Nat) : Int) = 52 := ⟨rfl, rfl⟩
    have below : Int.log 2 ((m : ℚ) * 2 ^ e) < e + precision := by
      rw [← Int.lt_zpow_iff_log_lt (by decide) positive, zpow_add₀ (by norm_num), mul_comm]
      have bound : (m : ℚ) < ((2 : Nat) : ℚ) ^ (precision : Int) := by exact_mod_cast short
      push_cast at bound ⊢
      gcongr
    rcases full with all | smallest
    · have above : e + (precision - 1 : Nat) ≤ Int.log 2 ((m : ℚ) * 2 ^ e) := by
        rw [← Int.zpow_le_iff_le_log (by decide) positive, zpow_add₀ (by norm_num), mul_comm]
        have bound : ((2 : Nat) : ℚ) ^ ((precision - 1 : Nat) : Int) ≤ m := by exact_mod_cast all
        push_cast at bound ⊢
        gcongr
      omega
    · omega

theorem ofQuotient_eq_finite {negative : Bool} {m n d : Nat} {e : Int}
    (h : Canonical (.finite negative m e)) (hm : 0 < m) (hd : 0 < d)
    (value : (n : ℚ) / d = m * 2 ^ e) : ofQuotient negative n d = .finite negative m e := by
  have power : (0 : ℚ) < 2 ^ e := zpow_pos (by norm_num) _
  have hn : n ≠ 0 := by
    rintro rfl
    have positive : (0 : ℚ) < m * 2 ^ e := mul_pos (by exact_mod_cast hm) power
    simp [← value] at positive
  have scale := h.scale_eq hm
  rw [← value] at scale
  have rounded : roundQuotient (scaleQuotient n d e).1 (scaleQuotient n d e).2 = m := by
    rw [← roundQuotient_one m]
    apply roundQuotient_congr (scaleQuotient_snd_pos n e hd) Nat.one_pos
    rw [scaleQuotient_value, value, Nat.cast_one, div_one, mul_div_cancel_right₀ _ power.ne']
  unfold ofQuotient
  rw [if_neg hn, binaryExponent_eq_log (Nat.pos_of_ne_zero hn) hd]
  dsimp only
  rw [scale, rounded]
  cases h with
  | mk _ short low high full =>
    have noCarry : m ≠ Nat.pow 2 precision := short.ne
    unfold ofRounded
    rw [if_neg noCarry, if_neg (not_lt.mpr high)]

end Double

/-- **The decimal number that a canonical double is gives this double again.** -/
theorem Decimal.toDouble_exact {m : Nat} {e : Int} (h : Double.Canonical (.finite false m e))
    (hm : 0 < m) : (Decimal.exact m e).toDouble = .finite false m e := by
  unfold Decimal.exact Decimal.toDouble Double.ofDecimal
  split
  · next nonneg =>
    obtain ⟨k, rfl⟩ := Int.eq_ofNat_of_zero_le nonneg
    rw [if_pos (Int.le_refl 0)]
    exact Double.ofQuotient_eq_finite h hm Nat.one_pos (by simp)
  · next below =>
    obtain ⟨k, rfl⟩ : ∃ k : Nat, e = -k := ⟨(-e).toNat, by omega⟩
    refine Double.ofQuotient_eq_finite h hm (Nat.pow_pos (by decide)) ?_
    have ten : (10 : ℚ) ^ k = 5 ^ k * 2 ^ k := by rw [← mul_pow]; norm_num
    simp only [neg_neg, Int.toNat_natCast, Nat.pow_eq, Nat.cast_mul, Nat.cast_pow, zpow_neg,
      zpow_natCast, Nat.cast_ofNat, ten]
    field_simp

end Scim.Number
