/-!
# Double precision numbers

A finite double is `± m * 2 ^ e` with `m < 2 ^ 53` and `-1074 ≤ e ≤ 971`; the representation is
canonical when `2 ^ 52 ≤ m` or `e = -1074`.  All arithmetic here is exact, on natural numbers.

* `Double`                the finite doubles with the two infinities and the undefined value;
* `Double.ofQuotient`     the double nearest to a quotient, a tie going to the even significand;
* `Double.ofDecimal`      the double nearest to a decimal number;
* `Double.dyadic?`        the exact value of a finite double;
* `Double.same`           equality as numbers: `0.0` is `-0.0`, and the undefined value equals
                          nothing.
-/

namespace Scim.Number

/-- The whole numbers of 64 bits go from minus this number to below it. -/
def wordBound : Int := 0x8000000000000000

/-- A double precision number. -/
inductive Double where
  | finite (negative : Bool) (significand : Nat) (exponent : Int)
  | infinite (negative : Bool)
  | undefined
  deriving DecidableEq, Repr, Inhabited

/-- The natural number nearest to `n / d`, a tie going to the even one. -/
def roundQuotient (n d : Nat) : Nat :=
  let low := n / d
  let twice := 2 * (n % d)
  if twice < d then low
  else if d < twice then low + 1
  else if low % 2 = 0 then low else low + 1

/-- The quotient `n / d` scaled by `2 ^ (-e)`, as a pair of numerator and denominator. -/
def scaleQuotient (n d : Nat) (e : Int) : Nat × Nat :=
  if 0 ≤ e then (n, d * Nat.pow 2 e.toNat) else (n * Nat.pow 2 (-e).toNat, d)

/-- The largest exponent of a power of two that is at most `n / d`. -/
def binaryExponent (n d : Nat) : Int :=
  let guess : Int := (n.log2 : Int) - (d.log2 : Int)
  let scaled := scaleQuotient n d guess
  if scaled.2 ≤ scaled.1 then guess else guess - 1

namespace Double

/-- The number of bits of a significand. -/
def precision : Nat := 53

/-- The exponent of the smallest positive double. -/
def minExponent : Int := -1074

/-- The exponent of the largest finite doubles. -/
def maxExponent : Int := 971

/-- A rounded significand at its exponent; a carry moves to the next exponent, and beyond the
largest exponent the number is infinite. -/
def ofRounded (negative : Bool) (m : Nat) (e : Int) : Double :=
  let carried : Nat × Int :=
    if m = Nat.pow 2 precision then (Nat.pow 2 (precision - 1), e + 1) else (m, e)
  if maxExponent < carried.2 then .infinite negative else .finite negative carried.1 carried.2

/-- The double nearest to `n / d`. -/
def ofQuotient (negative : Bool) (n d : Nat) : Double :=
  if n = 0 then .finite negative 0 minExponent
  else
    let e := max (binaryExponent n d - (precision - 1 : Nat)) minExponent
    let scaled := scaleQuotient n d e
    ofRounded negative (roundQuotient scaled.1 scaled.2) e

/-- The double nearest to `digits * 10 ^ exponent`. -/
def ofDecimal (negative : Bool) (digits : Nat) (exponent : Int) : Double :=
  if 0 ≤ exponent then ofQuotient negative (digits * Nat.pow 10 exponent.toNat) 1
  else ofQuotient negative digits (Nat.pow 10 (-exponent).toNat)

end Double

namespace Double

/-- The exact value of a finite double. -/
def dyadic? : Double → Option Dyadic
  | .finite negative m e => some (.ofIntWithPrec (if negative then -m else m) (-e))
  | _ => none

/-- Equality as numbers. -/
def same : Double → Double → Bool
  | .infinite a, .infinite b => a == b
  | x, y =>
    match x.dyadic?, y.dyadic? with
    | some a, some b => decide (a = b)
    | _, _ => false

/-- Whether a finite double is a whole number, and which one. -/
def toInt? : Double → Option Int
  | .finite negative m e =>
    let sign : Int := if negative then -1 else 1
    if 0 ≤ e then some (sign * (m * Nat.pow 2 e.toNat : Nat))
    else if m % Nat.pow 2 (-e).toNat = 0 then some (sign * (m / Nat.pow 2 (-e).toNat : Nat))
    else none
  | _ => none

end Double

end Scim.Number
