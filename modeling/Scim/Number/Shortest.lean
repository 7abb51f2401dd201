import Scim.Number.Double

/-!
# The shortest decimal of a double

Of the decimal numbers that read back as a given double, the shortest is the one with the fewest
digits, and of those the one nearest to the double.

* `Decimal`                  a number `digits * 10 ^ exponent`;
* `Decimal.exact`            the decimal number that a finite positive double is;
* `Decimal.candidates`       its two neighbours with `k` digits, the nearer one first;
* `Decimal.shortest`         the first candidate that reads back;
* `Layout`                   how a decimal number is written;
* `Double.text`              the layout of this library: positional for exponents from -4 to 15.
-/

namespace Scim.Number

/-- The number `digits * 10 ^ exponent`. -/
structure Decimal where
  digits : Nat
  exponent : Int
  deriving DecidableEq, Repr, Inhabited

/-- The decimal digits of a number, the most significant first. -/
def decimalDigits (n : Nat) : List Char := Nat.toDigits 10 n

namespace Decimal

/-- The decimal number that `m * 2 ^ e` is. -/
def exact (m : Nat) (e : Int) : Decimal :=
  if 0 ≤ e then ⟨m * Nat.pow 2 e.toNat, 0⟩ else ⟨m * Nat.pow 5 (-e).toNat, e⟩

/-- The double nearest to a decimal number. -/
def toDouble (d : Decimal) : Double := .ofDecimal false d.digits d.exponent

/-- The two neighbours of `d` among the numbers that leave out its last `cut` digits, the nearer
one first; of two equally near ones the even one comes first. -/
def neighbours (d : Decimal) (cut : Nat) : List Decimal :=
  let unit := Nat.pow 10 cut
  let low : Decimal := ⟨d.digits / unit, d.exponent + cut⟩
  let high : Decimal := ⟨d.digits / unit + 1, d.exponent + cut⟩
  let twice := 2 * (d.digits % unit)
  if twice < unit then [low, high]
  else if unit < twice then [high, low]
  else if low.digits % 2 = 0 then [low, high] else [high, low]

/-- The neighbours with `k` digits, if `d` has more digits than that. -/
def candidates (d : Decimal) (k : Nat) : List Decimal :=
  let size := (decimalDigits d.digits).length
  if k < size then d.neighbours (size - k) else []

/-- The largest number of digits that a double needs. -/
def maxDigits : Nat := 17

/-- The shortest decimal number that reads back as `m * 2 ^ e`. -/
def shortest (m : Nat) (e : Int) : Decimal :=
  let d := exact m e
  let readsBack (c : Decimal) : Bool := decide (c.toDouble = .finite false m e)
  ((List.range maxDigits).findSome? fun k => (d.candidates (k + 1)).find? readsBack).getD d

end Decimal

/-- How a decimal number is written.  The exponent meant here is the one of the first digit. -/
structure Layout where
  /-- The smallest exponent written positionally. -/
  minPositional : Int
  /-- The largest exponent written positionally. -/
  maxPositional : Int
  /-- The smallest number of digits of a written exponent. -/
  exponentDigits : Nat

namespace Layout

/-- Positional notation: the point after `point` digits, and a zero where no digit is left. -/
def positional (ds : List Char) (point : Int) : List Char :=
  if point ≤ 0 then '0' :: '.' :: List.replicate (-point).toNat '0' ++ ds
  else
    let whole := point.toNat
    if ds.length ≤ whole then ds ++ List.replicate (whole - ds.length) '0' ++ ['.', '0']
    else ds.take whole ++ '.' :: ds.drop whole

/-- Exponent notation: one digit before the point, and no point if no other digit follows. -/
def scientific (layout : Layout) (ds : List Char) (exponent : Int) : List Char :=
  let lead := match ds with
    | [] => []
    | [c] => [c]
    | c :: more => c :: '.' :: more
  let size := decimalDigits exponent.natAbs
  lead ++ 'e' :: (if exponent < 0 then '-' else '+') ::
    List.replicate (layout.exponentDigits - size.length) '0' ++ size

/-- A positive decimal number without the zeros at the end of its digits. -/
def render (layout : Layout) (d : Decimal) : List Char :=
  let all := decimalDigits d.digits
  let ds := (all.reverse.dropWhile (· == '0')).reverse
  let point : Int := all.length + d.exponent
  let exponent := point - 1
  if layout.minPositional ≤ exponent ∧ exponent ≤ layout.maxPositional then positional ds point
  else layout.scientific ds exponent

end Layout

namespace Double

/-- Decimal numbers are positional from `0.0001` to below `10 ^ 16`; a written exponent has a sign
and at least two digits. -/
def layout : Layout := ⟨-4, 15, 2⟩

/-- The text of a double, given the words for an infinite and for the undefined value. -/
def textWith (infinity undefinedWord : List Char) : Double → List Char
  | .finite negative m e =>
    let sign := if negative then ['-'] else []
    if m = 0 then sign ++ ['0', '.', '0'] else sign ++ layout.render (Decimal.shortest m e)
  | .infinite negative => (if negative then ['-'] else []) ++ infinity
  | .undefined => undefinedWord

/-- The text of a double. -/
def text (x : Double) : String := String.ofList (x.textWith ['i', 'n', 'f'] ['n', 'a', 'n'])

end Double

end Scim.Number
