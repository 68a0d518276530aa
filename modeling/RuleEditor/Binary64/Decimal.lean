import RuleEditor.Binary64.Basic

/-!
# Decimal numbers and their nearest binary ones

**Reading.** `Decimal.nearest` gives the binary number nearest to a decimal one; a decimal that
lies half way between two goes to the one with the even significand, and one beyond the largest
finite number goes to infinity.

**Writing.** `Binary64.shortest` gives the decimal with the fewest digits that reads back, and of
two such decimals the nearer one; a `Tie` says which one it is if both are equally near. For one
digit, two digits and so on it tries the two neighbours of the number on the decimal grid of that
many digits.

All of it is exact arithmetic on natural numbers.
-/

namespace RuleEditor

/-- The number of decimal digits of `n`; zero has one. -/
def digitCount (n : Nat) : Nat := (Nat.toDigits 10 n).length

/-- The decimal number `digits * 10 ^ exponent`. -/
structure Decimal where
  digits : Nat
  exponent : Int
  deriving DecidableEq

/-- Where a number half way between two whole numbers goes: to the even one, or to the larger. -/
inductive Tie where
  | toEven
  | up

/-- A positive fraction, which scales by powers without rounding. -/
structure Ratio where
  num : Nat
  den : Nat

namespace Ratio

/-- The ratio divided by `base ^ exponent`. -/
def shift (base : Nat) (exponent : Int) (r : Ratio) : Ratio :=
  ⟨r.num * Nat.pow base (-exponent).toNat, r.den * Nat.pow base exponent.toNat⟩

def floor (r : Ratio) : Nat := r.num / r.den

/-- The nearest whole number. -/
def round (tie : Tie) (r : Ratio) : Nat :=
  let whole := r.num / r.den
  let twice := 2 * (r.num % r.den)
  if twice < r.den then whole
  else if r.den < twice then whole + 1
  else match tie with
    | .toEven => whole + whole % 2
    | .up => whole + 1

/-- The exponent of the largest power of two that is at most `r`. -/
def log2 (r : Ratio) : Int :=
  let estimate : Int := r.num.log2 - r.den.log2
  let scaled := r.shift 2 estimate
  if scaled.den ≤ scaled.num then estimate else estimate - 1

/-- The exponent of the smallest power of ten above `r`. -/
def ceilLog10 (r : Ratio) : Int :=
  let estimate : Int := digitCount r.num - digitCount r.den
  let scaled := r.shift 10 estimate
  if scaled.den ≤ scaled.num then estimate + 1 else estimate

/-- The magnitude of the binary number nearest to `r`. Below the normal range the grid of
significands stops getting finer; a significand that rounds up to the next power of two carries
into the exponent bits, which is the next binary number. -/
def magnitude (r : Ratio) : Nat :=
  if r.num = 0 then 0
  else
    let power := max (-1074) (r.log2 - 52)
    min Binary64.limit ((power + 1074).toNat * Binary64.unit + (r.shift 2 power).round .toEven)

theorem magnitude_le (r : Ratio) : r.magnitude ≤ Binary64.limit := by
  unfold magnitude
  split
  · exact Nat.zero_le _
  · exact Nat.min_le_left _ _

end Ratio

namespace Decimal

def ratio (d : Decimal) : Ratio := Ratio.shift 10 (-d.exponent) ⟨d.digits, 1⟩

/-- The magnitude of the nearest binary number. A decimal of at least `10 ^ 309` is beyond every
finite number and one below `10 ^ -324` is nearest to zero, which saves scaling them. -/
def magnitude (d : Decimal) : Nat :=
  let leading := d.exponent + digitCount d.digits
  if d.digits = 0 then 0
  else if 309 < leading then Binary64.limit
  else if leading ≤ -324 then 0
  else d.ratio.magnitude

theorem magnitude_le (d : Decimal) : d.magnitude ≤ Binary64.limit := by
  unfold magnitude
  dsimp only
  split
  · exact Nat.zero_le _
  split
  · exact Nat.le_refl _
  split
  · exact Nat.zero_le _
  · exact d.ratio.magnitude_le

/-- The binary number nearest to the decimal, with the given sign. -/
def nearest (negative : Bool) (d : Decimal) : Binary64 :=
  ⟨negative, ⟨d.magnitude, Nat.lt_of_le_of_lt d.magnitude_le (by decide)⟩⟩

/-- The same number without zeros at the end of the digits; zero is `0 * 10 ^ 0`. -/
def trim (d : Decimal) : Decimal :=
  let zeros := ((Nat.toDigits 10 d.digits).reverse.takeWhile (· == '0')).length
  if d.digits = 0 then ⟨0, 0⟩ else ⟨d.digits / Nat.pow 10 zeros, d.exponent + zeros⟩

end Decimal

namespace Binary64

/-- The magnitude of a finite number as a fraction. -/
def ratio (x : Binary64) : Ratio := Ratio.shift 2 (-x.power) ⟨x.significand, 1⟩

/-- The magnitude of a finite number with all its decimal digits. -/
def exact (x : Binary64) : Decimal :=
  if 0 ≤ x.power then ⟨x.significand * Nat.pow 2 x.power.toNat, 0⟩
  else ⟨x.significand * Nat.pow 5 (-x.power).toNat, x.power⟩

/-- The decimal of `count` digits that reads back as the magnitude of `x`, the nearer one if both
neighbours on the grid do. -/
def withDigits (tie : Tie) (x : Binary64) (count : Nat) : Option Decimal :=
  let exponent := x.ratio.ceilLog10 - count
  let scaled := x.ratio.shift 10 exponent
  let below : Decimal := ⟨scaled.floor, exponent⟩
  let above : Decimal := ⟨scaled.floor + 1, exponent⟩
  let near : Decimal := ⟨scaled.round tie, exponent⟩
  let reads (d : Decimal) : Bool := d.magnitude = x.magnitude
  if reads below && reads above then some near
  else if reads below then some below
  else if reads above then some above
  else none

/-- The shortest decimal that reads back as the magnitude of `x`. Seventeen digits are enough for
every number. -/
def shortest (tie : Tie) (x : Binary64) : Decimal :=
  ((List.range 17).findSome? fun i => x.withDigits tie (i + 1)).getD x.exact |>.trim

end Binary64

end RuleEditor
