import ProcedureGen.Text

/-!
# Binary floating point

Finite numbers of 64-bit binary floating point, in exact arithmetic on natural numbers.

* `Double.ofRatio?`: the number nearest to a ratio, ties to even;
* `Double.ofDecimal?`: a whole number times a power of ten, rounded step by step;
* `Double.shortest`: the fewest decimal digits that lead back to a number.
-/

namespace ProcedureGen

/-- The finite number `mantissa * 2 ^ exponent`, not below zero. -/
structure Double where
  mantissa : Nat
  exponent : Int
  deriving DecidableEq, Repr

namespace Double

/-- The least exponent. -/
def minExponent : Int := -1074

/-- The greatest exponent. -/
def maxExponent : Int := 971

def zero : Double := ⟨0, minExponent⟩

/-! ## Rounding -/

/-- A quotient rounded to the nearest whole number, ties to even. -/
def roundDiv (n d : Nat) : Nat :=
  if 2 * (n % d) < d ∨ (2 * (n % d) = d ∧ n / d % 2 = 0) then n / d else n / d + 1

/-- A power of a base; negative exponents give 1. -/
def power (base : Nat) (exponent : Int) : Nat := Nat.pow base exponent.toNat

/-- The exponent at which the ratio `n / d` has 53 binary digits, or the least one. -/
def scale (n d : Nat) : Int :=
  let low := max minExponent ((n.log2 : Int) - d.log2 - 53)
  if d * power 2 low * power 2 53 ≤ n * power 2 (-low) then low + 1 else low

/-- The number nearest to `n / d`; none if it is out of range. -/
def ofRatio? (n d : Nat) : Option Double :=
  if n = 0 then some zero
  else
    let e := scale n d
    let m := roundDiv (n * power 2 (-e)) (d * power 2 e)
    let x : Double := if m = power 2 53 then ⟨power 2 52, e + 1⟩ else ⟨m, e⟩
    if x.exponent ≤ maxExponent then some x else none

/-- A number as a ratio. -/
def numerator (x : Double) : Nat := x.mantissa * power 2 x.exponent

def denominator (x : Double) : Nat := power 2 (-x.exponent)

def mul? (x y : Double) : Option Double :=
  ofRatio? (x.numerator * y.numerator) (x.denominator * y.denominator)

def div? (x y : Double) : Option Double :=
  ofRatio? (x.numerator * y.denominator) (x.denominator * y.numerator)

/-! ## From decimals -/

/-- The greatest power of ten in range. -/
def maxPower : Nat := 308

/-- The number nearest to a power of ten. -/
def powerOfTen? (k : Nat) : Option Double := ofRatio? (power 10 k) 1

/-- `significand * 10 ^ exponent`, where the significand, the power and the result are each rounded.
A power too small to be a number is divided by in two steps, after which nothing is left. -/
def ofDecimal? (significand : Nat) (exponent : Int) : Option Double := do
  let x ← ofRatio? significand 1
  let k := exponent.natAbs
  if x = zero then some zero
  else if 0 ≤ exponent then
    if k ≤ maxPower then x.mul? (← powerOfTen? k) else none
  else if k ≤ maxPower then x.div? (← powerOfTen? k)
  else if k ≤ 2 * maxPower then
    (← x.div? (← powerOfTen? maxPower)).div? (← powerOfTen? (k - maxPower))
  else some zero

/-! ## To decimals -/

/-- The decimal number `digits * 10 ^ exponent`. -/
structure Decimal where
  digits : Nat
  exponent : Int
  deriving DecidableEq, Repr

namespace Decimal

def numerator (d : Decimal) : Nat := d.digits * power 10 d.exponent

def denominator (d : Decimal) : Nat := power 10 (-d.exponent)

end Decimal

/-- Whether a decimal is rounded to the number. -/
def isNearest (x : Double) (d : Decimal) : Bool := ofRatio? d.numerator d.denominator = some x

/-- The least `k` with `x < 10 ^ k`, for a number other than zero. -/
def magnitude (x : Double) : Int :=
  let n := x.numerator
  let d := x.denominator
  if d ≤ n then (Nat.toDigits 10 (n / d)).length
  else 1 - (Nat.toDigits 10 ((d - 1) / n)).length

/-- The decimal with a given number of digits that leads back to the number, if there is one; of two
the nearer, and of two equally near the even one. -/
def decimalOfLength? (x : Double) (length : Nat) : Option Decimal :=
  let e := x.magnitude - length
  -- The number in units of the last digit, as a ratio.
  let n := x.numerator * power 10 (-e)
  let d := x.denominator * power 10 e
  let below : Decimal := ⟨n / d, e⟩
  let above : Decimal := ⟨n / d + 1, e⟩
  match x.isNearest below, x.isNearest above with
  | true, true => some (if roundDiv n d = below.digits then below else above)
  | true, false => some below
  | false, true => some above
  | false, false => none

/-- The shortest decimal that leads back to the number.  Seventeen digits always do. -/
def shortest (x : Double) : Decimal :=
  if x.mantissa = 0 then ⟨0, 0⟩
  else ((List.range' 1 17).findSome? x.decimalOfLength?).getD ⟨x.mantissa, 0⟩

end Double

end ProcedureGen
