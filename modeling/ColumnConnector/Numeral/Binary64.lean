import ColumnConnector.Numeral.Decimal

/-!
# Binary floating-point numbers

A double is its 64 bits: a sign, an exponent field and a fraction.  All arithmetic on them is
exact arithmetic on natural numbers, in units of 2⁻¹⁰⁷⁴, of which every finite double is a whole
number.

`units` gives the number of units of a magnitude (the bits without the sign) and `nearest` the
magnitude closest to a quotient of units, an exact half going to the even magnitude.
-/

namespace ColumnConnector

/-- A double-precision number, by its bits. -/
structure Binary64 where
  bits : UInt64
deriving DecidableEq, Repr

namespace Binary64

/-- The number of units in one. -/
def one : Nat := Nat.pow 2 1074

/-- The weight of the sign bit. -/
def signWeight : Nat := 0x8000000000000000

/-- The weight of the lowest exponent bit: fractions lie below it. -/
def fractionSize : Nat := 0x10000000000000

/-- The magnitude of infinity; the greater ones are not numbers. -/
def infinity : Nat := 0x7ff0000000000000

/-- The magnitude of the default value that is not a number. -/
def quietNaN : Nat := 0x7ff8000000000000

def magnitude (x : Binary64) : Nat := x.bits.toNat % signWeight

def isNegative (x : Binary64) : Bool := signWeight ≤ x.bits.toNat

def isNaN (x : Binary64) : Bool := infinity < x.magnitude

def isFinite (x : Binary64) : Bool := x.magnitude < infinity

def ofMagnitude (negative : Bool) (m : Nat) : Binary64 :=
  ⟨UInt64.ofNat (if negative then signWeight + m else m)⟩

/-- Equality as numbers: the two zeros are equal, and what is not a number equals nothing. -/
def sameNumber (x y : Binary64) : Bool :=
  !x.isNaN && !y.isNaN && (x.bits == y.bits || (x.magnitude == 0 && y.magnitude == 0))

/-- How many units the finite magnitude `m` stands for. -/
def units (m : Nat) : Nat :=
  let field := m / fractionSize
  let fraction := m % fractionSize
  if field = 0 then fraction else (fractionSize + fraction) * Nat.pow 2 (field - 1)

/-- The whole number closest to `num / den`, the even one of two. -/
def roundHalfEven (num den : Nat) : Nat :=
  let whole := num / den
  let rest := num % den
  if 2 * rest < den then whole
  else if 2 * rest = den then whole + whole % 2
  else whole + 1

/-- The magnitude closest to `num / den` units. -/
def nearest (num den : Nat) : Nat :=
  let shift := Nat.log2 (num / den) - 52
  min infinity (shift * fractionSize + roundHalfEven num (den * Nat.pow 2 shift))

/-- The double closest to an integer. -/
def ofInt (n : Int) : Binary64 := ofMagnitude (n < 0) (nearest (n.natAbs * one) 1)

/-- The magnitude closest to `mantissa * 10 ^ exponent`.  Far outside the range of the doubles the
answer is known without the power. -/
def nearestDecimal (mantissa : Nat) (exponent : Int) : Nat :=
  let top := exponent + (Decimal.digits mantissa).length
  if mantissa = 0 ∨ top < -330 then 0
  else if 310 < top then infinity
  else nearest (mantissa * one * Nat.pow 10 exponent.toNat) (Nat.pow 10 (-exponent).toNat)

end Binary64

end ColumnConnector
