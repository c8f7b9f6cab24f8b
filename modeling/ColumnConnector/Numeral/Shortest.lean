import ColumnConnector.Numeral.Binary64

/-!
# The shortest digits that read back

A positive finite double is written with the fewest decimal digits from which it can be read back,
and of the numbers with that many digits with the one closest to it.  For each digit count the two
neighbours of the double on the decimal grid of that count are tried.
-/

namespace ColumnConnector

/-- A positive decimal fraction: the digits stand right behind the point, which is then moved
`point` places. -/
structure Scientific where
  digits : List Nat
  point : Int
deriving DecidableEq, Repr

/-- Which of two equally close neighbours is taken. -/
inductive Tie where
  | up
  | toEven
deriving DecidableEq, Repr

namespace Binary64

/-- The exponent of the leading decimal digit of `num / den`. -/
def leadingExponent (num den : Nat) : Int :=
  if den ≤ num then (Decimal.digits (num / den)).length - 1
  else -(Decimal.digits ((den - 1) / num)).length

/-- The neighbour of the magnitude `m` on the grid of the multiples of `10 ^ k` that reads back as
`m`, the closer one if both do. -/
def onGrid? (tie : Tie) (m : Nat) (k : Int) : Option Nat :=
  let num := units m * Nat.pow 10 (-k).toNat
  let den := one * Nat.pow 10 k.toNat
  let low := num / den
  let rest := num % den
  match nearestDecimal low k == m, nearestDecimal (low + 1) k == m with
  | false, false => none
  | true, false => some low
  | false, true => some (low + 1)
  | true, true =>
    if 2 * rest < den then some low
    else if den < 2 * rest then some (low + 1)
    else match tie with
      | .up => some (low + 1)
      | .toEven => some (low + low % 2)

/-- The number without its final zeros, as a fraction. -/
def scientific (n : Nat) (k : Int) : Scientific :=
  let ds := Decimal.digits n
  ⟨(ds.reverse.dropWhile (· == 0)).reverse, ds.length + k⟩

/-- The shortest digits of the magnitude `m`. -/
def shortest (tie : Tie) (m : Nat) : Scientific :=
  let leading := leadingExponent (units m) one
  let grids := (List.range' 1 17).map fun (count : Nat) => leading - count + 1
  match grids.findSome? fun k => (onGrid? tie m k).map fun n => scientific n k with
  | some s => s
  | none => ⟨[], 0⟩

end Binary64

end ColumnConnector
