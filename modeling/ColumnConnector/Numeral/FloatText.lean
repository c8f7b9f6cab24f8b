import ColumnConnector.Numeral.Shortest

/-!
# Doubles as text

A double is written with its shortest digits, either positionally or with an exponent.  What is
left to choose is one `FloatLayout`: the range of exponents written positionally, what follows a
whole number, and which way an exact tie goes.

Reading takes an optional sign, digits with at most one point, and an optional exponent, or one
of the names of the infinities and of what is not a number, in any case.
-/

namespace ColumnConnector

/-- The choices that a written form of doubles makes. -/
structure FloatLayout where
  /-- Is a number with this exponent of its leading digit written without an exponent? -/
  positional : Int → Bool
  /-- What follows the digits of a whole number. -/
  wholeEnd : List Char
  tie : Tie

namespace FloatLayout

/-- Never an exponent, and nothing behind a whole number. -/
def plain : FloatLayout := ⟨fun _ => true, [], .up⟩

/-- An exponent outside -5 to 15, and always a fraction. -/
def exchange : FloatLayout := ⟨fun e => -5 ≤ e && e ≤ 15, ['.', '0'], .toEven⟩

/-- A positive number in positional form. -/
def placed (layout : FloatLayout) (s : Scientific) : List Char :=
  let count := s.digits.length
  if s.point ≤ 0 then
    '0' :: '.' :: (List.replicate (-s.point).toNat '0' ++ Decimal.chars s.digits)
  else if count ≤ s.point.toNat then
    Decimal.chars s.digits ++ List.replicate (s.point.toNat - count) '0' ++ layout.wholeEnd
  else
    Decimal.chars (s.digits.take s.point.toNat) ++
      '.' :: Decimal.chars (s.digits.drop s.point.toNat)

/-- A positive number with an exponent: one digit before the point, a sign in the exponent. -/
def powered (s : Scientific) : List Char :=
  let exponent := s.point - 1
  let fraction := s.digits.drop 1
  Decimal.chars (s.digits.take 1) ++
    (if fraction.isEmpty then [] else '.' :: Decimal.chars fraction) ++
    ['e', if exponent < 0 then '-' else '+'] ++
    Decimal.chars (Decimal.digits exponent.natAbs)

/-- The characters of a finite magnitude. -/
def finiteChars (layout : FloatLayout) (m : Nat) : List Char :=
  if m = 0 then '0' :: layout.wholeEnd
  else
    let s := Binary64.shortest layout.tie m
    if layout.positional (s.point - 1) then layout.placed s else powered s

/-- The text of a double. -/
def write (layout : FloatLayout) (x : Binary64) : String :=
  if x.isNaN then "NaN"
  else
    let body := if x.isFinite then layout.finiteChars x.magnitude else ['i', 'n', 'f']
    String.ofList (if x.isNegative then '-' :: body else body)

end FloatLayout

/-- Why a text is not a double. -/
inductive FloatFault where
  | empty
  | invalid
deriving DecidableEq, Repr

namespace FloatFault

def message : FloatFault → String
  | .empty => "cannot parse float from empty string"
  | .invalid => "invalid float literal"

end FloatFault

namespace Binary64

def isDigit (c : Char) : Bool := (Decimal.digit? c).isSome

/-- The digits of characters that are digits. -/
def digitsOf (cs : List Char) : List Nat := cs.filterMap Decimal.digit?

/-- The power of ten behind the exponent letter, if the characters are one. -/
def readExponent? : List Char → Option Int
  | [] => some 0
  | c :: rest =>
    if c = 'e' ∨ c = 'E' then
      let (negative, ds) : Bool × List Char :=
        match rest with
        | '-' :: ds => (true, ds)
        | '+' :: ds => (false, ds)
        | ds => (false, ds)
      if ds.isEmpty || !ds.all isDigit then none
      else
        let n : Int := Decimal.value (digitsOf ds)
        some (if negative then -n else n)
    else none

/-- The magnitude that unsigned decimal characters denote. -/
def readDecimal? (cs : List Char) : Option Nat :=
  let whole := cs.takeWhile isDigit
  let (fraction, rest) : List Char × List Char :=
    match cs.dropWhile isDigit with
    | '.' :: rest => (rest.takeWhile isDigit, rest.dropWhile isDigit)
    | rest => ([], rest)
  if whole.isEmpty && fraction.isEmpty then none
  else
    (readExponent? rest).map fun exponent =>
      nearestDecimal (Decimal.value (digitsOf (whole ++ fraction))) (exponent - fraction.length)

/-- The magnitude that a name denotes. -/
def readName? (cs : List Char) : Option Nat :=
  let name := cs.map Char.toLower
  if name = ['i', 'n', 'f'] ∨ name = ['i', 'n', 'f', 'i', 'n', 'i', 't', 'y'] then some infinity
  else if name = ['n', 'a', 'n'] then some quietNaN
  else none

def readMagnitude? (cs : List Char) : Option Nat := (readDecimal? cs).or (readName? cs)

def readChars : List Char → Except FloatFault Binary64
  | [] => .error .empty
  | '-' :: cs => ((readMagnitude? cs).map (ofMagnitude true)).elim (.error .invalid) .ok
  | '+' :: cs => ((readMagnitude? cs).map (ofMagnitude false)).elim (.error .invalid) .ok
  | cs => ((readMagnitude? cs).map (ofMagnitude false)).elim (.error .invalid) .ok

/-- The double closest to the number that the text denotes. -/
def read (s : String) : Except FloatFault Binary64 := readChars s.toList

end Binary64

end ColumnConnector
