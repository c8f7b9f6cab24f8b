import ColumnConnector.Numeral.Decimal

/-!
# Reading integers of a bounded range

An integer is an optional sign and decimal digits; a minus sign is a digit like any other bad
character when the range has no negative numbers.  Reading stops at the first character at which
something is wrong, and a character that is no digit counts before an overflow at the same place.
-/

namespace ColumnConnector

/-- Why a text is not an integer of the range. -/
inductive IntegerFault where
  | empty
  | invalidDigit
  | tooLarge
  | tooSmall
deriving DecidableEq, Repr

namespace IntegerFault

def message : IntegerFault → String
  | .empty => "cannot parse integer from empty string"
  | .invalidDigit => "invalid digit found in string"
  | .tooLarge => "number too large to fit in target type"
  | .tooSmall => "number too small to fit in target type"

end IntegerFault

namespace Integer

/-- The number that the digits denote after `n`, as long as it does not pass `limit`. -/
def readDigits (limit : Nat) (overflow : IntegerFault) : Nat → List Char → Except IntegerFault Nat
  | n, [] => .ok n
  | n, c :: rest =>
    match Decimal.digit? c with
    | none => .error .invalidDigit
    | some d =>
      if n * 10 + d ≤ limit then readDigits limit overflow (n * 10 + d) rest
      else .error overflow

/-- The integer between `-low` and `high` that the characters denote. -/
def readChars (low high : Nat) : List Char → Except IntegerFault Int
  | [] => .error .empty
  | ['+'] => .error .invalidDigit
  | ['-'] => .error .invalidDigit
  | '+' :: digits => Int.ofNat <$> readDigits high .tooLarge 0 digits
  | '-' :: digits =>
    if low = 0 then .error .invalidDigit
    else (fun n => -Int.ofNat n) <$> readDigits low .tooSmall 0 digits
  | digits => Int.ofNat <$> readDigits high .tooLarge 0 digits

/-- The integer between `-low` and `high` that the text denotes. -/
def read (low high : Nat) (s : String) : Except IntegerFault Int := readChars low high s.toList

/-- The 32-bit signed integer that the text denotes. -/
def readInt32 (s : String) : Except IntegerFault Int32 :=
  Int32.ofInt <$> read 2147483648 2147483647 s

/-- The 64-bit signed integer that the text denotes. -/
def readInt64 (s : String) : Except IntegerFault Int64 :=
  Int64.ofInt <$> read 9223372036854775808 9223372036854775807 s

/-- The 64-bit count that the text denotes. -/
def readCount (s : String) : Except IntegerFault UInt64 :=
  (fun n => UInt64.ofNat n.toNat) <$> read 0 18446744073709551615 s

end Integer

end ColumnConnector
