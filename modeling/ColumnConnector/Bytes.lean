/-!
# Byte strings

Row keys, column names and stored values are byte strings, kept as lists so that order and
extent are those of lists: `compare` is lexicographic by unsigned byte and a proper start of a
string comes first.

Fixed-width numbers are written most significant byte first; `ofBigEndian_bigEndian` says that
reading the written form gives the number back modulo the width.
-/

namespace ColumnConnector

/-- A string of octets. -/
abbrev Bytes := List UInt8

namespace Bytes

/-- The last `width` base-256 digits of `n`, most significant first. -/
def bigEndian : Nat → Nat → Bytes
  | 0, _ => []
  | width + 1, n => bigEndian width (n / 256) ++ [UInt8.ofNat (n % 256)]

/-- The number whose base-256 digits are the bytes, most significant first. -/
def ofBigEndian (raw : Bytes) : Nat :=
  raw.foldl (fun n b => n * 256 + b.toNat) 0

theorem length_bigEndian (width n : Nat) : (bigEndian width n).length = width := by
  induction width generalizing n with
  | zero => rfl
  | succ width ih => simp [bigEndian, ih]

theorem ofBigEndian_bigEndian (width n : Nat) :
    ofBigEndian (bigEndian width n) = n % Nat.pow 256 width := by
  induction width generalizing n with
  | zero => simp [bigEndian, ofBigEndian, Nat.mod_one]
  | succ width ih =>
    have h := ih (n / 256)
    simp only [ofBigEndian] at h ⊢
    rw [bigEndian, List.foldl_append, h]
    simp only [List.foldl_cons, List.foldl_nil, UInt8.toNat_ofNat']
    have hpow : Nat.pow 256 (width + 1) = 256 * Nat.pow 256 width := Nat.mul_comm _ _
    have hmod : n % (256 * Nat.pow 256 width) = n % 256 + 256 * (n / 256 % Nat.pow 256 width) :=
      Nat.mod_mul
    rw [hpow, hmod]
    omega

/-- The lowercase hexadecimal digit of `n < 16`. -/
def hexDigit (n : Nat) : Char :=
  Char.ofNat (if n < 10 then 48 + n else 87 + n)

/-- Two lowercase hexadecimal digits for each byte. -/
def hex (raw : Bytes) : String :=
  String.ofList (raw.flatMap fun b => [hexDigit (b.toNat / 16), hexDigit (b.toNat % 16)])

end Bytes

end ColumnConnector
