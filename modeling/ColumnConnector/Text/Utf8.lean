import ColumnConnector.Bytes
import ColumnConnector.Numeral.Decimal

/-!
# UTF-8

The byte form of text and its reading.  `decode` accepts exactly the well-formed byte strings:
a leading byte fixes how many continuation bytes follow, and the second byte of some leads is
confined further, which keeps out overlong forms, surrogates and numbers beyond the last code
point.

A byte string that is not well formed has a fault: the index of the first byte of the offending
sequence and the number of bytes that are surely wrong, or none when the input ends inside a
sequence that was good so far.
-/

namespace ColumnConnector.Utf8

/-- The bytes of one character. -/
def encodeChar (c : Char) : Bytes :=
  let n := c.toNat
  if n < 0x80 then [UInt8.ofNat n]
  else if n < 0x800 then [UInt8.ofNat (0xc0 + n / 64), UInt8.ofNat (0x80 + n % 64)]
  else if n < 0x10000 then
    [UInt8.ofNat (0xe0 + n / 4096), UInt8.ofNat (0x80 + n / 64 % 64), UInt8.ofNat (0x80 + n % 64)]
  else
    [UInt8.ofNat (0xf0 + n / 262144), UInt8.ofNat (0x80 + n / 4096 % 64),
      UInt8.ofNat (0x80 + n / 64 % 64), UInt8.ofNat (0x80 + n % 64)]

def encodeChars (cs : List Char) : Bytes := cs.flatMap encodeChar

/-- The bytes of a text. -/
def encode (s : String) : Bytes := encodeChars s.toList

/-- Where a byte string stops being text. -/
structure Fault where
  index : Nat
  length : Option Nat
deriving DecidableEq, Repr

/-- Is the byte one that continues a character? -/
def isContinuation (b : UInt8) : Bool := 0x80 ≤ b.toNat && b.toNat < 0xc0

/-- May `b` follow the leading byte `a` of a longer character? -/
def mayFollow (a b : UInt8) : Bool :=
  if a.toNat = 0xe0 then 0xa0 ≤ b.toNat && b.toNat < 0xc0
  else if a.toNat = 0xed then 0x80 ≤ b.toNat && b.toNat < 0xa0
  else if a.toNat = 0xf0 then 0x90 ≤ b.toNat && b.toNat < 0xc0
  else if a.toNat = 0xf4 then 0x80 ≤ b.toNat && b.toNat < 0x90
  else isContinuation b

/-- The characters that the bytes encode, counting bytes from `index`. -/
def decodeFrom (index : Nat) : Bytes → Except Fault (List Char)
  | [] => .ok []
  | a :: rest =>
    if a.toNat < 0x80 then (Char.ofNat a.toNat :: ·) <$> decodeFrom (index + 1) rest
    else if a.toNat < 0xc2 ∨ 0xf4 < a.toNat then .error ⟨index, some 1⟩
    else match rest with
      | [] => .error ⟨index, none⟩
      | b :: rest =>
        if !mayFollow a b then .error ⟨index, some 1⟩
        else if a.toNat < 0xe0 then
          (Char.ofNat ((a.toNat - 0xc0) * 64 + (b.toNat - 0x80)) :: ·) <$>
            decodeFrom (index + 2) rest
        else match rest with
          | [] => .error ⟨index, none⟩
          | c :: rest =>
            if !isContinuation c then .error ⟨index, some 2⟩
            else if a.toNat < 0xf0 then
              (Char.ofNat ((a.toNat - 0xe0) * 4096 + (b.toNat - 0x80) * 64 +
                (c.toNat - 0x80)) :: ·) <$> decodeFrom (index + 3) rest
            else match rest with
              | [] => .error ⟨index, none⟩
              | d :: rest =>
                if !isContinuation d then .error ⟨index, some 3⟩
                else
                  (Char.ofNat ((a.toNat - 0xf0) * 262144 + (b.toNat - 0x80) * 4096 +
                    (c.toNat - 0x80) * 64 + (d.toNat - 0x80)) :: ·) <$>
                    decodeFrom (index + 4) rest

/-- The text that the bytes encode. -/
def decode (raw : Bytes) : Except Fault String := String.ofList <$> decodeFrom 0 raw

/-- The fault in words. -/
def Fault.message (f : Fault) : String :=
  match f.length with
  | some n =>
    "invalid utf-8 sequence of " ++ Decimal.ofNat n ++ " bytes from index " ++
      Decimal.ofNat f.index
  | none => "incomplete utf-8 byte sequence from index " ++ Decimal.ofNat f.index

end ColumnConnector.Utf8
