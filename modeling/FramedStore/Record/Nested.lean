import FramedStore.Error

/-!
# Nested lengths

A length below 255 is one byte. A longer one is the marker 255, the number of its base 256 digits as
a length of its own, and the digits. `write` gives these bytes front to back; in a trailer they
stand in the opposite order (`writeBack`).

`read` accepts just what `write` gives. It is told how the digits are ordered, and so also reads a
trailer from its end.
-/

namespace FramedStore

/-- What an indicator says: its own length and that of the content. -/
structure Indicator where
  headerLength : Nat
  contentLength : Nat
  deriving Repr, DecidableEq

namespace Nested

/-- The byte that announces a nested length. -/
def marker : UInt8 := 255

/-- The most digits that a nested length may have. -/
def maxWidth : Nat := 8

/-- The bytes of a length. A number of digits is itself below 255, so it is one byte. -/
def write (length : Nat) : Bytes :=
  if length < 255 then [UInt8.ofNat length]
  else
    let digits := Bytes.digits length
    marker :: UInt8.ofNat digits.length :: digits

/-- The bytes of a length as they stand behind a content: digits, their number, the marker. -/
def writeBack (length : Nat) : Bytes :=
  if length < 255 then [UInt8.ofNat length]
  else
    let digits := Bytes.digits length
    digits ++ [UInt8.ofNat digits.length, marker]

/-- The length that digits, highest first, stand for, if one byte would not do. -/
def readDigits (digits : Bytes) : Except Malformation Nat :=
  if digits.head? = some 0 then .error .leadingZeroByte
  else
    let length := Bytes.value digits
    if length < 255 then .error (.shortLength length) else .ok length

/-- Reads a length from the front of a byte string. `order` puts the digits highest first, and
`short` is the fault of bytes that end before the length does. -/
def read (short : Malformation) (order : Bytes → Bytes) : Bytes → Except Malformation Indicator
  | [] => .error short
  | byte :: rest =>
    if byte ≠ marker then .ok ⟨1, byte.toNat⟩
    else do
      let inner ← read short order rest
      let width := inner.contentLength
      if width = 0 ∨ maxWidth < width then throw (.lengthWidth width)
      let digits := (rest.drop inner.headerLength).take width
      if digits.length < width then throw .truncatedLength
      let length ← readDigits (order digits)
      return ⟨1 + inner.headerLength + width, length⟩

end Nested

end FramedStore
