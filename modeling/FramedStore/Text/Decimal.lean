import FramedStore.Bytes

/-!
# Decimal and hexadecimal numerals

Decimal numerals as ASCII bytes (`numeral`) with the number they stand for (`value`), and the
hexadecimal spelling of single bytes in messages and file names.
-/

namespace FramedStore

namespace Decimal

/-- The byte of a decimal digit. -/
def digitByte (digit : Nat) : UInt8 := UInt8.ofNat (48 + digit)

/-- Whether a byte is a decimal digit. -/
def isDigit (byte : UInt8) : Bool := 48 ≤ byte && byte ≤ 57

/-- The decimal numeral of `n`, without leading zeros. -/
def numeral (n : Nat) : Bytes :=
  if n < 10 then [digitByte n] else numeral (n / 10) ++ [digitByte (n % 10)]
termination_by n
decreasing_by omega

/-- The number that a string of decimal digits stands for. -/
def value (digits : Bytes) : Nat :=
  digits.foldl (fun sum digit => sum * 10 + (digit.toNat - 48)) 0

end Decimal

namespace Hex

/-- One hexadecimal digit, in lower case. -/
def digit (n : Nat) : Char :=
  if n < 10 then Char.ofNat (48 + n) else Char.ofNat (87 + n)

/-- A byte as two hexadecimal digits in lower case. -/
def ofByte (byte : UInt8) : String :=
  String.ofList [digit (byte.toNat / 16), digit (byte.toNat % 16)]

/-- A byte string as hexadecimal digits in lower case, two a byte. -/
def ofBytes (bytes : Bytes) : String :=
  String.ofList (bytes.flatMap fun byte => [digit (byte.toNat / 16), digit (byte.toNat % 16)])

end Hex

end FramedStore
