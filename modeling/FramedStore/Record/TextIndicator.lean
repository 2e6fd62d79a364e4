import FramedStore.Record.Nested

/-!
# Text indicators

A text indicator is the decimal length of the content and one guard letter. The letter depends on
the length and the content's first byte, and it keeps digits at the front of the content apart from
the length.
-/

namespace FramedStore.TextIndicator

/-- The most digits of a 64-bit length. -/
def maxDigits : Nat := 20

/-- Whether a byte is a letter that can be a guard. -/
def isGuard (byte : UInt8) : Bool :=
  97 ≤ byte && byte ≤ 122 || 65 ≤ byte && byte ≤ 90

/-- The guard with a given number: the small letters come first, then the capitals. -/
def guardLetter (index : Nat) : UInt8 :=
  if index < 26 then UInt8.ofNat (97 + index) else UInt8.ofNat (39 + index)

/-- The guard of a content of `length` bytes that starts with `first`. -/
def guardFor (length : Nat) (first : Option UInt8) : UInt8 :=
  guardLetter ((length % 52 + (first.elim 0 UInt8.toNat)) % 52)

/-- The indicator of a content. -/
def write (content : Bytes) : Bytes :=
  Decimal.numeral content.length ++ [guardFor content.length content.head?]

/-- Reads an indicator from the front of a byte string. -/
def read (bytes : Bytes) : Except Malformation Indicator := do
  let digits := bytes.takeWhile Decimal.isDigit
  if digits.isEmpty then throw .missingLength
  if maxDigits < digits.length then throw .longLength
  if 1 < digits.length ∧ digits.head? = some (Decimal.digitByte 0) then throw .leadingZero
  match bytes[digits.length]? with
  | none => throw .missingGuard
  | some byte =>
    unless isGuard byte do throw (.notAGuard byte)
    let length := Decimal.value digits
    if Offset.range ≤ length then throw .lengthOverflow
    return ⟨digits.length + 1, length⟩

/-- Compares the guard of an indicator in `bytes` with the one for the content's first byte. -/
def check (bytes : Bytes) (indicator : Indicator) (first : Option UInt8) :
    Except Malformation Unit :=
  match bytes[indicator.headerLength - 1]? with
  | none => .error .missingGuard
  | some found =>
    let expected := guardFor indicator.contentLength first
    if found = expected then .ok () else .error (.wrongGuard found expected)

end FramedStore.TextIndicator
