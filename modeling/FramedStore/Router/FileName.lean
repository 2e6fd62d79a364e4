import FramedStore.Checksum.Crc32
import FramedStore.Text.Decimal
import FramedStore.Text.Utf8

/-!
# File names for tags

Each tag has a file name: characters that file systems treat specially are written as percent
escapes of their UTF-8 bytes, and a name above 200 bytes is cut and marked with the checksum of the
whole tag. The names have one shape for every checksum of 32 bits (`ofTagBy`); `ofTag` has CRC-32.
-/

namespace FramedStore.FileName

/-- The longest name. -/
def maxLength : Nat := 200

/-- The length of the mark that ends a cut name. -/
def markLength : Nat := 9

/-- The characters that never stand for themselves. -/
def special : List Char := ['/', '\\', ':', '*', '?', '"', '<', '>', '|', '%', '~']

/-- Whether a character is a control character. -/
def isControl (c : Char) : Bool :=
  c.val < 0x20 || 0x7F ≤ c.val && c.val < 0xA0

/-- A hexadecimal digit, in upper case. -/
def upperDigit (n : Nat) : Char :=
  if n < 10 then Char.ofNat (48 + n) else Char.ofNat (55 + n)

/-- A byte as a percent escape. -/
def escapeByte (byte : UInt8) : List Char :=
  ['%', upperDigit (byte.toNat / 16), upperDigit (byte.toNat % 16)]

/-- A character as percent escapes. -/
def escapeChar (c : Char) : List Char :=
  (Utf8.encode c.toString).flatMap escapeByte

/-- A character, escaped if it is special. -/
def encodeChar (c : Char) : List Char :=
  if special.contains c || isControl c then escapeChar c else [c]

/-- The characters of a tag, with the special ones and a dot at the front escaped. -/
def encodeChars : List Char → List Char
  | [] => ['%']
  | first :: rest =>
    (if first = '.' then escapeChar first else encodeChar first) ++ rest.flatMap encodeChar

/-- The escaped form of a tag; that of the empty tag is a lone percent sign. -/
def escape (tag : String) : String := String.ofList (encodeChars tag.toList)

/-- The characters at the front that together have at most `budget` bytes. -/
def fitting : Nat → List Char → List Char
  | _, [] => []
  | budget, c :: rest => if c.utf8Size ≤ budget then c :: fitting (budget - c.utf8Size) rest else []

/-- The mark of a tag in a cut name: a tilde and the checksum. -/
def mark (checksum : Bytes → UInt32) (tag : String) : String :=
  "~" ++ Hex.ofBytes (Bytes.bigEndian 4 (checksum (Utf8.encode tag)).toNat)

/-- The file name of a tag, with a checksum for the names that are cut. -/
def ofTagBy (checksum : Bytes → UInt32) (tag : String) : String :=
  let name := escape tag
  if name.utf8ByteSize ≤ maxLength then name
  else String.ofList (fitting (maxLength - markLength) name.toList) ++ mark checksum tag

/-- The file name of a tag. -/
def ofTag (tag : String) : String := ofTagBy Crc32.ofBytes tag

end FramedStore.FileName
