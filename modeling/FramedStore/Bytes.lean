/-!
# Byte strings

Byte strings as lists, and natural numbers written in them: with the fewest digits to base 256
(`digits`), in a fixed number of bytes highest first (`bigEndian`) or lowest first
(`littleEndian`). `Offset.add` is the sum of two positions in a storage.
-/

namespace FramedStore

/-- A byte string. -/
abbrev Bytes := List UInt8

namespace Bytes

/-- The digits of `n` to base 256, highest first and without leading zeros; zero has none. -/
def digits (n : Nat) : Bytes :=
  if n = 0 then [] else digits (n / 256) ++ [UInt8.ofNat n]
termination_by n
decreasing_by omega

/-- The number that digits to base 256, highest first, stand for. -/
def value (digits : Bytes) : Nat :=
  digits.foldl (fun sum digit => sum * 256 + digit.toNat) 0

/-- The last `width` digits of `n` to base 256, highest first. -/
def bigEndian : Nat → Nat → Bytes
  | 0, _ => []
  | width + 1, n => UInt8.ofNat (n >>> (8 * width)) :: bigEndian width n

/-- The last `width` digits of `n` to base 256, lowest first. -/
def littleEndian : Nat → Nat → Bytes
  | 0, _ => []
  | width + 1, n => UInt8.ofNat n :: littleEndian width (n / 256)

/-- The number that digits to base 256, lowest first, stand for. -/
def littleValue : Bytes → Nat
  | [] => 0
  | digit :: rest => digit.toNat + 256 * littleValue rest

/-- The bytes from `start` up to but not including `stop`. -/
def slice (bytes : Bytes) (start stop : Nat) : Bytes :=
  (bytes.drop start).take (stop - start)

/-- `patch` written over `bytes` from `start` on; zeros fill a gap behind the end. -/
def overwrite (bytes : Bytes) (start : Nat) (patch : Bytes) : Bytes :=
  bytes.take start ++ List.replicate (start - bytes.length) 0 ++ patch
    ++ bytes.drop (start + patch.length)

/-- `bytes` without those from `start` up to `stop`. -/
def remove (bytes : Bytes) (start stop : Nat) : Bytes :=
  bytes.take start ++ bytes.drop stop

/-- `bytes` with `added` put in at `position`. -/
def insertAt (bytes : Bytes) (position : Nat) (added : Bytes) : Bytes :=
  bytes.take position ++ added ++ bytes.drop position

/-- The first `length` bytes; zeros are added if there are fewer. -/
def resize (bytes : Bytes) (length : Nat) : Bytes :=
  bytes.take length ++ List.replicate (length - bytes.length) 0

end Bytes

/-! ### Positions -/

/-- The number of positions that 64 bits can tell apart. -/
def Offset.range : Nat := 0x10000000000000000

/-- The sum of two positions, which starts over from zero past the last one. -/
def Offset.add (a b : Nat) : Nat := (a + b) % Offset.range

end FramedStore
