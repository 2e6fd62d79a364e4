import FramedStore.Bytes

/-!
# CRC-32

The cyclic redundancy check with the reversed polynomial 0xEDB88320, as in archives and network
frames: bits enter lowest first, and the register is inverted at both ends.
-/

namespace FramedStore.Crc32

/-- The reversed polynomial. -/
def polynomial : UInt32 := 0xEDB88320

/-- Shifts one bit out of the register. -/
def shift (register : UInt32) : UInt32 :=
  if register &&& 1 = 1 then (register >>> 1) ^^^ polynomial else register >>> 1

/-- Takes a byte into the register. -/
def step (register : UInt32) (byte : UInt8) : UInt32 :=
  Nat.repeat shift 8 (register ^^^ byte.toUInt32)

/-- The checksum of a byte string. -/
def ofBytes (bytes : Bytes) : UInt32 :=
  bytes.foldl step 0xFFFFFFFF ^^^ 0xFFFFFFFF

end FramedStore.Crc32
