import FramedStore.TagStore.Basic

/-!
# Typed values

`Packed` types have values that are laid out in bytes field after field: numbers in a fixed number
of bytes, lowest first, and lengths and counts as 64-bit numbers in front of what they count. A
value read from a tag store may be followed by other bytes.
-/

namespace FramedStore

/-- A type with a layout in bytes. -/
class Packed (α : Type) where
  /-- The bytes of a value. -/
  pack : α → Bytes
  /-- The value at the front of a byte string, and what follows it. -/
  unpack : Bytes → Option (α × Bytes)

namespace Packed

/-! ### Numbers -/

/-- The first `count` bytes and the rest, if there are as many. -/
def split (count : Nat) (bytes : Bytes) : Option (Bytes × Bytes) :=
  let front := bytes.take count
  if front.length < count then none else some (front, bytes.drop count)

/-- The number in the first `width` bytes, lowest first. -/
def unpackNat (width : Nat) (bytes : Bytes) : Option (Nat × Bytes) :=
  (split width bytes).map fun (front, rest) => (Bytes.littleValue front, rest)

instance : Packed UInt8 where
  pack n := [n]
  unpack
    | [] => none
    | n :: rest => some (n, rest)

instance : Packed UInt16 where
  pack n := Bytes.littleEndian 2 n.toNat
  unpack bytes := (unpackNat 2 bytes).map fun (n, rest) => (UInt16.ofNat n, rest)

instance : Packed UInt32 where
  pack n := Bytes.littleEndian 4 n.toNat
  unpack bytes := (unpackNat 4 bytes).map fun (n, rest) => (UInt32.ofNat n, rest)

instance : Packed UInt64 where
  pack n := Bytes.littleEndian 8 n.toNat
  unpack bytes := (unpackNat 8 bytes).map fun (n, rest) => (UInt64.ofNat n, rest)

instance : Packed Int32 where
  pack n := Bytes.littleEndian 4 n.toUInt32.toNat
  unpack bytes := (unpackNat 4 bytes).map fun (n, rest) => ((UInt32.ofNat n).toInt32, rest)

instance : Packed Int64 where
  pack n := Bytes.littleEndian 8 n.toUInt64.toNat
  unpack bytes := (unpackNat 8 bytes).map fun (n, rest) => ((UInt64.ofNat n).toInt64, rest)

/-! ### Truth values, characters and text -/

instance : Packed Bool where
  pack b := [if b then 1 else 0]
  unpack
    | 0 :: rest => some (false, rest)
    | 1 :: rest => some (true, rest)
    | _ => none

/-- The number of bytes of a character that starts with `lead`. -/
def characterWidth (lead : UInt8) : Option Nat :=
  if lead < 0x80 then some 1 else (Utf8.follow lead).map fun (count, _, _) => count + 1

instance : Packed Char where
  pack c := Utf8.encode c.toString
  unpack
    | [] => none
    | lead :: rest => do
      let (bytes, rest) ← split (← characterWidth lead) (lead :: rest)
      match (← Utf8.decode? bytes).toList with
      | [c] => some (c, rest)
      | _ => none

/-- The bytes of a length or count. -/
def packCount (count : Nat) : Bytes := Bytes.littleEndian 8 count

instance : Packed String where
  pack text :=
    let bytes := Utf8.encode text
    packCount bytes.length ++ bytes
  unpack bytes := do
    let (count, rest) ← unpackNat 8 bytes
    let (content, rest) ← split count rest
    return (← Utf8.decode? content, rest)

/-! ### Composed values -/

variable {α β : Type} [Packed α] [Packed β]

instance : Packed (α × β) where
  pack pair := pack pair.1 ++ pack pair.2
  unpack bytes := do
    let (a, rest) ← unpack bytes
    let (b, rest) ← unpack rest
    return ((a, b), rest)

instance : Packed (Option α) where
  pack
    | none => [0]
    | some a => 1 :: pack a
  unpack
    | 0 :: rest => some (none, rest)
    | 1 :: rest => (unpack rest).map fun (a, rest) => (some a, rest)
    | _ => none

/-- The values of `count` elements at the front of a byte string. An element has at least one byte,
so a count above the number of bytes has no elements to go with it. -/
def unpackMany (count : Nat) (bytes : Bytes) : Option (List α × Bytes) :=
  if bytes.length < count then none else go count [] bytes
where
  go : Nat → List α → Bytes → Option (List α × Bytes)
    | 0, found, bytes => some (found.reverse, bytes)
    | count + 1, found, bytes => do
      let (a, rest) ← unpack bytes
      go count (a :: found) rest

instance : Packed (List α) where
  pack list := packCount list.length ++ list.flatMap pack
  unpack bytes := do
    let (count, rest) ← unpackNat 8 bytes
    unpackMany count rest

/-- The value that a byte string starts with. -/
def ofBytes (bytes : Bytes) : Except Error α :=
  match unpack bytes with
  | some (a, _) => .ok a
  | none => .error .undecodable

end Packed

namespace TagStore

variable {σ : Type} [Storage σ] (framing : Framing) {α : Type} [Packed α]

/-- Puts a typed value under `tag`. -/
def putValue (tag : String) (value : α) : Effect σ Bool :=
  put framing tag (Packed.pack value)

/-- The typed value under `tag`. -/
def getValue? (tag : String) : Effect σ (Option α) := do
  match ← get? framing tag with
  | none => return none
  | some bytes => return some (← .ofExcept (Packed.ofBytes bytes))

end TagStore

end FramedStore
