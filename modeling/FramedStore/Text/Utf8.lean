import FramedStore.Bytes

/-!
# UTF-8 text in byte strings

`encode` and `decode` go between text and bytes. Bytes that are no text have a `Fault`: the
position of the first byte that belongs to no character, and how many bytes there are the start of
a character that is never finished (`some`), or that the input stops inside a character (`none`).
`lossy` puts one replacement character in the place of each such run.
-/

namespace FramedStore.Utf8

/-- The bytes of a text. -/
def encode (text : String) : Bytes := text.toUTF8.toList

/-! ### The front of a byte string -/

/-- What the front of a byte string is. -/
inductive Front
  /-- One character of `width` bytes. -/
  | character (width : Nat)
  /-- The first `width` bytes could start a character, but not with the byte that follows. -/
  | broken (width : Nat)
  /-- The start of a character, at the end of which the input stops. -/
  | unfinished
  deriving Repr, DecidableEq

/-- For a byte that leads a character of several bytes: the number of bytes that follow it, and the
range of the first of them. -/
def follow (lead : UInt8) : Option (Nat × UInt8 × UInt8) :=
  if lead < 0xC2 then none
  else if lead < 0xE0 then some (1, 0x80, 0xBF)
  else if lead = 0xE0 then some (2, 0xA0, 0xBF)
  else if lead = 0xED then some (2, 0x80, 0x9F)
  else if lead < 0xF0 then some (2, 0x80, 0xBF)
  else if lead = 0xF0 then some (3, 0x90, 0xBF)
  else if lead < 0xF4 then some (3, 0x80, 0xBF)
  else if lead = 0xF4 then some (3, 0x80, 0x8F)
  else none

/-- Whether a byte can stand inside a character. -/
def isContinuation (byte : UInt8) : Bool := 0x80 ≤ byte && byte ≤ 0xBF

/-- The front of a byte string of which `seen` bytes start a character that needs `missing` more. -/
def continued : Nat → Nat → Bytes → Front
  | 0, seen, _ => .character seen
  | _ + 1, _, [] => .unfinished
  | missing + 1, seen, byte :: rest =>
    if isContinuation byte then continued missing (seen + 1) rest else .broken seen

/-- The front of a byte string that starts with `lead`. -/
def front (lead : UInt8) (rest : Bytes) : Front :=
  if lead < 0x80 then .character 1
  else match follow lead, rest with
    | none, _ => .broken 1
    | some _, [] => .unfinished
    | some (count, low, high), byte :: rest =>
      if low ≤ byte && byte ≤ high then continued (count - 1) 2 rest else .broken 1

/-! ### Faults -/

/-- Where a byte string stops being text. -/
structure Fault where
  /-- The first byte that belongs to no character. -/
  position : Nat
  /-- The length of the broken run there; `none` if the input ends inside a character. -/
  width : Option Nat
  deriving Repr, DecidableEq

/-- The first fault of a byte string that starts at `position`. -/
def fault? (position : Nat) : Bytes → Option Fault
  | [] => none
  | lead :: rest => match front lead rest with
    | .character width => fault? (position + width) (rest.drop (width - 1))
    | .broken width => some ⟨position, some width⟩
    | .unfinished => some ⟨position, none⟩
termination_by bytes => bytes.length
decreasing_by simp only [List.length_drop, List.length_cons]; omega

/-- The text of a fault in messages. -/
def Fault.message (fault : Fault) : String :=
  match fault.width with
  | some width =>
    s!"invalid utf-8 sequence of {width} bytes from index {fault.position}"
  | none => s!"incomplete utf-8 byte sequence from index {fault.position}"

/-! ### Decoding -/

/-- The text that a byte string encodes. -/
def decode? (bytes : Bytes) : Option String := String.fromUTF8? ⟨bytes.toArray⟩

/-- The text that a byte string encodes, or its first fault. -/
def decode (bytes : Bytes) : Except Fault String :=
  match decode? bytes with
  | some text => .ok text
  | none => .error ((fault? 0 bytes).getD ⟨0, none⟩)

/-- The character that a run of bytes encodes: the payload bits of the lead and six bits of each
byte after it. -/
def scalar (lead : UInt8) (rest : Bytes) : Char :=
  let payload := match rest.length with
    | 0 => lead.toNat
    | 1 => lead.toNat % 32
    | 2 => lead.toNat % 16
    | _ => lead.toNat % 8
  Char.ofNat (rest.foldl (fun sum byte => sum * 64 + byte.toNat % 64) payload)

/-- The characters of a byte string, with one U+FFFD for each run of bytes that is none. -/
def characters : Bytes → List Char
  | [] => []
  | lead :: rest => match front lead rest with
    | .character width => scalar lead (rest.take (width - 1)) :: characters (rest.drop (width - 1))
    | .broken width => '\uFFFD' :: characters (rest.drop (width - 1))
    | .unfinished => ['\uFFFD']
termination_by bytes => bytes.length
decreasing_by all_goals (simp only [List.length_drop, List.length_cons]; omega)

/-- The text of a byte string, with one U+FFFD for each run of bytes that is no character. -/
def lossy (bytes : Bytes) : String :=
  match decode? bytes with
  | some text => text
  | none => String.ofList (characters bytes)

end FramedStore.Utf8
