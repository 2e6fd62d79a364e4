import FramedStore.Record.TextIndicator

/-!
# Framing of records

A record is an indicator followed by the content. `Framing` is the choice between the two kinds of
indicator, and `splitFirst?` takes the first record off a byte string.
-/

namespace FramedStore

/-- The kind of indicator in front of each content. -/
inductive Framing
  /-- A nested length. -/
  | byte
  /-- A decimal length and a guard. -/
  | text
  deriving Repr, DecidableEq

namespace Framing

/-- The longest indicator. -/
def maxIndicator : Framing → Nat
  | byte => Nested.maxWidth + 2
  | text => TextIndicator.maxDigits + 1

/-- The indicator of a content. -/
def indicator : Framing → Bytes → Bytes
  | byte, content => Nested.write content.length
  | text, content => TextIndicator.write content

/-- Reads an indicator from the front of a byte string. -/
def readIndicator : Framing → Bytes → Except Malformation Indicator
  | byte, bytes => Nested.read .truncatedIndicator id bytes
  | text, bytes => TextIndicator.read bytes

/-- Whether an indicator, which stands in `bytes`, fits the content's first byte. -/
def checkContent : Framing → Bytes → Indicator → Option UInt8 → Except Malformation Unit
  | byte, _, _, _ => .ok ()
  | text, bytes, indicator, first => TextIndicator.check bytes indicator first

/-- The record of a content. -/
def encode (framing : Framing) (content : Bytes) : Bytes :=
  framing.indicator content ++ content

/-- The first record's content and what follows the record; `none` for no bytes at all. -/
def splitFirst? (framing : Framing) (bytes : Bytes) :
    Except Malformation (Option (Bytes × Bytes)) := do
  if bytes.isEmpty then return none
  let window := bytes.take framing.maxIndicator
  let indicator ← framing.readIndicator window
  let body := bytes.drop indicator.headerLength
  let content := body.take indicator.contentLength
  if content.length < indicator.contentLength then
    throw (.pastInput indicator.contentLength bytes.length)
  framing.checkContent window indicator content.head?
  return some (content, body.drop indicator.contentLength)

/-- The records at the front of a byte string, what is left behind them, and why that is no record;
`none` if nothing is left. At most `rounds` records are taken. -/
def splitAll (framing : Framing) :
    Nat → List Bytes → Bytes → List Bytes × Bytes × Option Malformation
  | 0, found, bytes => (found.reverse, bytes, none)
  | rounds + 1, found, bytes => match framing.splitFirst? bytes with
    | .ok none => (found.reverse, bytes, none)
    | .ok (some (content, rest)) => framing.splitAll rounds (content :: found) rest
    | .error cause => (found.reverse, bytes, some cause)

/-- The records of a byte string. A record has at least one byte. -/
def records (framing : Framing) (bytes : Bytes) : List Bytes × Bytes × Option Malformation :=
  framing.splitAll (bytes.length + 1) [] bytes

end Framing

/-! ### Text records of text -/

namespace TextRecord

/-- The text record of a text. -/
def encode (text : String) : String :=
  let content := Utf8.encode text
  toString content.length
    ++ (Char.ofNat (TextIndicator.guardFor content.length content.head?).toNat).toString ++ text

/-- The first record's text and what follows it; a record may not end inside a character. -/
def splitFirst? (text : String) : Except Malformation (Option (String × String)) := do
  match ← Framing.text.splitFirst? (Utf8.encode text) with
  | none => return none
  | some (content, rest) =>
    match Utf8.decode? content, Utf8.decode? rest with
    | some content, some rest => return some (content, rest)
    | _, _ => throw .splitCharacter

end TextRecord

end FramedStore
