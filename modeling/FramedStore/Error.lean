import FramedStore.Text.Decimal
import FramedStore.Text.Utf8

/-!
# Errors

Every way in which an operation can fail, as a cause and not as a text: failures of the file or
connection underneath (`Fault`), bytes that are no record (`Malformation`), messages that break the
wire protocol (`Violation`). `Error.message` is the one place where they are put into words.
-/

namespace FramedStore

/-! ### Failures of the device underneath -/

/-- A refusal by the operating system. -/
inductive SystemFault
  | notFound
  | alreadyExists
  | notADirectory
  | isADirectory
  | invalidFilename
  | connectionRefused
  deriving Repr, DecidableEq

/-- The name of a refusal. -/
def SystemFault.name : SystemFault → String
  | notFound => "NotFound"
  | alreadyExists => "AlreadyExists"
  | notADirectory => "NotADirectory"
  | isADirectory => "IsADirectory"
  | invalidFilename => "InvalidFilename"
  | connectionRefused => "ConnectionRefused"

/-- The system's own words for a refusal, with its number. -/
def SystemFault.message : SystemFault → String
  | notFound => "No such file or directory (os error 2)"
  | alreadyExists => "File exists (os error 17)"
  | notADirectory => "Not a directory (os error 20)"
  | isADirectory => "Is a directory (os error 21)"
  | invalidFilename => "File name too long (os error 36)"
  | connectionRefused => "Connection refused (os error 111)"

/-- A failure of the file or connection underneath. -/
inductive Fault
  /-- The input ended before all requested bytes were there. -/
  | endOfInput
  | closedFile (path : String)
  | closedConnection
  | nulInPath
  | system (cause : SystemFault)
  /-- Any other failure, in words. -/
  | other (text : String)
  deriving Repr, DecidableEq

/-- The text of a device failure. -/
def Fault.message : Fault → String
  | endOfInput => "failed to fill whole buffer"
  | closedFile path => "file storage " ++ path ++ " is closed"
  | closedConnection => "remote storage is closed"
  | nulInPath => "file name contained an unexpected NUL byte"
  | system cause => cause.message
  | other text => text

/-! ### Malformed records -/

/-- Why bytes are not a record. -/
inductive Malformation
  | truncatedIndicator
  | truncatedTrailer
  | truncatedLength
  | lengthWidth (width : Nat)
  | leadingZeroByte
  | shortLength (length : Nat)
  | missingLength
  | longLength
  | leadingZero
  | missingGuard
  | notAGuard (byte : UInt8)
  | lengthOverflow
  | wrongGuard (found expected : UInt8)
  | pastStorage (length size : Nat)
  | pastInput (length size : Nat)
  | beforeStorage (length : Nat)
  | beforeInput (length : Nat)
  | splitCharacter
  | tagWithoutValue
  deriving Repr, DecidableEq

/-- The text of a malformation. -/
def Malformation.message : Malformation → String
  | truncatedIndicator => "truncated indicator"
  | truncatedTrailer => "truncated trailer"
  | truncatedLength => "truncated nested length"
  | lengthWidth width => s!"nested length width {width} not in 1..=8"
  | leadingZeroByte => "nested length has a leading zero byte"
  | shortLength length => s!"nested length {length} should have been a single byte"
  | missingLength => "expected a decimal length"
  | longLength => "decimal length too long"
  | leadingZero => "decimal length has a leading zero"
  | missingGuard => "missing guard character"
  | notAGuard byte => "byte 0x" ++ Hex.ofByte byte ++ " is not a guard character"
  | lengthOverflow => "decimal length overflows"
  | wrongGuard found expected =>
    "guard '" ++ (Char.ofNat found.toNat).toString ++ "' does not match expected '"
      ++ (Char.ofNat expected.toNat).toString ++ "'"
  | pastStorage length size =>
    s!"record of {length} bytes runs past end of storage ({size} bytes)"
  | pastInput length size => s!"record of {length} bytes runs past end of input ({size} bytes)"
  | beforeStorage length => s!"record of {length} bytes runs past start of storage"
  | beforeInput length => s!"record of {length} bytes runs past start of input"
  | splitCharacter => "record boundary splits a UTF-8 character"
  | tagWithoutValue => "tag without a value"

/-! ### Breaches of the wire protocol -/

/-- The two groups of requests, named by the first byte of each request. -/
inductive Service
  | control
  | storage
  deriving Repr, DecidableEq

/-- The name of a service. -/
def Service.name : Service → String
  | control => "Control"
  | storage => "Storage"

/-- A message that breaks the wire protocol. -/
inductive Violation
  | unknownService (byte : UInt8)
  | unknownCause (cause : UInt8) (service : Service)
  | payloadTooLarge (length limit : Nat)
  | trailingBytes (count : Nat)
  | unknownStatus (byte : UInt8)
  | unexpectedReply
  | storageOnControl
  | unknownRequest (service cause : UInt8)
  deriving Repr, DecidableEq

/-- The text of a breach. -/
def Violation.message : Violation → String
  | unknownService byte => "Unknown handler kind: 0x" ++ Hex.ofByte byte
  | unknownCause cause service => "Unknown cause 0x" ++ Hex.ofByte cause ++ " for " ++ service.name
  | payloadTooLarge length limit => s!"Payload too large: {length} bytes (max {limit})"
  | trailingBytes count => s!"{count} trailing bytes after request"
  | unknownStatus byte => "Unknown reply status: 0x" ++ Hex.ofByte byte
  | unexpectedReply => "Unexpected reply"
  | storageOnControl => "Storage request on a control session"
  | unknownRequest service cause =>
    "Unknown request " ++ Hex.ofByte service ++ "/" ++ Hex.ofByte cause

/-! ### All errors -/

/-- Why an operation failed. -/
inductive Error
  /-- The file or connection underneath failed. -/
  | io (fault : Fault)
  /-- The server answered that the call failed there. -/
  | remote (text : String)
  /-- A range does not lie inside a storage of `size` bytes. -/
  | outOfRange (start stop size : Nat)
  /-- The bytes at `position` are not a record. -/
  | malformed (position : Nat) (cause : Malformation)
  /-- Bytes that should be text are not. -/
  | invalidUtf8 (fault : Utf8.Fault)
  /-- A stored value is not one of the wanted type. -/
  | undecodable
  /-- A message breaks the wire protocol. -/
  | protocol (cause : Violation)
  /-- A setting is out of its range. -/
  | config (text : String)
  /-- A scan went on for as many rounds as there are positions. -/
  | unending
  deriving Repr, DecidableEq

namespace Error

/-- The text of an error. -/
def message : Error → String
  | io fault => "IO error: " ++ fault.message
  | remote text => "Remote storage error: " ++ text
  | outOfRange start stop size =>
    s!"Range {start}..{stop} is out of bounds for storage of size {size}"
  | malformed position cause =>
    s!"Malformed indicator at offset {position}: " ++ cause.message
  | invalidUtf8 fault => "Invalid UTF-8 text: " ++ fault.message
  | undecodable => "Serialization error"
  | protocol cause => "Protocol error: " ++ cause.message
  | config text => "Configuration error: " ++ text
  | unending => "the scan does not end"

/-- Whether the storage itself failed, here or at the server. -/
def isStorageFailure : Error → Bool
  | io _ => true
  | remote _ => true
  | _ => false

end Error

end FramedStore
