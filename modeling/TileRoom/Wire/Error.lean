import TileRoom.Hex
import TileRoom.Utf8

/-!
# What can be wrong with a frame

A frame that is read can be malformed or start with an unknown opcode. A frame that is written
can hold a text with a NUL character or be too large.
-/

namespace TileRoom.Wire

/-- The largest frame that is sent, opcode included, in bytes. -/
def maxFrame : Nat := 1024

/-- Why a byte string does not follow the layout of its opcode. -/
inductive Malformation
  /-- There is no opcode. -/
  | empty
  /-- A field needs more bytes than are left. The offset counts from the opcode. -/
  | truncated (needed offset left : Nat)
  /-- A text field has no terminator. -/
  | unterminated
  /-- A text field is not UTF-8. -/
  | badText (fault : Utf8.Fault)
  /-- Bytes follow the last field. -/
  | trailing (count : Nat)
  deriving DecidableEq

/-- A frame that is too large, and how large it might have been. -/
structure Oversize where
  length : Nat
  max : Nat
  deriving DecidableEq

def Malformation.message : Malformation → String
  | .empty => "empty frame"
  | .truncated needed offset left =>
    s!"frame truncated: needed {needed} bytes at offset {offset}, have {left}"
  | .unterminated => "string field has no terminator"
  | .badText fault => s!"string field is not UTF-8: {fault.message}"
  | .trailing count => s!"{count} trailing bytes after last field"

end TileRoom.Wire

namespace TileRoom

/-- Why a frame could not be read or written. -/
inductive WireError
  | malformed (detail : Wire.Malformation)
  | unknownOpcode (opcode : UInt8)
  /-- A text with a NUL character has no place on the wire, where NUL ends a text. -/
  | embeddedNul
  | tooLarge (size : Wire.Oversize)
  deriving DecidableEq

def WireError.message : WireError → String
  | .malformed detail => s!"malformed frame: {detail.message}"
  | .unknownOpcode opcode => "unknown opcode 0x" ++ String.ofList (Hex.padded 2 opcode.toNat)
  | .embeddedNul => "string field contains a NUL byte"
  | .tooLarge size => s!"frame of {size.length} bytes exceeds the {size.max} byte limit"

end TileRoom
