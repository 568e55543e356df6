import TileRoom.Wire.Reader
import TileRoom.Wire.Writer

/-!
# Messages as frames

A message type has a format: its opcodes, and for each of them the kinds of the fields. `encode`
and `decode` are defined once for all formats, and `layout` is what they agree on.
-/

namespace TileRoom.Wire

/-- How the messages of a type are made of an opcode and fields. -/
class Format (M : Type) where
  /-- What tells one shape of message from another. -/
  Tag : Type
  /-- Every tag. -/
  tags : List Tag
  opcode : Tag → UInt8
  kinds : Tag → List Kind
  tag : M → Tag
  /-- The fields of a message. -/
  row (m : M) : Row (kinds (tag m))
  /-- The message of given fields. -/
  build (t : Tag) : Row (kinds t) → M

section
variable {M : Type} [Format M]

/-- A message's opcode. -/
def opcode (m : M) : UInt8 :=
  Format.opcode (Format.tag m)

/-- A message's fields. -/
def values (m : M) : List Value :=
  (Format.row m).values

/-- The bytes of a message: its opcode, then its fields in order. -/
def layout (m : M) : List UInt8 :=
  opcode m :: (values m).flatMap Value.layout

/-- The tag that an opcode stands for. -/
def tag? (M : Type) [Format M] (op : UInt8) : Option (Format.Tag M) :=
  (Format.tags (M := M)).find? (Format.opcode · == op)

/-- The frame of a message. -/
def encode (m : M) : Except WireError (List UInt8) := do
  (← (Writer.mk (opcode m) []).putAll (values m)).finish

/-- The message that a frame holds. -/
def decode (M : Type) [Format M] (frame : List UInt8) : Except WireError M := do
  let r ← Reader.start frame
  match tag? M r.opcode with
  | none => throw (.unknownOpcode r.opcode)
  | some t =>
    let (row, r) ← r.readRow (Format.kinds t)
    r.finish
    return Format.build t row

end

end TileRoom.Wire
