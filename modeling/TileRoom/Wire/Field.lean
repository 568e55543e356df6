import TileRoom.Utf8

/-!
# Fields

The kinds of field that a frame is made of, the values they carry and the bytes of each value.
Integers are little endian. A text is UTF-8 and ends at a NUL byte.
-/

namespace TileRoom.Wire

/-- A field's kind. -/
inductive Kind
  | byte
  /-- A place in the sequence of messages, in two bytes. -/
  | sequence
  /-- A signed coordinate in two bytes. -/
  | coordinate
  /-- An eight byte identifier. -/
  | id
  | text
  deriving DecidableEq

/-- The values of a field. -/
abbrev Kind.Carrier : Kind → Type
  | .byte => UInt8
  | .sequence => UInt16
  | .coordinate => Int16
  | .id => UInt64
  | .text => String

/-- The low `width` bytes of a number, least significant first. -/
def littleEndian : (width n : Nat) → List UInt8
  | 0, _ => []
  | width + 1, n => UInt8.ofNat n :: littleEndian width (n / 256)

/-- The number that bytes hold, least significant first. -/
def ofLittleEndian : List UInt8 → Nat
  | [] => 0
  | b :: bs => b.toNat + 256 * ofLittleEndian bs

/-- How a value is laid out. -/
def Kind.layout : (k : Kind) → k.Carrier → List UInt8
  | .byte, v => [v]
  | .sequence, v => littleEndian 2 v.toNat
  | .coordinate, v => littleEndian 2 v.toUInt16.toNat
  | .id, v => littleEndian 8 v.toNat
  | .text, s => Utf8.encode s ++ [0]

/-- A value together with its kind. -/
structure Value where
  kind : Kind
  data : kind.Carrier

/-- The bytes of a value. -/
def Value.layout (v : Value) : List UInt8 :=
  v.kind.layout v.data

/-- Whether a text holds a NUL character. -/
def hasNul (s : String) : Bool :=
  s.toList.contains '\x00'

/-- Whether a value has a place on the wire. -/
def Value.isWritable : Value → Bool
  | ⟨.text, s⟩ => !hasNul s
  | _ => true

/-- One value for each kind of a list. -/
def Row : List Kind → Type
  | [] => Unit
  | k :: ks => k.Carrier × Row ks

/-- The values of a row, in order. -/
def Row.values : {ks : List Kind} → Row ks → List Value
  | [], _ => []
  | k :: _, (v, rest) => ⟨k, v⟩ :: Row.values rest

end TileRoom.Wire
