import TileRoom.Wire.Error
import TileRoom.Wire.Field

/-!
# Reading a frame

A reader holds what is left of one frame. A read that fails returns no reader, so the one it
started from is still where it was.
-/

namespace TileRoom.Wire

/-- The opcode of a frame, how many of its bytes are read, and the others. -/
structure Reader where
  opcode : UInt8
  position : Nat
  rest : List UInt8
  deriving DecidableEq

namespace Reader

/-- Starts to read a frame. Only an empty one has no opcode. -/
def start : List UInt8 → Except WireError Reader
  | [] => .error (.malformed .empty)
  | opcode :: rest => .ok ⟨opcode, 1, rest⟩

/-- How many bytes are left. -/
def remaining (r : Reader) : Nat :=
  r.rest.length

/-- Passes over `n` bytes. -/
def skip (r : Reader) (n : Nat) : Reader :=
  ⟨r.opcode, r.position + n, r.rest.drop n⟩

/-- The next `n` bytes. -/
def take (r : Reader) (n : Nat) : Except WireError (List UInt8 × Reader) :=
  if r.remaining < n then .error (.malformed (.truncated n r.position r.remaining))
  else .ok (r.rest.take n, r.skip n)

/-- An unsigned number of `width` bytes. -/
def number (r : Reader) (width : Nat) : Except WireError (Nat × Reader) := do
  let (bs, r) ← r.take width
  return (ofLittleEndian bs, r)

/-- A text up to its terminator, which is looked for before the text is. -/
def text (r : Reader) : Except WireError (String × Reader) :=
  let bs := r.rest.takeWhile (· ≠ 0)
  if bs.length = r.remaining then .error (.malformed .unterminated)
  else match Utf8.decode bs with
    | .error fault => .error (.malformed (.badText fault))
    | .ok s => .ok (s, r.skip (bs.length + 1))

/-- A value of a kind. -/
def read (r : Reader) : (k : Kind) → Except WireError (k.Carrier × Reader)
  | .byte => do let (n, r) ← r.number 1; return (UInt8.ofNat n, r)
  | .sequence => do let (n, r) ← r.number 2; return (UInt16.ofNat n, r)
  | .coordinate => do let (n, r) ← r.number 2; return ((UInt16.ofNat n).toInt16, r)
  | .id => do let (n, r) ← r.number 8; return (UInt64.ofNat n, r)
  | .text => r.text

/-- A value for each kind, in order. -/
def readRow (r : Reader) : (ks : List Kind) → Except WireError (Row ks × Reader)
  | [] => .ok ((), r)
  | k :: ks => do
    let (v, r) ← r.read k
    let (row, r) ← r.readRow ks
    return ((v, row), r)

/-- Ends the reading. All of the frame must have been read. -/
def finish (r : Reader) : Except WireError Unit :=
  if r.remaining = 0 then .ok () else .error (.malformed (.trailing r.remaining))

end Reader

end TileRoom.Wire
