import TileRoom.Wire.Error
import TileRoom.Wire.Field

/-!
# Writing a frame

A writer collects the fields of one frame. A refused field leaves it as it was. The size is
checked once, at the end.
-/

namespace TileRoom.Wire

/-- The opcode and what has been written after it. -/
structure Writer where
  opcode : UInt8
  body : List UInt8 := []
  deriving DecidableEq

namespace Writer

/-- Appends a value. A text with a NUL character is refused. -/
def put (w : Writer) (v : Value) : Except WireError Writer :=
  if v.isWritable then .ok { w with body := w.body ++ v.layout } else .error .embeddedNul

/-- Appends values up to the first that is refused. -/
def putAll (w : Writer) : List Value → Except WireError Writer
  | [] => .ok w
  | v :: vs => do (← w.put v).putAll vs

/-- What has been written so far. -/
def bytes (w : Writer) : List UInt8 :=
  w.opcode :: w.body

/-- The frame, if it is not too large. -/
def finish (w : Writer) : Except WireError (List UInt8) :=
  if maxFrame < w.bytes.length then .error (.tooLarge ⟨w.bytes.length, maxFrame⟩) else .ok w.bytes

end Writer

end TileRoom.Wire
