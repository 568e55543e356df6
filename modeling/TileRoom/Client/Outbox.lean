import TileRoom.Message.Client
import TileRoom.Numbered

/-!
# What waits to be sent

Dragging a tile makes far more positions than the server needs, so only the latest position of
each tile is kept until what was sent before is written. Chats that are given while there is no
connection are held for the next one.
-/

namespace TileRoom

structure Outbox where
  /-- The tiles that were dragged, with where they are now. -/
  dirty : Numbered (Int16 × Int16) := ∅
  /-- The messages that wait for a connection, in the order they were given. -/
  held : List ClientMessage := []
  deriving DecidableEq

/-- What is to be sent for the dragged tiles. -/
inductive Flush
  /-- No tile was dragged. -/
  | idle
  /-- Something is still to be written. -/
  | deferred
  | sent (moves : List ClientMessage)
  deriving DecidableEq

namespace Outbox

def markDirty (o : Outbox) (tile : UInt8) (x y : Int16) : Outbox :=
  { o with dirty := o.dirty.insert tile (x, y) }

def hasDirty (o : Outbox) : Bool :=
  !o.dirty.isEmpty

theorem hasDirty_iff (o : Outbox) : o.hasDirty = true ↔ o.dirty ≠ ∅ := by
  rw [hasDirty, Bool.not_eq_true', ← Bool.not_eq_true, Numbered.isEmpty_iff]

/-- A move for each dragged tile, in ascending order. -/
def moves (o : Outbox) : List ClientMessage :=
  o.dirty.entries.map fun (tile, x, y) => .moveTile tile x y

/-- Takes the moves out if nothing waits to be written. -/
def flush (o : Outbox) (buffered : Nat) : Flush × Outbox :=
  if o.dirty.isEmpty then (.idle, o)
  else if 0 < buffered then (.deferred, o)
  else (.sent o.moves, { o with dirty := ∅ })

def hold (o : Outbox) (m : ClientMessage) : Outbox :=
  { o with held := o.held ++ [m] }

/-- Takes the held messages out. -/
def takeHeld (o : Outbox) : List ClientMessage × Outbox :=
  (o.held, { o with held := [] })

def clear (_ : Outbox) : Outbox :=
  {}

end Outbox

/-- Whether the user is typing, and what the server was last told about it. The server forgets it
with the connection. -/
structure Typing where
  desired : Bool := false
  told : Bool := false
  deriving DecidableEq

namespace Typing

/-- The message that lets the server know, if it does not. -/
def sync (t : Typing) : Option ClientMessage × Typing :=
  if t.desired = t.told then (none, t)
  else (some (if t.desired then .startTyping else .stopTyping), { t with told := t.desired })

/-- The user starts or stops typing. The server is told if it can be. -/
def set (t : Typing) (typing connected : Bool) : Option ClientMessage × Typing :=
  let t := { t with desired := typing }
  if connected then t.sync else (none, t)

def connectionLost (t : Typing) : Typing :=
  { t with told := false }

end Typing

end TileRoom
