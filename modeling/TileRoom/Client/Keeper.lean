import TileRoom.Client.Error
import TileRoom.Link.Endpoint
import TileRoom.Message.Client
import TileRoom.Time.Deadline

/-!
# Keeping a connection alive

A keeper holds the current connection, if there is one, and the deadline by which something must
be sent on it. Every message that is sent puts the deadline off by the full interval.
-/

namespace TileRoom

structure Keeper where
  interval : Duration
  connection : Option ConnectionId := none
  keepAlive : Deadline := {}
  deriving DecidableEq

namespace Keeper

def isConnected (k : Keeper) : Bool :=
  k.connection.isSome

/-- Lets go of the connection, if there is one. -/
def release (k : Keeper) : Keeper :=
  { k with connection := none, keepAlive := k.keepAlive.cancel }

/-- Takes a connection in place of any other. -/
def attach (k : Keeper) (id : ConnectionId) : Keeper :=
  { k.release with connection := some id }

/-- Sends a message at `now` on a connection on which the send ends with `outcome`. Tells the
connection and the frame. A send that fails changes nothing. -/
def send (k : Keeper) (now : Instant) (outcome : Except LinkError Unit) (m : ClientMessage) :
    Except ClientError (ConnectionId × List UInt8 × Keeper) :=
  match k.connection with
  | none => .error .notConnected
  | some id =>
    match Wire.encode m with
    | .error e => .error (.wire e)
    | .ok frame =>
      match outcome with
      | .error e => .error (.link e)
      | .ok () => .ok (id, frame, { k with keepAlive := k.keepAlive.arm now k.interval })

/-- The deadline has been heard and a message is to be sent for it. -/
def heard (k : Keeper) : Keeper :=
  { k with keepAlive := k.keepAlive.cancel }

end Keeper

end TileRoom
