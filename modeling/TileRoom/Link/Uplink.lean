import TileRoom.Link.Error

/-!
# The way to the server

How a connection takes what is sent on it: whether sends succeed, and how much of what was sent
still waits to be written.
-/

namespace TileRoom

structure Uplink where
  /-- How many more sends succeed, if not all of them. -/
  accepts : Option Nat := none
  /-- What a send that does not succeed reports. -/
  fault : LinkError := .sendFailed "server gone"
  /-- The bytes that wait to be written. -/
  buffered : Nat := 0
  deriving DecidableEq

namespace Uplink

/-- How the next send ends. -/
def outcome (u : Uplink) : Except LinkError Unit :=
  if u.accepts = some 0 then .error u.fault else .ok ()

/-- The way after a send that succeeded. -/
def spend (u : Uplink) : Uplink :=
  { u with accepts := u.accepts.map (· - 1) }

end Uplink

end TileRoom
