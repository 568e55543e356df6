/-!
# Endpoints

Where the server is. It listens on one port for plain and on another for secure connections.
-/

namespace TileRoom

structure Endpoint where
  host : String
  secure : Bool
  plainPort : UInt16 := 5142
  securePort : UInt16 := 5143
  deriving DecidableEq

/-- The WebSocket address. -/
def Endpoint.url (e : Endpoint) : String :=
  if e.secure then s!"wss://{e.host}:{e.securePort}/" else s!"ws://{e.host}:{e.plainPort}/"

/-- What tells one connection from another. Connections are numbered as they open. -/
structure ConnectionId where
  value : UInt64
  deriving DecidableEq

def ConnectionId.render (c : ConnectionId) : String :=
  s!"conn-{c.value}"

end TileRoom
