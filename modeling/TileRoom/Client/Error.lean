import TileRoom.Board.Basic
import TileRoom.Link.Error
import TileRoom.Wire.Error

/-!
# Why a request fails
-/

namespace TileRoom

inductive ClientError
  | link (cause : LinkError)
  | wire (cause : WireError)
  /-- The state of the game does not allow it. -/
  | board (cause : BoardError)
  /-- It needs a connection and there is none at the moment. -/
  | notConnected
  /-- The client has left or its session has failed. -/
  | closed
  deriving DecidableEq

def ClientError.message : ClientError → String
  | link cause => cause.message
  | wire cause => cause.message
  | board cause => cause.message
  | notConnected => "not connected"
  | closed => "client is closed"

end TileRoom
