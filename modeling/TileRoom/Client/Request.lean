import TileRoom.Board.Basic
import TileRoom.Client.Config
import TileRoom.Client.Error
import TileRoom.Wire.Field

/-!
# What a user can ask of a client

Some requests are refused or cut to size before the client itself hears of them, also when it has
already finished.
-/

namespace TileRoom

inductive Request
  | sendMessage (text : String)
  | setTyping (typing : Bool)
  /-- A tile was dragged. -/
  | moveTile (tile : UInt8) (x y : Int16)
  | takeTurn
  | shout
  /-- To play with so many tiles. -/
  | setTileCapacity (tiles : UInt8)
  | snapshot
  | leave
  deriving DecidableEq

/-- What of a request reaches the client. A chat is cut to the longest one, a NUL character in it
and a capacity that no game can have are refused. -/
def Request.admit : Request → Except ClientError Request
  | .sendMessage text =>
    if Wire.hasNul text then .error (.wire .embeddedNul)
    else .ok (.sendMessage (Text.truncate text maxChat))
  | .setTileCapacity tiles =>
    match Board.checkTileCapacity tiles with
    | .error e => .error (.board e)
    | .ok () => .ok (.setTileCapacity tiles)
  | r => .ok r

end TileRoom
