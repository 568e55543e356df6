import TileRoom.Board.Basic

/-!
# What happens on the board

The changes that are reported to whoever shows the game. Together they tell all of the board.
-/

namespace TileRoom

inductive BoardEvent
  | selfAssigned (player : UInt8)
  | playerNameChanged (player : UInt8) (name : String)
  | playerFlagsChanged (player : UInt8) (flags : PlayerFlags)
  /-- A player came after everything earlier was told. -/
  | playerJoined (player : UInt8)
  /-- A player went after everything earlier was told. -/
  | playerLeft (player : UInt8)
  | chatMessage (player : UInt8) (text : String)
  | tileAdded (tile : Tile)
  /-- A known tile changed. It needs no animation if it was the client that dragged it. -/
  | tileMoved (tile : Tile) (animate : Bool)
  | tileCapacityChanged (total : UInt8) (remaining : Nat)
  | turnEligibilityChanged (canTakeTurn : Bool)
  | playerShouted (player : UInt8)
  /-- A shout has been shown long enough. -/
  | shoutCleared (player : UInt8)
  | synced
  deriving DecidableEq

/-- Whether a player shouts. -/
def BoardEvent.isShout : BoardEvent → Bool
  | playerShouted _ => true
  | _ => false

end TileRoom
