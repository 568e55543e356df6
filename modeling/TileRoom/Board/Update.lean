import TileRoom.Board.Event
import TileRoom.Message.Server

/-!
# How the board changes

`Board.apply` takes in one message of the server and `Board.clearShout` ends a shout. Both report
what changed. Whether the client can take a turn depends on nearly everything, so it is compared
before and after, and its change is reported last.
-/

namespace TileRoom.Board

/-- The board with an entry for a player, whoever it is. -/
def withPlayer (b : Board) (num : UInt8) : Board :=
  if b.players.contains num then b else { b with players := b.players.insert num { num } }

/-- A player, described or not. -/
def player (b : Board) (num : UInt8) : Player :=
  (b.players.get? num).getD { num }

/-- The board with a player described anew. -/
def setPlayer (b : Board) (p : Player) : Board :=
  { b with players := b.players.insert p.num p }

def applyName (b : Board) (num : UInt8) (name : String) : Board × List BoardEvent :=
  let b := b.withPlayer num
  let p := b.player num
  if p.name = name then (b, [])
  else (b.setPlayer { p with name }, [.playerNameChanged num name])

/-- A player who is connected now and was not before has joined, and the other way round left.
Neither is news before everything earlier is told. -/
def presenceEvents (b : Board) (old new : Player) : List BoardEvent :=
  if b.synced ∧ old.isConnected ≠ new.isConnected then
    [if new.isConnected then .playerJoined new.num else .playerLeft new.num]
  else []

def applyFlags (b : Board) (num : UInt8) (flags : PlayerFlags) : Board × List BoardEvent :=
  let b := b.withPlayer num
  let p := b.player num
  if p.flags = flags then (b, [])
  else
    let q := { p with flags }
    (b.setPlayer q, .playerFlagsChanged num flags :: b.presenceEvents p q)

def applyTile (b : Board) (t : Tile) : Board × List BoardEvent :=
  ({ b with tiles := b.tiles.insert t.num t },
    if b.tiles.contains t.num then [.tileMoved t (b.selfNum ≠ some t.lastMover)]
    else [.tileAdded t])

/-- Everything that a message changes but whether a turn can be taken. -/
def applyMessage (b : Board) : ServerMessage → Board × List BoardEvent
  | .playerId _ num => ({ b with selfNum := some num }.withPlayer num, [.selfAssigned num])
  | .message num text => (b.withPlayer num, [.chatMessage num text])
  | .tileCapacity n =>
    let b := { b with totalTiles := n }
    (b, [.tileCapacityChanged n b.remainingTiles])
  | .tile num x y letter lastMover => b.applyTile { num, letter, x, y, lastMover }
  | .playerName num name => b.applyName num name
  | .playerFlags num flags => b.applyFlags num flags
  | .playerShouted num => ({ b with shouting := some num }.withPlayer num, [.playerShouted num])
  | .sync => ({ b with synced := true }, [.synced])
  | .sessionEnd | .badPlayerId | .conversationId _ | .badConversationId | .conversationFull =>
    (b, [])

/-- Reports last whether a turn has become possible or impossible. -/
def withTurnChange (before : Board) (r : Board × List BoardEvent) : Board × List BoardEvent :=
  if r.1.canTakeTurn = before.canTakeTurn then r
  else (r.1, r.2 ++ [.turnEligibilityChanged r.1.canTakeTurn])

/-- Takes in one message. -/
def apply (b : Board) (m : ServerMessage) : Board × List BoardEvent :=
  b.withTurnChange (b.applyMessage m)

/-- Ends the current shout, if there is one. -/
def clearShout (b : Board) : Board × List BoardEvent :=
  b.withTurnChange ({ b with shouting := none }, b.shouting.toList.map .shoutCleared)

end TileRoom.Board
