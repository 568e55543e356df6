import TileRoom.Message.Ids
import TileRoom.Numbered

/-!
# The board

What a client knows about the game: the players, the tiles that have been drawn, how many tiles
the game is played with, and who is shouting. From these follows what the client may do.
-/

namespace TileRoom

/-- A player as last described by the server. The name is empty until the server tells it. -/
structure Player where
  num : UInt8
  name : String := ""
  flags : PlayerFlags := .none
  deriving DecidableEq

def Player.isConnected (p : Player) : Bool :=
  p.flags.contains .connected

def Player.isTyping (p : Player) : Bool :=
  p.flags.contains .typing

def Player.hasNextTurn (p : Player) : Bool :=
  p.flags.contains .nextTurn

/-- A tile that has been drawn. -/
structure Tile where
  num : UInt8
  letter : String
  x : Int16
  y : Int16
  /-- The player who last drew or moved it. -/
  lastMover : UInt8
  deriving DecidableEq

/-- The state of the game. -/
structure Board where
  players : Numbered Player := ∅
  tiles : Numbered Tile := ∅
  /-- How many tiles the game is played with. -/
  totalTiles : UInt8 := 0
  /-- The client's own player number. -/
  selfNum : Option UInt8 := none
  /-- Whether the server has told all that happened before. -/
  synced : Bool := false
  /-- The player whose shout is showing. -/
  shouting : Option UInt8 := none
  deriving DecidableEq

/-- A number of tiles that is asked for, and the largest that there is. -/
structure CapacityRange where
  requested : UInt8
  max : UInt8
  deriving DecidableEq

/-- Why an action is refused before anything is sent. -/
inductive BoardError
  | turnNotAllowed
  | shoutNotAllowed
  | invalidTileCapacity (range : CapacityRange)
  deriving DecidableEq

namespace Board

/-- The size of the full bag of tiles. -/
def maxTiles : UInt8 := 122

/-- The client's own player. -/
def selfPlayer (b : Board) : Option Player :=
  b.selfNum.bind b.players.get?

/-- How many tiles are still in the bag. There are none if the capacity was lowered below the
number already drawn. -/
def remainingTiles (b : Board) : Nat :=
  b.totalTiles.toNat - b.tiles.size

def isEmpty (b : Board) : Bool :=
  b.tiles.isEmpty

def isFull (b : Board) : Bool :=
  b.remainingTiles == 0

/-- A turn can be taken while nobody shouts and tiles are left, by anyone if nothing has been
drawn yet and else by the player whose turn it is. -/
def canTakeTurn (b : Board) : Bool :=
  b.shouting.isNone && !b.isFull && (b.isEmpty || b.selfPlayer.any Player.hasNextTurn)

/-- A shout needs something to shout about and silence. -/
def canShout (b : Board) : Bool :=
  b.shouting.isNone && !b.isEmpty

def checkTurn (b : Board) : Except BoardError Unit :=
  if b.canTakeTurn then .ok () else .error .turnNotAllowed

def checkShout (b : Board) : Except BoardError Unit :=
  if b.canShout then .ok () else .error .shoutNotAllowed

/-- Whether a game can be played with `n` tiles. -/
def checkTileCapacity (n : UInt8) : Except BoardError Unit :=
  if 1 ≤ n ∧ n ≤ maxTiles then .ok () else .error (.invalidTileCapacity ⟨n, maxTiles⟩)

/-- The numbers of the players that satisfy a condition. -/
def playersWith (b : Board) (p : Player → Bool) : List UInt8 :=
  (b.players.entries.filter (p ·.2)).map Prod.fst

end Board

def BoardError.message : BoardError → String
  | .turnNotAllowed => "it is not possible to take a turn right now"
  | .shoutNotAllowed => "it is not possible to shout right now"
  | .invalidTileCapacity range =>
    s!"tile capacity must be between 1 and {range.max}, got {range.requested}"

end TileRoom
