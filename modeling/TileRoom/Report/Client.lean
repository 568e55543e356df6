import TileRoom.Client.Basic
import TileRoom.Report.Json

/-!
# Reports of a client

What a client knows and what it reports, as JSON.
-/

namespace TileRoom.Report

def byte (n : UInt8) : Json :=
  .nat n.toNat

def coordinate (n : Int16) : Json :=
  .int n.toInt

def identifier (n : UInt64) : Json :=
  .nat n.toNat

def player (p : Player) : Json :=
  .object [("num", byte p.num), ("name", .text p.name), ("flags", byte p.flags.bits)]

def tile (t : Tile) : Json :=
  .object [("num", byte t.num), ("letter", .text t.letter), ("x", coordinate t.x),
    ("y", coordinate t.y), ("last_mover", byte t.lastMover)]

/-- Numbered things, each under its number. -/
def numbered {α : Type} (f : α → Json) (m : Numbered α) : Json :=
  .object (m.entries.map fun (n, a) => (toString n.toNat, f a))

def board (b : Board) : Json :=
  .object [("players", numbered player b.players), ("tiles", numbered tile b.tiles),
    ("total_tiles", byte b.totalTiles), ("self_num", .option byte b.selfNum),
    ("synced", .bool b.synced), ("shouting", .option byte b.shouting)]

def boardEvent : BoardEvent → Json
  | .selfAssigned n => .tagged "self_assigned" [("player_num", byte n)]
  | .playerNameChanged n name =>
    .tagged "player_name_changed" [("player_num", byte n), ("name", .text name)]
  | .playerFlagsChanged n flags =>
    .tagged "player_flags_changed" [("player_num", byte n), ("flags", byte flags.bits)]
  | .playerJoined n => .tagged "player_joined" [("player_num", byte n)]
  | .playerLeft n => .tagged "player_left" [("player_num", byte n)]
  | .chatMessage n text => .tagged "chat_message" [("player_num", byte n), ("text", .text text)]
  | .tileAdded t => .tagged "tile_added" [("tile", tile t)]
  | .tileMoved t animate => .tagged "tile_moved" [("tile", tile t), ("animate", .bool animate)]
  | .tileCapacityChanged total remaining =>
    .tagged "tile_capacity_changed" [("total_tiles", byte total), ("remaining", .nat remaining)]
  | .turnEligibilityChanged can =>
    .tagged "turn_eligibility_changed" [("can_take_turn", .bool can)]
  | .playerShouted n => .tagged "player_shouted" [("player_num", byte n)]
  | .shoutCleared n => .tagged "shout_cleared" [("player_num", byte n)]
  | .synced => .tagged "synced" []

def sessionState : SessionState → Json
  | .connecting => .text "connecting"
  | .inProgress => .text "in_progress"
  | .done => .text "done"
  | .error => .text "error"

def connectionState : ConnectionState → Json
  | .disconnected => .text "disconnected"
  | .connecting => .text "connecting"
  | .connected => .text "connected"

def session (s : Session) : Json :=
  .object [("person_id", .option (fun p => identifier p.value) s.person),
    ("player_num", .option byte s.player),
    ("conversation_id", .option (fun c => identifier c.value) s.conversation),
    ("state", sessionState s.state), ("connection", connectionState s.connection),
    ("reconnect_attempts", .nat s.attempts),
    ("message_sequence", .nat s.messageSequence.toNat)]

def snapshot (s : Snapshot) : Json :=
  .object [("session", session s.session), ("game", board s.board),
    ("remaining_tiles", .nat s.board.remainingTiles), ("shouting", .option byte s.board.shouting),
    ("self_player", .option player s.board.selfPlayer),
    ("can_take_turn", .bool s.board.canTakeTurn), ("can_shout", .bool s.board.canShout)]

/-- An event under its kind. -/
def event (kind : String) (data : Json) : Json :=
  .object [("kind", .text kind), ("data", data)]

def clientEvent : ClientEvent → Json
  | .board e => event "game" (boardEvent e)
  | .stateChanged s => event "state_changed" (.object [("state", sessionState s)])
  | .connectionChanged c =>
    event "connection_changed" (.object [("connection", connectionState c)])
  | .conversation id =>
    event "conversation_id"
      (.object [("conversation_id", identifier id.value), ("invite_url", .text id.inviteLink)])
  | .failed reason =>
    event "failed" (.object [("key", .text reason.key), ("message", .text reason.message)])

end TileRoom.Report
