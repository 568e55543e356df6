import TileRoom.Message.Ids
import TileRoom.Wire.Format

/-!
# What the server says

The messages from the server to a client and their format. Their opcodes have the high bit clear.
-/

namespace TileRoom

inductive ServerMessage
  /-- Assigns or confirms the client's identity and player number. -/
  | playerId (person : PersonId) (player : UInt8)
  | message (player : UInt8) (text : String)
  | tileCapacity (tiles : UInt8)
  | tile (num : UInt8) (x y : Int16) (letter : String) (lastMover : UInt8)
  | playerName (player : UInt8) (name : String)
  | playerFlags (player : UInt8) (flags : PlayerFlags)
  | playerShouted (player : UInt8)
  /-- Everything that happened before is told. -/
  | sync
  /-- The session is over. -/
  | sessionEnd
  | badPlayerId
  | conversationId (conversation : ConversationId)
  | badConversationId
  | conversationFull
  deriving DecidableEq

namespace ServerMessage

/-- The shapes of the server's messages. -/
inductive Tag
  | playerId | message | tileCapacity | tile | playerName | playerFlags | playerShouted | sync
  | sessionEnd | badPlayerId | conversationId | badConversationId | conversationFull
  deriving DecidableEq

def Tag.opcode : Tag → UInt8
  | .playerId => 0x00
  | .message => 0x01
  | .tileCapacity => 0x02
  | .tile => 0x03
  | .playerName => 0x04
  | .playerFlags => 0x05
  | .playerShouted => 0x06
  | .sync => 0x07
  | .sessionEnd => 0x08
  | .badPlayerId => 0x09
  | .conversationId => 0x0a
  | .badConversationId => 0x0b
  | .conversationFull => 0x0d

def Tag.kinds : Tag → List Wire.Kind
  | .playerId => [.id, .byte]
  | .message => [.byte, .text]
  | .tileCapacity => [.byte]
  | .tile => [.byte, .coordinate, .coordinate, .text, .byte]
  | .playerName => [.byte, .text]
  | .playerFlags => [.byte, .byte]
  | .playerShouted => [.byte]
  | .conversationId => [.id]
  | _ => []

def tag : ServerMessage → Tag
  | playerId .. => .playerId
  | message .. => .message
  | tileCapacity _ => .tileCapacity
  | tile .. => .tile
  | playerName .. => .playerName
  | playerFlags .. => .playerFlags
  | playerShouted _ => .playerShouted
  | sync => .sync
  | sessionEnd => .sessionEnd
  | badPlayerId => .badPlayerId
  | conversationId _ => .conversationId
  | badConversationId => .badConversationId
  | conversationFull => .conversationFull

def row : (m : ServerMessage) → Wire.Row m.tag.kinds
  | playerId person player => (person.value, player, ())
  | message player text => (player, text, ())
  | tileCapacity tiles => (tiles, ())
  | tile num x y letter lastMover => (num, x, y, letter, lastMover, ())
  | playerName player name => (player, name, ())
  | playerFlags player flags => (player, flags.bits, ())
  | playerShouted player => (player, ())
  | conversationId conversation => (conversation.value, ())
  | sync | sessionEnd | badPlayerId | badConversationId | conversationFull => ()

def build : (t : Tag) → Wire.Row t.kinds → ServerMessage
  | .playerId, (person, player, ()) => playerId ⟨person⟩ player
  | .message, (player, text, ()) => message player text
  | .tileCapacity, (tiles, ()) => tileCapacity tiles
  | .tile, (num, x, y, letter, lastMover, ()) => tile num x y letter lastMover
  | .playerName, (player, name, ()) => playerName player name
  | .playerFlags, (player, flags, ()) => playerFlags player ⟨flags⟩
  | .playerShouted, (player, ()) => playerShouted player
  | .sync, _ => sync
  | .sessionEnd, _ => sessionEnd
  | .badPlayerId, _ => badPlayerId
  | .conversationId, (conversation, ()) => conversationId ⟨conversation⟩
  | .badConversationId, _ => badConversationId
  | .conversationFull, _ => conversationFull

instance : Wire.Format ServerMessage where
  Tag := Tag
  tags := [.playerId, .message, .tileCapacity, .tile, .playerName, .playerFlags, .playerShouted,
    .sync, .sessionEnd, .badPlayerId, .conversationId, .badConversationId, .conversationFull]
  opcode := Tag.opcode
  kinds := Tag.kinds
  tag := tag
  row := row
  build := build

end ServerMessage

end TileRoom
