import TileRoom.Message.Ids
import TileRoom.Wire.Format

/-!
# What a client says

The messages from a client to the server and their format. Their opcodes have the high bit set.
-/

namespace TileRoom

inductive ClientMessage
  /-- Enters a named room as a new player. -/
  | newPlayer (room playerName : String)
  /-- Resumes a seat. The server may skip the chats that were already received. -/
  | reconnect (person : PersonId) (lastSequence : UInt16)
  | keepAlive
  | leave
  | sendMessage (text : String)
  | startTyping
  | stopTyping
  /-- Reports where a tile was dragged to. -/
  | moveTile (tile : UInt8) (x y : Int16)
  /-- Draws the next tile. -/
  | turn
  | shout
  | setTileCapacity (tiles : UInt8)
  /-- Enters the conversation of an invitation. -/
  | joinConversation (conversation : ConversationId) (playerName : String)
  deriving DecidableEq

namespace ClientMessage

/-- The shapes of a client's messages. -/
inductive Tag
  | newPlayer | reconnect | keepAlive | leave | sendMessage | startTyping | stopTyping | moveTile
  | turn | shout | setTileCapacity | joinConversation
  deriving DecidableEq

def Tag.opcode : Tag → UInt8
  | .newPlayer => 0x80
  | .reconnect => 0x81
  | .keepAlive => 0x83
  | .leave => 0x84
  | .sendMessage => 0x85
  | .startTyping => 0x86
  | .stopTyping => 0x87
  | .moveTile => 0x88
  | .turn => 0x89
  | .shout => 0x8a
  | .setTileCapacity => 0x8b
  | .joinConversation => 0x8d

def Tag.kinds : Tag → List Wire.Kind
  | .newPlayer => [.text, .text]
  | .reconnect => [.id, .sequence]
  | .sendMessage => [.text]
  | .moveTile => [.byte, .coordinate, .coordinate]
  | .setTileCapacity => [.byte]
  | .joinConversation => [.id, .text]
  | _ => []

def tag : ClientMessage → Tag
  | newPlayer .. => .newPlayer
  | reconnect .. => .reconnect
  | keepAlive => .keepAlive
  | leave => .leave
  | sendMessage _ => .sendMessage
  | startTyping => .startTyping
  | stopTyping => .stopTyping
  | moveTile .. => .moveTile
  | turn => .turn
  | shout => .shout
  | setTileCapacity _ => .setTileCapacity
  | joinConversation .. => .joinConversation

def row : (m : ClientMessage) → Wire.Row m.tag.kinds
  | newPlayer room name => (room, name, ())
  | reconnect person last => (person.value, last, ())
  | sendMessage text => (text, ())
  | moveTile tile x y => (tile, x, y, ())
  | setTileCapacity tiles => (tiles, ())
  | joinConversation conversation name => (conversation.value, name, ())
  | keepAlive | leave | startTyping | stopTyping | turn | shout => ()

def build : (t : Tag) → Wire.Row t.kinds → ClientMessage
  | .newPlayer, (room, name, ()) => newPlayer room name
  | .reconnect, (person, last, ()) => reconnect ⟨person⟩ last
  | .keepAlive, _ => keepAlive
  | .leave, _ => leave
  | .sendMessage, (text, ()) => sendMessage text
  | .startTyping, _ => startTyping
  | .stopTyping, _ => stopTyping
  | .moveTile, (tile, x, y, ()) => moveTile tile x y
  | .turn, _ => turn
  | .shout, _ => shout
  | .setTileCapacity, (tiles, ()) => setTileCapacity tiles
  | .joinConversation, (conversation, name, ()) => joinConversation ⟨conversation⟩ name

instance : Wire.Format ClientMessage where
  Tag := Tag
  tags := [.newPlayer, .reconnect, .keepAlive, .leave, .sendMessage, .startTyping, .stopTyping,
    .moveTile, .turn, .shout, .setTileCapacity, .joinConversation]
  opcode := Tag.opcode
  kinds := Tag.kinds
  tag := tag
  row := row
  build := build

end ClientMessage

end TileRoom
