import TileRoom.Wire.Error

/-!
# Why a session fails

All failures but one end the session. A frame that breaks the protocol only costs the connection.
-/

namespace TileRoom

inductive SessionFailure
  /-- The budget of consecutive losses is spent. -/
  | transport (attempts : Nat)
  /-- The server sent a frame that could not be read. -/
  | protocolViolation (cause : WireError)
  /-- The server does not know the identity that was to be resumed. -/
  | identityRejected
  | conversationInvalid
  | conversationFull
  /-- The server ended the session unasked. -/
  | unexpectedEnd
  /-- The joining message could not be written. -/
  | invalidJoin (cause : WireError)
  deriving DecidableEq

namespace SessionFailure

def message : SessionFailure → String
  | transport attempts => s!"connection failed after {attempts} attempts"
  | protocolViolation cause => s!"protocol violation: {cause.message}"
  | identityRejected => "the server rejected our player id"
  | conversationInvalid => "the conversation id is not valid"
  | conversationFull => "the conversation is full"
  | unexpectedEnd => "the server ended the session"
  | invalidJoin cause => s!"join message rejected: {cause.message}"

/-- A fixed key under which a wording in any language can be looked up. -/
def key : SessionFailure → String
  | transport _ => "error.transport_failure"
  | protocolViolation _ => "error.protocol_violation"
  | identityRejected => "error.bad_player_id"
  | conversationInvalid => "error.bad_conversation_id"
  | conversationFull => "error.conversation_full"
  | unexpectedEnd => "error.session_ended"
  | invalidJoin _ => "error.invalid_join"

/-- Whether the session is over. -/
def isTerminal : SessionFailure → Bool
  | protocolViolation _ => false
  | _ => true

end SessionFailure

end TileRoom
