import TileRoom.Board.Event
import TileRoom.Invite.Link
import TileRoom.Session.Basic
import TileRoom.Session.Failure

/-!
# What a client reports
-/

namespace TileRoom

inductive ClientEvent
  | board (event : BoardEvent)
  | stateChanged (state : SessionState)
  | connectionChanged (connection : ConnectionState)
  /-- The conversation can be invited to. -/
  | conversation (id : ConversationId)
  /-- The session is over for this reason. -/
  | failed (reason : SessionFailure)
  deriving DecidableEq

/-- The link that invites to a conversation. -/
def ConversationId.inviteLink (id : ConversationId) : String :=
  Invite.link id.value

end TileRoom
