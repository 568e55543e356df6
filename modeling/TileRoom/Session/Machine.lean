import TileRoom.Message.Client
import TileRoom.Message.Server
import TileRoom.Session.Basic
import TileRoom.Session.Failure
import TileRoom.Time.Backoff

/-!
# The session machine

What each event of the connection and each message of the server means for the session. An
identity counts only while the session is connecting; it starts the budget of losses anew. Once
the session is finished nothing changes it but the record that the connection is gone.
-/

namespace TileRoom

/-- What is to be done with a message once the session has seen it. -/
inductive Dispatch
  /-- Let it change the board. -/
  | forward
  | ignore
  /-- Drop the connection and open another. -/
  | reconnect (reason : SessionFailure)
  /-- The session is over. -/
  | stop (reason : SessionFailure)
  deriving DecidableEq

/-- What is to be done once the connection is lost. -/
inductive Retry
  | after (delay : Duration)
  | giveUp
  deriving DecidableEq

structure Machine where
  policy : ReconnectPolicy
  join : JoinRequest
  playerName : String
  backoff : Backoff
  session : Session := {}
  /-- What ended the session, if it failed. -/
  failure : Option SessionFailure := none
  deriving DecidableEq

namespace Machine

def new (policy : ReconnectPolicy) (join : JoinRequest) (playerName : String) : Machine :=
  let policy := policy.validated
  { policy, join, playerName, backoff := .new policy.delay policy.maxDelay }

def state (m : Machine) : SessionState :=
  m.session.state

def isFinished (m : Machine) : Bool :=
  m.session.state.isFinished

/-- A known identity is resumed. Otherwise the client enters what it was asked to. -/
def hello (m : Machine) : ClientMessage :=
  match m.session.person, m.join with
  | some person, _ => .reconnect person m.session.messageSequence
  | none, .conversation id => .joinConversation id m.playerName
  | none, .room name => .newPlayer name m.playerName

/-- An attempt to connect has started. -/
def connecting (m : Machine) : Machine :=
  { m with session := { m.session with connection := .connecting } }

/-- The connection is open and the hello can be sent. -/
def connected (m : Machine) : Machine :=
  { m with session := { m.session with connection := .connected } }

/-- Ends the session with a failure. -/
def fail (m : Machine) (reason : SessionFailure) : Dispatch × Machine :=
  (.stop reason,
    { m with
      session := { m.session with state := .error, connection := .disconnected }
      failure := some reason })

/-- The server assigned or confirmed an identity. -/
def identify (m : Machine) (person : PersonId) (player : UInt8) : Dispatch × Machine :=
  if m.session.state = .connecting then
    (.forward,
      { m with
        session := { m.session with
          person := some person, player := some player, state := .inProgress, attempts := 0 }
        backoff := m.backoff.reset })
  else (.ignore, m)

/-- A message of the server. -/
def handle (m : Machine) (msg : ServerMessage) : Dispatch × Machine :=
  if m.isFinished then (.ignore, m)
  else match msg with
    | .playerId person player => m.identify person player
    | .message .. =>
      (.forward,
        { m with session := { m.session with messageSequence := m.session.messageSequence + 1 } })
    | .conversationId id =>
      (.forward, { m with session := { m.session with conversation := some id } })
    | .sessionEnd => m.fail .unexpectedEnd
    | .badPlayerId => m.fail .identityRejected
    | .badConversationId => m.fail .conversationInvalid
    | .conversationFull => m.fail .conversationFull
    | _ => (.forward, m)

/-- A frame that could not be read. An unknown opcode comes from a newer server and is passed
over; after any other fault nothing on the connection can be trusted. -/
def onDecodeError (m : Machine) (e : WireError) : Dispatch :=
  if m.isFinished then .ignore
  else match e with
    | .unknownOpcode _ => .ignore
    | _ => .reconnect (.protocolViolation e)

/-- The connection was lost, or an attempt to open one failed. -/
def connectionLost (m : Machine) : Retry × Machine :=
  let m := { m with session := { m.session with connection := .disconnected } }
  if m.isFinished then (.giveUp, m)
  else
    let attempts := m.session.attempts + 1
    let m := { m with session := { m.session with state := .connecting, attempts } }
    if m.policy.maxAttempts.toNat ≤ attempts then (.giveUp, (m.fail (.transport attempts)).2)
    else
      let (delay, backoff) := m.backoff.next
      (.after delay, { m with backoff })

/-- The hello could not be written. It would be the same on every other connection. -/
def helloRejected (m : Machine) (e : WireError) : Dispatch × Machine :=
  if m.isFinished then (.ignore, m) else m.fail (.invalidJoin e)

/-- The client leaves. Tells whether there is a connection to say so on. -/
def leave (m : Machine) : Bool × Machine :=
  if m.isFinished then (false, m)
  else
    (m.session.connection = .connected,
      { m with session := { m.session with state := .done, connection := .disconnected } })

end Machine

end TileRoom
