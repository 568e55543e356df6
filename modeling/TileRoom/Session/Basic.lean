import TileRoom.Message.Ids
import TileRoom.Time.Duration

/-!
# Sessions

A session outlives its connections. It records who the client is, where it is in its life, how the
connection is doing, and how many chats were received, so that a resumed seat need not hear them
again.
-/

namespace TileRoom

/-- How often and how fast a lost connection is replaced. -/
@[ext] structure ReconnectPolicy where
  /-- The number of consecutive losses that ends the session. -/
  maxAttempts : UInt32 := 10
  delay : Duration := .ofSecs 2
  /-- The ceiling of the doubling delay. -/
  maxDelay : Duration := .ofSecs 32
  deriving DecidableEq

/-- At least one attempt, and a ceiling not below the first delay. -/
def ReconnectPolicy.validated (p : ReconnectPolicy) : ReconnectPolicy :=
  { p with
    maxAttempts := if p.maxAttempts = 0 then 1 else p.maxAttempts
    maxDelay := p.maxDelay.longer p.delay }

/-- What to enter as long as there is no identity to resume. -/
inductive JoinRequest
  | room (name : String)
  | conversation (id : ConversationId)
  deriving DecidableEq

instance : Inhabited JoinRequest := ⟨.room "default"⟩

/-- Where a session is in its life. -/
inductive SessionState
  /-- Waiting for the server to assign or confirm the identity. -/
  | connecting
  | inProgress
  /-- The client left. -/
  | done
  /-- The session failed. -/
  | error
  deriving DecidableEq

def SessionState.isFinished : SessionState → Bool
  | connecting | inProgress => false
  | done | error => true

/-- How the current connection is doing. -/
inductive ConnectionState
  | disconnected
  | connecting
  | connected
  deriving DecidableEq

/-- What the client knows about its seat. -/
structure Session where
  person : Option PersonId := none
  player : Option UInt8 := none
  conversation : Option ConversationId := none
  state : SessionState := .connecting
  connection : ConnectionState := .disconnected
  /-- Losses since the last accepted identity. -/
  attempts : Nat := 0
  /-- Chats received, counted modulo the range. -/
  messageSequence : UInt16 := 0
  deriving DecidableEq

end TileRoom
