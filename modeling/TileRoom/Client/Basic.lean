import TileRoom.Board.Update
import TileRoom.Client.Event
import TileRoom.Client.Keeper
import TileRoom.Client.Outbox
import TileRoom.Client.Request
import TileRoom.Link.Uplink
import TileRoom.Session.Machine

/-!
# A client under way

`Client` is all that a client remembers. `Run` is a client together with its surroundings: the
time, the way to the server, and the trace of what the client has done. `Effect` lists what it can
do; nothing else that a client does can be seen from outside.
-/

namespace TileRoom

/-- The deadlines that a client sets itself. -/
inductive Timer
  /-- To send something on an idle connection. -/
  | keepAlive
  /-- To try to connect again. -/
  | reconnect
  /-- To look again whether the connection has written everything. -/
  | flushRetry
  /-- To end a shout. -/
  | shoutClear
  deriving DecidableEq

structure Client where
  config : ClientConfig
  machine : Machine
  keeper : Keeper
  board : Board := {}
  outbox : Outbox := {}
  typing : Typing := {}
  /-- Whether an attempt to connect is under way. -/
  attempting : Bool := false
  reconnect : Deadline := {}
  flushRetry : Deadline := {}
  shoutClear : Deadline := {}
  deriving DecidableEq

/-- What a client knows, for whoever shows the game. -/
structure Snapshot where
  session : Session
  board : Board
  deriving DecidableEq

/-- What a request is answered with. -/
inductive Answer
  | done
  | snapshot (s : Snapshot)
  | refused (reason : ClientError)
  deriving DecidableEq

inductive Effect
  /-- An attempt to connect is started. -/
  | attempted
  /-- A connection is taken into use. -/
  | opened (id : ConnectionId)
  /-- A connection is closed with a farewell. -/
  | closed (id : ConnectionId)
  /-- A connection is let go of. -/
  | dropped (id : ConnectionId)
  | sent (id : ConnectionId) (m : ClientMessage) (frame : List UInt8)
  /-- A message did not go out. -/
  | unsent (m : ClientMessage) (reason : ClientError)
  | armed (timer : Timer) (due : Instant)
  | reported (event : ClientEvent)
  | answered (answer : Answer)
  deriving DecidableEq

/-- What a client hears of. -/
inductive Stimulus
  /-- The attempt to connect has led to a connection. -/
  | connected
  | connectFailed
  /-- A frame has come in. -/
  | received (frame : List UInt8)
  /-- The server has closed the connection. -/
  | streamEnded
  | receiveFailed
  | requested (r : Request)
  /-- Nobody is left who could ask for anything. -/
  | abandoned
  | due (t : Timer)
  deriving DecidableEq

/-- What a client hears of at one moment: how long after the moment before, and with which way to
the server. -/
structure Moment where
  wait : Nat := 0
  stimulus : Stimulus
  uplink : Uplink := {}
  deriving DecidableEq

/-- A client, its surroundings, and what it has done in them. -/
structure Run extends Client where
  now : Instant := 0
  uplink : Uplink := {}
  /-- How many connections have been opened. The next one is numbered one higher. -/
  opened : UInt64 := 0
  trace : List (Instant × Effect) := []
  deriving DecidableEq

/-- The deadline of a timer. -/
def Client.deadline (c : Client) : Timer → Deadline
  | .keepAlive => c.keeper.keepAlive
  | .reconnect => c.reconnect
  | .flushRetry => c.flushRetry
  | .shoutClear => c.shoutClear

/-- A client that has not done anything yet. -/
def Client.new (config : ClientConfig) : Client :=
  let config := config.validated
  { config
    machine := .new config.session config.join config.playerName
    keeper := { interval := config.keepAliveInterval } }

def Client.isFinished (c : Client) : Bool :=
  c.machine.isFinished

def Client.snapshot (c : Client) : Snapshot :=
  ⟨c.machine.session, c.board⟩

end TileRoom
