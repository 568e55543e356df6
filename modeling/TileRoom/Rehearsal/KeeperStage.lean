import TileRoom.Client.Keeper
import TileRoom.Rehearsal.Network

/-!
# Rehearsing a keeper

A keeper on a scripted network, one operation after the other.
-/

namespace TileRoom.Rehearsal

/-- What happens to connections, for the record. -/
inductive Notice
  | attempted
  | opened (id : ConnectionId)
  | closed (id : ConnectionId)
  | dropped (id : ConnectionId)

inductive KeeperStep
  | network (s : NetworkStep)
  | advance (nanos : Nat)
  /-- Makes an attempt to connect and sees it through. -/
  | attempt
  /-- Takes the new connection into use. -/
  | attach
  | send (m : ClientMessage)
  | sendKeepAlive
  | receive (limit : Nat)
  | waitKeepAlive (limit : Nat)
  | disconnect
  | close

inductive KeeperResult
  | ok
  | noConnection
  | nothingToAttach
  | attached (id : ConnectionId)
  | linkError (e : LinkError)
  | clientError (e : ClientError)
  | frame (bytes : List UInt8)
  | closed
  | fired
  | timedOut

structure KeeperStage where
  endpoint : Endpoint
  timeout : Duration
  keeper : Keeper
  network : Network := {}
  now : Instant := 0
  opened : UInt64 := 0
  /-- A connection that was opened and is not in use yet. -/
  spare : Option ConnectionId := none
  /-- What was sent during the current step. -/
  sent : List (Instant × ConnectionId × List UInt8) := []
  /-- What happened to connections during the current step. -/
  journal : List (Instant × Notice) := []

namespace KeeperStage

def note (s : KeeperStage) (n : Notice) : KeeperStage :=
  { s with journal := s.journal ++ [(s.now, n)] }

/-- A connection is gone. -/
def hangUp (s : KeeperStage) (id : ConnectionId) : KeeperStage :=
  { s.note (.dropped id) with network := { s.network with line := none } }

def dropSpare (s : KeeperStage) : KeeperStage :=
  match s.spare with
  | none => s
  | some id => { s.hangUp id with spare := none }

def disconnect (s : KeeperStage) : KeeperStage :=
  match s.keeper.connection with
  | none => { s with keeper := s.keeper.release }
  | some id => { s.hangUp id with keeper := s.keeper.release }

def attempt (s : KeeperStage) : KeeperResult × KeeperStage :=
  let s := s.dropSpare.disconnect.note .attempted
  let (takes, result) := s.network.plan.attempt s.timeout.nanos
  let plan := s.network.plan
  let s := { s with now := s.now + takes }
  match result with
  | .accepted =>
    let id : ConnectionId := ⟨s.opened + 1⟩
    (.ok, { s.note (.opened id) with
      opened := id.value
      spare := some id
      network := { s.network with line := some (.ofPlan plan) } })
  | .refused => (.linkError (.connectFailed s.endpoint.url "refused"), s)
  | .timedOut => (.linkError (.connectTimedOut s.endpoint.url s.timeout), s)

def attach (s : KeeperStage) : KeeperResult × KeeperStage :=
  match s.spare with
  | none => (.nothingToAttach, s)
  | some id =>
    let s := s.disconnect
    (.attached id, { s with spare := none, keeper := s.keeper.attach id })

/-- The way to the server on the open connection. -/
def uplink (s : KeeperStage) : Uplink :=
  (s.network.line.map Line.uplink).getD {}

def send (s : KeeperStage) (m : ClientMessage) : KeeperResult × KeeperStage :=
  match s.keeper.send s.now s.uplink.outcome m with
  | .error e => (.clientError e, s)
  | .ok (id, frame, keeper) =>
    (.ok, { s with
      keeper
      sent := s.sent ++ [(s.now, id, frame)]
      network := { s.network with
        line := s.network.line.map fun l => { l with uplink := l.uplink.spend } } })

/-- Receives what there is on the connection in use, or waits in vain. -/
def receive (s : KeeperStage) (limit : Nat) : KeeperResult × KeeperStage :=
  match s.keeper.connection, s.network.line.bind Line.arrival? with
  | some _, some (arrival, line) =>
    let s := { s with network := { s.network with line := some line } }
    match arrival with
    | .frame bytes => (.frame bytes, s)
    | .failure => (.linkError (.receiveFailed "reset by server"), s)
    | .ended => (.closed, s)
  | _, _ => (.timedOut, { s with now := s.now + limit })

/-- Waits for a deadline that comes within the limit, or in vain. -/
def waitKeepAlive (s : KeeperStage) (limit : Nat) : KeeperResult × KeeperStage :=
  match s.keeper.keepAlive.wait? s.now limit with
  | some takes => (.fired, { s with now := s.now + takes })
  | none => (.timedOut, { s with now := s.now + limit })

def close (s : KeeperStage) : KeeperStage :=
  match s.keeper.connection with
  | none => s.disconnect
  | some id => (s.note (.closed id)).disconnect

/-- Does a step. Only what happens during it is on record afterwards. -/
def step (s : KeeperStage) (step : KeeperStep) : KeeperResult × KeeperStage :=
  let s := { s with sent := [], journal := [] }
  match step with
  | .network n =>
    let (done, network) := s.network.step n
    (if done then .ok else .noConnection, { s with network })
  | .advance nanos => (.ok, { s with now := s.now + nanos })
  | .attempt => s.attempt
  | .attach => s.attach
  | .send m => s.send m
  | .sendKeepAlive => { s with keeper := s.keeper.heard }.send .keepAlive
  | .receive limit => s.receive limit
  | .waitKeepAlive limit => s.waitKeepAlive limit
  | .disconnect => (.ok, s.disconnect)
  | .close => (.ok, s.close)

/-- What the connection in use reports as not yet written. -/
def buffered (s : KeeperStage) : Nat :=
  if s.keeper.isConnected then s.uplink.buffered else 0

end KeeperStage

end TileRoom.Rehearsal
