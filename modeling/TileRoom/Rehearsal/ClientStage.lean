import TileRoom.Client.Step
import TileRoom.Rehearsal.Network

/-!
# Rehearsing a client

A client on a scripted network. After the start and after each step the client is let do all that
it can do without time passing; when time passes, everything happens at the instant it is due.
-/

namespace TileRoom.Rehearsal

inductive ClientStep
  | network (s : NetworkStep)
  | advance (nanos : Nat)
  | request (r : Request)
  | isRunning
  /-- Leaves, after which nobody is there to ask for anything. -/
  | leave
  /-- Whoever could ask for anything goes away. -/
  | abandon

inductive ClientResult
  | ok
  | noConnection
  /-- There is nobody to ask. -/
  | noHandle
  | running (now : Bool)
  | answer (a : Answer)

/-- An attempt to connect that is under way. -/
structure Attempt where
  due : Instant
  result : AttemptEnd
  plan : Plan

structure ClientStage where
  /-- The client. Its trace is taken off after each reaction. -/
  run : Run
  /-- How long the clock has been running when the client is started. -/
  headStart : Nat
  network : Network := {}
  attempt : Option Attempt := none
  /-- Whether there is somebody to ask for things. -/
  handle : Bool := true
  /-- Whether the client had to set a deadline that the clock cannot show. It does nothing any
  more. -/
  broken : Bool := false
  /-- When the client stopped. -/
  stoppedAt : Option Instant := none
  /-- What the client has done during the current step, the latest first. -/
  record : List (Instant × Effect) := []

namespace ClientStage

/-- How long the clock has been running unless somebody says otherwise. -/
def aDay : Nat := 24 * 60 * 60 * 1_000_000_000

/-- Whether the clock can show an instant of the client's life. -/
def isShown (s : ClientStage) (t : Instant) : Bool :=
  s.headStart + t ≤ Instant.last

/-- Whether an effect sets a deadline that the clock cannot show. -/
def overflows (s : ClientStage) : Instant × Effect → Bool
  | (_, .armed _ due) => !s.isShown due
  | _ => false

/-- What the client has done during the current step. -/
def trace (s : ClientStage) : List (Instant × Effect) :=
  s.record.reverse

/-- Puts what the client has done on record. -/
def takeDown (s : ClientStage) : ClientStage :=
  { s with run := { s.run with trace := [] }, record := s.run.trace.reverse ++ s.record }

/-- Whether the client has stopped. -/
def isStopped (s : ClientStage) : Bool :=
  s.stoppedAt.isSome

/-- The attempt that a client makes. -/
def newAttempt (s : ClientStage) : Attempt :=
  let plan := s.network.plan
  let (takes, result) := plan.attempt s.run.config.connectTimeout.nanos
  { due := s.run.now + takes, result, plan }

/-- The connection that is held after some effects, if `held` was held before them. -/
def heldAfter (held : Option ConnectionId) (trace : List (Instant × Effect)) :
    Option ConnectionId :=
  trace.foldl (fun held e => match e.2 with
    | .opened id => some id
    | .dropped _ => none
    | _ => held) held

/-- The client, which held `held` before it reacted, breaks off where it could not go on. The
connection that it held there goes with it. -/
def breakOff (held : Option ConnectionId) (s : ClientStage) : ClientStage :=
  let trace := s.run.trace.takeWhile fun e => !s.overflows e
  let keeper := { s.run.keeper with connection := heldAfter held trace }
  let run := { s.run with trace, keeper }.release
  { s with
    run
    network := { s.network with line := none }
    attempt := none
    broken := true
    stoppedAt := some run.now }

/-- Brings the surroundings in line with what the client has done since it held `held`. -/
def settleUp (held : Option ConnectionId) (s : ClientStage) : ClientStage :=
  if s.run.trace.any s.overflows then (s.breakOff held).takeDown
  else
    takeDown { s with
      network := { s.network with
        line := if s.run.keeper.isConnected then
          s.network.line.map fun l => { l with uplink := s.run.uplink } else none }
      attempt := if s.run.attempting then s.attempt <|> some s.newAttempt else none
      stoppedAt := if s.run.isFinished then s.stoppedAt <|> some s.run.now else s.stoppedAt }

/-- The client hears of something. -/
def react (s : ClientStage) (stimulus : Stimulus) : ClientStage :=
  if s.broken then s
  else
    let uplink := (s.network.line.map Line.uplink).getD {}
    settleUp s.run.keeper.connection { s with run := s.run.meet { stimulus, uplink } }

/-- The deadlines that are set. -/
def deadlines (s : ClientStage) : List (Timer × Instant) :=
  [Timer.keepAlive, .reconnect, .flushRetry, .shoutClear].filterMap fun t =>
    (s.run.toClient.deadline t).due?.map (t, ·)

/-- What the client would hear of next at the present instant, and the surroundings then. -/
def next? (s : ClientStage) : Option (Stimulus × ClientStage) :=
  if s.isStopped then none
  else match s.attempt.filter (·.due ≤ s.run.now) with
    | some a =>
      let s := { s with attempt := none }
      if a.result = .accepted then
        some (.connected, { s with network := { s.network with line := some (.ofPlan a.plan) } })
      else some (.connectFailed, s)
    | none =>
      match s.network.line.bind Line.arrival? with
      | some (arrival, line) =>
        let s := { s with network := { s.network with line := some line } }
        match arrival with
        | .frame bytes => some (.received bytes, s)
        | .failure => some (.receiveFailed, s)
        | .ended => some (.streamEnded, s)
      | none =>
        (s.deadlines.find? (·.2 ≤ s.run.now)).map fun (t, _) => (.due t, s)

/-- Lets the client do what it can without time passing, in at most `patience` reactions. -/
def settle : (patience : Nat) → ClientStage → ClientStage
  | 0, s => s
  | patience + 1, s =>
    match s.next? with
    | none => s
    | some (stimulus, s) => settle patience (s.react stimulus)

/-- The next instant after the present one at which something is due. -/
def nextInstant? (s : ClientStage) : Option Instant :=
  if s.isStopped then none
  else
    let due := (s.attempt.toList.map Attempt.due ++ s.deadlines.map Prod.snd).filter (s.run.now < ·)
    due.min?

/-- Moves the clock. -/
def setClock (s : ClientStage) (now : Instant) : ClientStage :=
  { s with run := { s.run with now } }

/-- Lets time pass up to an instant, in at most `patience` stages. -/
def passUntil (target : Instant) : (patience : Nat) → ClientStage → ClientStage
  | 0, s => s
  | patience + 1, s =>
    match s.nextInstant?.filter (· ≤ target) with
    | none => s.setClock target
    | some t => passUntil target patience (settle (patience + 1) (s.setClock t))

/-- How many reactions a step may lead to. -/
def patience : Nat := 1000000

/-- The answer that has been given, or that none will come. -/
def answered (s : ClientStage) : Answer :=
  (s.record.findSome? fun e => match e.2 with
    | .answered a => some a
    | _ => none).getD (.refused .closed)

/-- Somebody asks for something. -/
def request (s : ClientStage) (r : Request) : ClientResult × ClientStage :=
  if s.broken then
    match r.admit with
    | .error e => (.answer (.refused e), s)
    | .ok _ => (.answer (.refused .closed), s)
  else
    let s := s.react (.requested r)
    (.answer s.answered, s.settle patience)

/-- A client that has just been started on a network. -/
def start (config : ClientConfig) (plan : Plan) (headStart : Nat := aDay) : ClientStage :=
  settle patience (settleUp none { run := .start config, headStart, network := { plan } })

/-- Does a step. Only what happens during it is on record afterwards. -/
def step (s : ClientStage) (step : ClientStep) : ClientResult × ClientStage :=
  let s := { s with record := [] }
  match step with
  | .network n =>
    let (done, network) := s.network.step n
    (if done then .ok else .noConnection, settle patience { s with network })
  | .advance nanos => (.ok, s.passUntil (s.run.now + nanos) patience)
  | .request r => if s.handle then s.request r else (.noHandle, s)
  | .isRunning => if s.handle then (.running !s.isStopped, s) else (.noHandle, s)
  | .leave =>
    if s.handle then
      let (result, s) := s.request .leave
      (result, { s with handle := false })
    else (.noHandle, s)
  | .abandon =>
    if s.handle then (.ok, settle patience ({ s with handle := false }.react .abandoned))
    else (.noHandle, s)

end ClientStage

end TileRoom.Rehearsal
