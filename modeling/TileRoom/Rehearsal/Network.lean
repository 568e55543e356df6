import TileRoom.Link.Endpoint
import TileRoom.Link.Uplink

/-!
# A scripted network

A network that does what it is told: how it takes an attempt to connect, what the server sends on
the open connection, and how the connection takes what is sent on it. Time is counted in
nanoseconds and passes only when a script lets it.
-/

namespace TileRoom.Rehearsal

/-- How an attempt to connect goes. -/
inductive Reception
  | accept
  | refuse
  /-- It never ends. -/
  | hang

/-- How attempts go from now on. -/
structure Plan where
  reception : Reception := .accept
  /-- How long an attempt takes. -/
  delay : Nat := 0
  /-- What a new connection reports as not yet written. -/
  buffered : Nat := 0
  /-- How many sends succeed on a new connection, if not all. -/
  failAfter : Option Nat := none

/-- How an attempt ended. -/
inductive AttemptEnd
  | accepted
  | refused
  | timedOut
  deriving DecidableEq

/-- How long an attempt takes that may take `timeout` at most, and how it ends. An attempt that
ends just in time counts. -/
def Plan.attempt (p : Plan) (timeout : Nat) : Nat × AttemptEnd :=
  match p.reception with
  | .hang => (timeout, .timedOut)
  | .accept => if p.delay ≤ timeout then (p.delay, .accepted) else (timeout, .timedOut)
  | .refuse => if p.delay ≤ timeout then (p.delay, .refused) else (timeout, .timedOut)

/-- What comes in from the server. -/
inductive Inbound
  | frame (bytes : List UInt8)
  | failure

/-- The open connection. -/
structure Line where
  uplink : Uplink := {}
  /-- What has been sent by the server and not been received. -/
  inbox : List Inbound := []
  /-- Whether the server has closed the connection. -/
  ended : Bool := false

namespace Line

/-- A connection that was accepted under a plan. -/
def ofPlan (p : Plan) : Line :=
  { uplink := { accepts := p.failAfter, buffered := p.buffered } }

/-- The server sends. Nothing gets through on a connection that it has closed. -/
def push (l : Line) (items : List Inbound) : Line :=
  if l.ended then l else { l with inbox := l.inbox ++ items }

/-- What the client receives next. -/
inductive Arrival
  | frame (bytes : List UInt8)
  | failure
  | ended

/-- The next thing to be received. The end comes after all else, and again and again. -/
def arrival? (l : Line) : Option (Arrival × Line) :=
  match l.inbox with
  | .frame bytes :: inbox => some (.frame bytes, { l with inbox })
  | .failure :: inbox => some (.failure, { l with inbox })
  | [] => if l.ended then some (.ended, l) else none

end Line

structure Network where
  plan : Plan := {}
  line : Option Line := none

/-- What a script can do to a network. All but the first need an open connection. -/
inductive NetworkStep
  | plan (p : Plan)
  | server (frames : List (List UInt8))
  | serverClose (frames : List (List UInt8))
  | serverError
  | buffered (amount : Nat)
  | failSends (after : Option Nat)
  /-- Saying farewell will be reported to have failed. Nobody minds. -/
  | failClose

/-- What a step does to the open connection. -/
def NetworkStep.onLine (l : Line) : NetworkStep → Line
  | .plan _ | .failClose => l
  | .server frames => l.push (frames.map .frame)
  | .serverClose frames => { l.push (frames.map .frame) with ended := true }
  | .serverError => l.push [.failure]
  | .buffered amount => { l with uplink := { l.uplink with buffered := amount } }
  | .failSends after => { l with uplink := { l.uplink with accepts := after } }

/-- Does a step. Tells whether it could be done. -/
def Network.step (n : Network) : NetworkStep → Bool × Network
  | .plan p => (true, { n with plan := p })
  | s =>
    match n.line with
    | none => (false, n)
    | some l => (true, { n with line := some (s.onLine l) })

end TileRoom.Rehearsal
