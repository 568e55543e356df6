import TileRoom.Link.Socket
import TileRoom.Utf8

/-!
# The two ends of a socket

Two peers exchange packets, and part with farewells: a peer that has said its own sends nothing
more, but listens until it has heard the other's. A ping calls for a pong and a first farewell for
another. A peer does not answer at once. What it owes goes out with the next packet that it sends,
or before it listens again.

After both farewells the accepting peer takes the connection for over. The calling peer waits for
the other to let go of it.
-/

namespace TileRoom

/-- What travels between two peers. -/
inductive Packet
  | frame (bytes : List UInt8)
  | ping (bytes : List UInt8)
  | pong (bytes : List UInt8)
  | farewell
  /-- Bytes that are no packet at all. -/
  | garbage
  deriving DecidableEq

/-- A text travels as its UTF-8 bytes. -/
def Packet.ofText (s : String) : Packet :=
  .frame (Utf8.encode s)

def Outgoing.packet : Outgoing → Packet
  | frame bytes => .frame bytes
  | farewell => .farewell

/-- Who opened the connection. -/
inductive Side
  | calling
  | accepting
  deriving DecidableEq

/-- Which farewells a peer has said and heard. -/
inductive Parting
  | none
  | said
  | heard
  | both
  deriving DecidableEq

/-- Whether nothing but the end can follow for one who listens. -/
def Parting.isLast : Parting → Bool
  | none | said => false
  | heard | both => true

structure Peer where
  side : Side
  parting : Parting := .none
  /-- The pong or the farewell that is to be sent in return. -/
  owes : Option Packet := none
  /-- Whether the peer has listened for the last time. -/
  deaf : Bool := false
  deriving DecidableEq

/-- What a peer hears. -/
inductive Heard
  | frame (bytes : List UInt8)
  | farewell
  /-- The connection is over as it should be. -/
  | ended
  /-- The connection is over as it should not be. -/
  | broken
  /-- Nothing has come yet. -/
  | silence
  deriving DecidableEq

/-- What listening leads to. -/
structure Hearing where
  heard : Heard
  peer : Peer
  /-- What has come and is not heard yet. -/
  waiting : List Packet
  /-- What the peer has sent. -/
  sent : List Packet := []

namespace Peer

/-- The most bytes that a ping or a pong may carry. -/
def maxHeartbeat : Nat := 125

def deafen (p : Peer) : Peer :=
  { p with deaf := true }

/-- Whether a peer takes its connection for over. -/
def isThrough (p : Peer) : Bool :=
  p.side = .accepting && p.parting.isLast

/-- Sends a packet, unless the peer has begun to part. `alone` says that the other has let go of
the connection. Tells whether that went well and what was sent. Garbage can always be sent. -/
def send (p : Peer) (alone : Bool) : Packet → Bool × List Packet × Peer
  | .garbage => (true, [.garbage], p)
  | m =>
    if p.parting = .none then
      (!alone, if alone then [] else m :: p.owes.toList,
        { p with owes := none, parting := if m = .farewell then .said else p.parting })
    else (false, [], p)

/-- Sends what is owed before listening. Tells what was sent, and what there is to hear if the
peer need not listen any more. -/
def settleDebt (p : Peer) (alone : Bool) : Option Heard × List Packet × Peer :=
  match p.owes with
  | some _ =>
    if alone then (some .broken, [], { p with owes := none, deaf := true })
    else if p.isThrough then (some .ended, p.owes.toList, { p with owes := none, deaf := true })
    else (none, p.owes.toList, { p with owes := none })
  | none => if p.isThrough then (some .ended, [], p.deafen) else (none, [], p)

/-- Hears that the other has let go of the connection. -/
def hearEnd (p : Peer) : Heard × Peer :=
  (if p.parting.isLast then .ended else .broken, p.deafen)

/-- A heartbeat that is too long breaks the connection. One that is not calls for nothing more
than a pong in return for a ping, and for that only until the peer has said farewell. -/
def hearHeartbeat (p : Peer) (bytes : List UInt8) (reply : Option Packet) :
    Option Heard × Peer :=
  if maxHeartbeat < bytes.length then (some .broken, p.deafen)
  else (none, if p.parting = .none then { p with owes := reply <|> p.owes } else p)

/-- Hears a packet. Tells what there is to say about it, if anything. -/
def hear (p : Peer) (m : Packet) : Option Heard × Peer :=
  if p.parting.isLast then (some .broken, p.deafen)
  else match m with
    | .frame bytes => (some (.frame bytes), p)
    | .ping bytes => p.hearHeartbeat bytes (some (.pong bytes))
    | .pong bytes => p.hearHeartbeat bytes none
    | .garbage => (some .broken, p.deafen)
    | .farewell =>
      if p.parting = .said then (some .farewell, { p with parting := .both })
      else (some .farewell, { p with parting := .heard, owes := some .farewell })

/-- Listens until there is something to tell. -/
def listen (alone : Bool) (p : Peer) : (waiting : List Packet) → Hearing
  | [] =>
    if p.deaf then { heard := .ended, peer := p, waiting := [] }
    else match p.settleDebt alone with
      | (some heard, sent, p) => { heard, peer := p, waiting := [], sent }
      | (none, sent, p) =>
        if alone then { heard := p.hearEnd.1, peer := p.hearEnd.2, waiting := [], sent }
        else { heard := .silence, peer := p, waiting := [], sent }
  | m :: ms =>
    if p.deaf then { heard := .ended, peer := p, waiting := m :: ms }
    else match p.settleDebt alone with
      | (some heard, sent, p) => { heard, peer := p, waiting := m :: ms, sent }
      | (none, sent, p) =>
        match p.hear m with
        | (some heard, p) => { heard, peer := p, waiting := ms, sent }
        | (none, p) =>
          let h := listen alone p ms
          { h with sent := sent ++ h.sent }

end Peer

end TileRoom
