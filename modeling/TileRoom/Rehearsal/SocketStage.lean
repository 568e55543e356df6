import TileRoom.Link.Pipe

/-!
# Rehearsing a socket

A socket and a server, joined by two ordered streams of packets. The writer works off its queue,
as far as the pipe to the server takes it, before every step that is not the client's own sending,
closing or dropping. The server sends nothing that its own pipe could not take.
-/

namespace TileRoom.Rehearsal

/-- The client's end of a connection. -/
structure ClientEnd where
  socket : Socket := {}
  peer : Peer := { side := .calling }
  /-- Whether the peer has been handed the piece that the writer is at. -/
  handed : Bool := false
  /-- How many connections there were before it. -/
  number : Nat

inductive SocketStep
  | connect (accepted : Bool)
  | send (bytes : List UInt8)
  | receive
  | close
  | drop
  | serverSend (packets : List Packet)
  | serverDrop
  | serverReceive
  | settle

inductive SocketResult
  | ok
  | noConnection
  | connectFailed
  | linkError (e : LinkError)
  | frame (bytes : List UInt8)
  | closed
  | receiveFailed
  | binary (bytes : List UInt8)
  | farewell
  | gone
  /-- What is waited for cannot come. -/
  | stuck

structure SocketStage where
  client : Option ClientEnd := none
  /-- A dropped socket whose writer may still work. -/
  leftover : Option ClientEnd := none
  server : Option Peer := none
  /-- What the server has sent and the client has not heard. -/
  toClient : List Packet := []
  toServer : Pipe := {}
  /-- What the server has read and not heard. -/
  arrived : List Packet := []
  /-- How many connections there have been. -/
  opened : Nat := 0

namespace SocketStage

/-- A writer works off its queue. -/
def work (s : SocketStage) (e : ClientEnd) : ClientEnd × SocketStage :=
  let alone := s.server.isNone
  let finish (peer : Peer) (pipe : Pipe) : Progress × Peer × Pipe × Bool :=
    if pipe.isFilled then (.well, peer, pipe, false) else (.underWay, peer, pipe, true)
  let write : Peer × Pipe × Bool → Outgoing → Progress × Peer × Pipe × Bool
    | (peer, pipe, true), _ =>
      if alone then (.badly, peer, { pipe with outside := [] }, false) else finish peer pipe.fill
    | (peer, pipe, false), m =>
      let (well, sent, peer) := peer.send alone m.packet
      if well then finish peer (pipe.offer sent) else (.badly, peer, pipe, false)
  let ((peer, toServer, handed), socket) := e.socket.settle write (e.peer, s.toServer, e.handed)
  ({ e with peer, socket, handed }, { s with toServer })

/-- The writers work off their queues. -/
def settle (s : SocketStage) : SocketStage :=
  let s := match s.leftover with
    | none => s
    | some e =>
      let (e, s) := s.work e
      { s with leftover := if e.socket.isIdle then none else some e }
  match s.client with
  | none => s
  | some e =>
    let (e, s) := s.work e
    { s with client := some e }

/-- The client receives. -/
def receive (s : SocketStage) (e : ClientEnd) : SocketResult × SocketStage :=
  let h := e.peer.listen s.server.isNone s.toClient
  let result := match h.heard with
    | .frame bytes => .frame bytes
    | .farewell | .ended => .closed
    | .broken => .receiveFailed
    | .silence => .stuck
  (result, { s with
    client := some { e with peer := h.peer }
    toClient := h.waiting
    toServer := s.toServer.offer h.sent })

/-- Whether nothing more can come from the client. -/
def isOver (s : SocketStage) : Bool :=
  s.client.isNone && s.leftover.isNone && s.toServer.inside.isEmpty

/-- The server reads. If there is nothing to be read, the writers come first. -/
def read (s : SocketStage) : SocketStage :=
  let s := if s.toServer.inside.isEmpty then s.settle else s
  let (packets, toServer) := s.toServer.read
  { s with toServer, arrived := s.arrived ++ packets }

/-- The server listens, and reads as often as it has to, but at most so many times. -/
def serverListen : (times : Nat) → SocketStage → Peer → Heard × Peer × SocketStage
  | 0, s, p =>
    let h := p.listen s.isOver s.arrived
    (h.heard, h.peer, { s with arrived := h.waiting, toClient := s.toClient ++ h.sent })
  | times + 1, s, p =>
    let h := p.listen s.isOver s.arrived
    let s := { s with arrived := h.waiting, toClient := s.toClient ++ h.sent }
    if h.heard = .silence then serverListen times s.read h.peer else (h.heard, h.peer, s)

/-- How many times there can be something to be read. -/
def readings (s : SocketStage) : Nat :=
  let queued := (s.client.toList ++ s.leftover.toList).flatMap fun e => e.socket.queue
  s.toServer.inside.length + s.toServer.outside.length
    + (queued.flatMap fun m => m.packet.chunks).length + 1

/-- The server receives. -/
def serverReceive (s : SocketStage) (p : Peer) : SocketResult × SocketStage :=
  let (heard, p, s) := serverListen s.readings s p
  let result := match heard with
    | .frame bytes => .binary bytes
    | .farewell => .farewell
    | .ended | .broken => .gone
    | .silence => .stuck
  (result, { s with server := some p })

/-- The server sends what it still can. -/
def serverSend (s : SocketStage) (p : Peer) : List Packet → SocketStage
  | [] => { s with server := some p }
  | m :: ms =>
    let (_, sent, p) := p.send s.client.isNone m
    { s with toClient := s.toClient ++ sent }.serverSend p ms

def connect (s : SocketStage) (accepted : Bool) : SocketResult × SocketStage :=
  let fresh : SocketStage := { opened := s.opened }
  if accepted then
    (.ok, { fresh with
      client := some { number := s.opened }
      server := some { side := .accepting }
      opened := s.opened + 1 })
  else (.connectFailed, fresh)

/-- Does something on the client's end. -/
def onClient (s : SocketStage) (act : ClientEnd → SocketResult × SocketStage) :
    SocketResult × SocketStage :=
  match s.client with
  | none => (.noConnection, s)
  | some e => act e

/-- Does something on the server's end. -/
def onServer (s : SocketStage) (act : Peer → SocketResult × SocketStage) :
    SocketResult × SocketStage :=
  match s.server with
  | none => (.noConnection, s)
  | some p => act p

/-- What a socket's own operation comes to. -/
def report (s : SocketStage) (e : ClientEnd) (r : Except LinkError Unit × Socket) :
    SocketResult × SocketStage :=
  (match r.1 with | .ok () => .ok | .error e => .linkError e,
    { s with client := some { e with socket := r.2 } })

def step (s : SocketStage) : SocketStep → SocketResult × SocketStage
  | .send bytes => s.onClient fun e => s.report e (e.socket.send bytes)
  | .close => s.onClient fun e => s.report e e.socket.close
  | .drop => s.onClient fun e =>
    (.ok, { s with client := none, leftover := some { e with socket := e.socket.drop } })
  | .connect accepted => s.settle.connect accepted
  | .receive => let s := s.settle; s.onClient s.receive
  | .serverSend packets =>
    let s := s.settle
    s.onServer fun p => (.ok, s.serverSend p packets)
  | .serverDrop =>
    let s := s.settle
    s.onServer fun _ => (.ok, { s with server := none })
  | .serverReceive => let s := s.settle; s.onServer s.serverReceive
  | .settle => (.ok, s.settle)

end SocketStage

end TileRoom.Rehearsal
