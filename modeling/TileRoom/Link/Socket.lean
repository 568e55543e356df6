import TileRoom.Link.Error

/-!
# Sockets that write by themselves

`send` and `close` only queue. A writer takes what is queued in order, one piece at a time, and
stops for good after the farewell or after the first write that fails. The bytes of a piece are
counted from before it is queued until the writer takes their count off, after its write has ended.

The writer runs beside whoever uses the socket, in turns. It gives its turn away where it waits: for
a piece, or for the end of a write. Dropping a socket that is not closing tells its writer to stop.
It does so where it waits; in the middle of a turn it goes on until the turn ends. A closing socket
lets its writer finish its work.
-/

namespace TileRoom

/-- What is queued for a writer. -/
inductive Outgoing
  | frame (bytes : List UInt8)
  /-- The last thing that is written. -/
  | farewell
  deriving DecidableEq

/-- How many bytes of it are counted. -/
def Outgoing.length : Outgoing → Nat
  | frame bytes => bytes.length
  | farewell => 0

/-- How far the writing of a piece has got. -/
inductive Progress
  | well
  | badly
  | underWay
  deriving DecidableEq

namespace Socket

/-- What a writer is at. -/
inductive Task
  /-- It is free for the next piece. -/
  | free
  | writing (m : Outgoing)
  /-- The writing of a piece has ended, well or not. The piece is still counted. -/
  | written (m : Outgoing) (well : Bool)
  /-- Its count has been taken off. It is still to be seen whether the writer goes on. -/
  | settled (m : Outgoing) (well : Bool)
  deriving DecidableEq

/-- Whether the turn can be given away. Between the end of a write and the next piece there is
nothing to wait for. -/
def Task.canWait : Task → Bool
  | free | writing _ => true
  | written .. | settled .. => false

/-- Whether a writer has its turn. -/
inductive Mode
  | waiting
  | working
  /-- It has come to its end and never gets a turn again. -/
  | stopped
  deriving DecidableEq

end Socket

structure Socket where
  queue : List Outgoing := []
  task : Socket.Task := .free
  mode : Socket.Mode := .waiting
  buffered : Nat := 0
  /-- Whether the socket has been asked to close. -/
  closing : Bool := false
  /-- Whether the writer has been told to stop. -/
  aborted : Bool := false
  deriving DecidableEq

namespace Socket

/-- Whether the writer still works. -/
def isRunning (s : Socket) : Bool :=
  s.mode ≠ .stopped

/-- Queues a frame. -/
def send (s : Socket) (bytes : List UInt8) : Except LinkError Unit × Socket :=
  if s.isRunning then
    (.ok (), { s with queue := s.queue ++ [.frame bytes], buffered := s.buffered + bytes.length })
  else (.error (.sendFailed "writer has stopped"), s)

/-- Queues the farewell. -/
def close (s : Socket) : Except LinkError Unit × Socket :=
  if s.isRunning then (.ok (), { s with closing := true, queue := s.queue ++ [.farewell] })
  else (.error (.connectionClosed "already closed"), { s with closing := true })

/-- Lets go of the socket. -/
def drop (s : Socket) : Socket :=
  if s.closing then s else { s with aborted := true }

/-! ### The writer -/

/-- The writer gets its turn, if it waits for it. If it has been told to stop it stops instead. -/
def wake (s : Socket) : Socket :=
  match s.mode with
  | .waiting => { s with mode := if s.aborted then .stopped else .working }
  | _ => s

/-- The writer gives its turn away. If it has been told to stop it does not get another. -/
def rest (s : Socket) : Socket :=
  match s.mode, s.task.canWait with
  | .working, true => { s with mode := if s.aborted then .stopped else .waiting }
  | _, _ => s

/-- The writer takes the next piece, if it is free to. It may have waited for it. -/
def take (s : Socket) : Socket :=
  let s := s.wake
  match s.mode, s.task, s.queue with
  | .working, .free, m :: queue => { s with queue, task := .writing m }
  | _, _, _ => s

/-- The writing of a piece ends, well or not. The writer may have waited for that. -/
def finish (s : Socket) (well : Bool) : Socket :=
  let s := s.wake
  match s.mode, s.task with
  | .working, .writing m => { s with task := .written m well }
  | _, _ => s

/-- The writer takes the count of a piece off. -/
def account (s : Socket) : Socket :=
  match s.mode, s.task with
  | .working, .written m well =>
    { s with task := .settled m well, buffered := s.buffered - m.length }
  | _, _ => s

/-- The writer goes on to the next piece, or stops. -/
def conclude (s : Socket) : Socket :=
  match s.mode, s.task with
  | .working, .settled m well =>
    { s with task := .free, mode := if well && m ≠ .farewell then .working else .stopped }
  | _, _ => s

/-- In its turn the writer works on at most so many pieces. `write` begins or goes on with one and
tells how that went. -/
def work {σ : Type} (write : σ → Outgoing → Progress × σ) :
    (pieces : Nat) → σ → Socket → σ × Socket
  | 0, w, s => (w, s)
  | pieces + 1, w, s =>
    let s := s.take
    match s.mode, s.task with
    | .working, .writing m =>
      match write w m with
      | (.well, w) => work write pieces w (s.finish true).account.conclude
      | (.badly, w) => work write pieces w (s.finish false).account.conclude
      | (.underWay, w) => (w, s)
    | _, _ => (w, s)

/-- The writer has a turn, until nothing is queued, or it has stopped, or it cannot go on for now. -/
def settle {σ : Type} (write : σ → Outgoing → Progress × σ) (w : σ) (s : Socket) : σ × Socket :=
  let (w, s) := work write (s.queue.length + 2) w s
  (w, s.rest)

/-- Whether the writer has nothing left to do. -/
def isIdle (s : Socket) : Bool :=
  !s.isRunning || (s.queue.isEmpty && s.task = .free)

end Socket

end TileRoom
