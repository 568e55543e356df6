import TileRoom.Link.Socket

/-!
# What goes over a socket

Whoever sends on a socket, closes it or drops it does so beside its writer. `Traffic` takes the
calls apart into what they do to the socket one after the other: a send counts its bytes, hands its
frame over, and takes the count back if the frame is refused; a close leaves its mark before it
hands over the farewell. The writer's part comes in the pieces that `Socket` has for it. Any number
of calls can be under way, and between any two pieces of anybody's others can take a step. So a call
can come between the end of a write and the end of its count, and a socket can be let go of while
its writer is in the middle of a turn.

`act_cases` lists what a step can come to. Operations that nothing comes between are those of
`Socket` (`acts_send`, `acts_close`, `acts_work`, `acts_settle`).
-/

namespace TileRoom

/-! ## Calls in pieces -/

namespace Socket

/-- Counts bytes that are to be written. -/
@[simp] def count (s : Socket) (n : Nat) : Socket :=
  { s with buffered := s.buffered + n }

/-- Takes a count back. -/
@[simp] def discount (s : Socket) (n : Nat) : Socket :=
  { s with buffered := s.buffered - n }

/-- Puts a piece into the queue. -/
@[simp] def enqueue (s : Socket) (m : Outgoing) : Socket :=
  { s with queue := s.queue ++ [m] }

/-- Leaves the mark that the socket is closing. -/
@[simp] def mark (s : Socket) : Socket :=
  { s with closing := true }

section Drop

variable (s : Socket)

@[simp] theorem drop_queue : s.drop.queue = s.queue := by
  unfold drop
  split <;> rfl

@[simp] theorem drop_task : s.drop.task = s.task := by
  unfold drop
  split <;> rfl

@[simp] theorem drop_mode : s.drop.mode = s.mode := by
  unfold drop
  split <;> rfl

@[simp] theorem drop_buffered : s.drop.buffered = s.buffered := by
  unfold drop
  split <;> rfl

@[simp] theorem drop_closing : s.drop.closing = s.closing := by
  unfold drop
  split <;> rfl

/-- Only the writer of a socket that is not closing is told to stop. -/
@[simp] theorem drop_aborted : s.drop.aborted = (s.aborted || !s.closing) := by
  unfold drop
  cases s.closing <;> simp

end Drop

section Turns

variable {s : Socket} {m : Outgoing}

/-- Whether the writer has its turn or can have it. -/
theorem wake_mode : s.wake.mode = .working ↔
    s.mode = .working ∨ s.mode = .waiting ∧ s.aborted = false := by
  unfold wake
  cases hmode : s.mode <;> simp [hmode]

theorem wake_eq (hgo : s.wake.mode = .working) : s.wake = { s with mode := .working } := by
  obtain ⟨queue, task, mode, buffered, closing, aborted⟩ := s
  rcases wake_mode.mp hgo with rfl | ⟨rfl, rfl⟩ <;> rfl

theorem take_eq {queue : List Outgoing} (hgo : s.wake.mode = .working) (htask : s.task = .free)
    (hqueue : s.queue = m :: queue) :
    s.take = { s with mode := .working, queue, task := .writing m } := by
  unfold take
  simp only [wake_eq hgo, htask, hqueue]

theorem finish_eq (well : Bool) (hgo : s.wake.mode = .working) (htask : s.task = .writing m) :
    s.finish well = { s with mode := .working, task := .written m well } := by
  unfold finish
  simp only [wake_eq hgo, htask]

end Turns

end Socket

/-- What a call that is under way will do next. -/
inductive SocketCall
  /-- It hands a piece over, which it has counted. -/
  | handing (m : Outgoing)
  /-- It takes back the count of a frame that was refused. -/
  | withdrawing (bytes : List UInt8)
  deriving DecidableEq

/-- How many bytes a call has counted that nobody else knows of. -/
def SocketCall.length : SocketCall → Nat
  | handing m => m.length
  | withdrawing bytes => bytes.length

/-- What is left to do if a piece is refused. A close has counted nothing. -/
def Outgoing.refusal : Outgoing → List SocketCall
  | frame bytes => [.withdrawing bytes]
  | farewell => []

/-- What can be seen of a socket from outside. -/
inductive SocketEvent
  /-- A close has left its mark. -/
  | marked
  /-- The writer has been handed a piece. -/
  | accepted (m : Outgoing)
  /-- A piece was refused, because the writer had stopped. -/
  | refused (m : Outgoing)
  /-- The writer hands a piece to the connection. -/
  | began (m : Outgoing)
  /-- The writing of a piece has ended, well or not. -/
  | ended (m : Outgoing) (well : Bool)
  | dropped
  deriving DecidableEq

namespace SocketEvent

@[simp] def accepted? : SocketEvent → Option Outgoing
  | accepted m => some m
  | _ => none

@[simp] def began? : SocketEvent → Option Outgoing
  | began m => some m
  | _ => none

@[simp] def ended? : SocketEvent → Option (Outgoing × Bool)
  | ended m well => some (m, well)
  | _ => none

/-- Whether nothing may be begun any more afterwards. -/
def isFinal : SocketEvent → Bool
  | began .farewell | ended _ false => true
  | _ => false

end SocketEvent

/-- What the writer has been handed, in this order. -/
def acceptedOf (record : List SocketEvent) : List Outgoing :=
  record.filterMap SocketEvent.accepted?

/-- What the writer has handed to the connection, in this order. -/
def begunOf (record : List SocketEvent) : List Outgoing :=
  record.filterMap SocketEvent.began?

/-- The pieces whose writing has ended, in this order, and whether it did so well. -/
def endedOf (record : List SocketEvent) : List (Outgoing × Bool) :=
  record.filterMap SocketEvent.ended?

/-- A socket, the calls on it, and what has been seen of it. -/
structure Traffic where
  socket : Socket := {}
  calls : List SocketCall := []
  /-- Whether the socket has been let go of. -/
  dropped : Bool := false
  record : List SocketEvent := []
  deriving DecidableEq

/-- One step of the callers or of the writer. -/
inductive SocketAct
  /-- A send begins. -/
  | send (bytes : List UInt8)
  /-- A close begins. -/
  | close
  /-- One of the calls under way goes on. -/
  | goOn (i : Nat)
  | drop
  /-- The writer takes the next piece. -/
  | take
  /-- The writing of a piece ends. -/
  | finish (well : Bool)
  /-- The writer takes the count of a piece off. -/
  | account
  /-- The writer goes on to the next piece, or stops. -/
  | conclude
  /-- The writer gives its turn away. -/
  | rest
  deriving DecidableEq

/-- Whether a step is one of the writer's. -/
def SocketAct.isTurn : SocketAct → Bool
  | take | finish _ | account | conclude | rest => true
  | _ => false

namespace Traffic

def note (t : Traffic) (e : SocketEvent) : Traffic :=
  { t with record := t.record ++ [e] }

/-- A call does what it has to do next. -/
def resume (t : Traffic) : SocketCall → Traffic
  | .handing m =>
    if t.socket.isRunning then { t with socket := t.socket.enqueue m }.note (.accepted m)
    else { t with calls := t.calls ++ m.refusal }.note (.refused m)
  | .withdrawing bytes => { t with socket := t.socket.discount bytes.length }

/-- Takes a step. One that is not possible changes nothing: nobody calls a socket that was let go
of, and nobody lets go of it during a call. -/
def act (t : Traffic) : SocketAct → Traffic
  | .send bytes =>
    if t.dropped then t
    else { t with
      socket := t.socket.count bytes.length
      calls := t.calls ++ [SocketCall.handing (.frame bytes)] }
  | .close =>
    if t.dropped then t
    else { t with
      socket := t.socket.mark
      calls := t.calls ++ [SocketCall.handing .farewell] }.note .marked
  | .goOn i =>
    match t.calls[i]? with
    | some call => { t with calls := t.calls.eraseIdx i }.resume call
    | none => t
  | .drop =>
    if t.dropped || !t.calls.isEmpty then t
    else { t with socket := t.socket.drop, dropped := true }.note .dropped
  | .take =>
    match t.socket.wake.mode, t.socket.task, t.socket.queue with
    | .working, .free, m :: _ => { t with socket := t.socket.take }.note (.began m)
    | _, _, _ => { t with socket := t.socket.take }
  | .finish well =>
    match t.socket.wake.mode, t.socket.task with
    | .working, .writing m => { t with socket := t.socket.finish well }.note (.ended m well)
    | _, _ => { t with socket := t.socket.finish well }
  | .account => { t with socket := t.socket.account }
  | .conclude => { t with socket := t.socket.conclude }
  | .rest => { t with socket := t.socket.rest }

def acts (t : Traffic) (as : List SocketAct) : Traffic :=
  as.foldl act t

section Views

variable (record : List SocketEvent) (e : SocketEvent)

@[simp] theorem acceptedOf_concat :
    acceptedOf (record ++ [e]) = acceptedOf record ++ e.accepted?.toList := by
  cases e <;> simp [acceptedOf]

@[simp] theorem begunOf_concat :
    begunOf (record ++ [e]) = begunOf record ++ e.began?.toList := by
  cases e <;> simp [begunOf]

@[simp] theorem endedOf_concat :
    endedOf (record ++ [e]) = endedOf record ++ e.ended?.toList := by
  cases e <;> simp [endedOf]

end Views

section Notes

variable (t : Traffic) (e : SocketEvent)

@[simp] theorem note_socket : (t.note e).socket = t.socket := rfl

@[simp] theorem note_calls : (t.note e).calls = t.calls := rfl

@[simp] theorem note_dropped : (t.note e).dropped = t.dropped := rfl

@[simp] theorem note_record : (t.note e).record = t.record ++ [e] := rfl

end Notes

theorem acts_append (t : Traffic) (as bs : List SocketAct) :
    t.acts (as ++ bs) = (t.acts as).acts bs :=
  List.foldl_append

/-! ## What a step comes to -/

/-- What a step can do, and when. -/
inductive Acting (t : Traffic) : SocketAct → Traffic → Prop
  | idle {a : SocketAct} : Acting t a t
  | counted (bytes : List UInt8) (h : t.dropped = false) :
      Acting t (.send bytes) { t with
        socket := t.socket.count bytes.length
        calls := t.calls ++ [SocketCall.handing (.frame bytes)] }
  | marked (h : t.dropped = false) :
      Acting t .close ({ t with
        socket := t.socket.mark
        calls := t.calls ++ [SocketCall.handing .farewell] }.note .marked)
  | accepted {i : Nat} {m : Outgoing} (hcall : t.calls[i]? = some (.handing m))
      (hrunning : t.socket.isRunning = true) :
      Acting t (.goOn i) ({ t with
        socket := t.socket.enqueue m
        calls := t.calls.eraseIdx i }.note (.accepted m))
  | refused {i : Nat} {m : Outgoing} (hcall : t.calls[i]? = some (.handing m))
      (hrunning : t.socket.isRunning = false) :
      Acting t (.goOn i) ({ t with calls := t.calls.eraseIdx i ++ m.refusal }.note (.refused m))
  | withdrawn {i : Nat} {bytes : List UInt8} (hcall : t.calls[i]? = some (.withdrawing bytes)) :
      Acting t (.goOn i) { t with
        socket := t.socket.discount bytes.length
        calls := t.calls.eraseIdx i }
  | dropped (hcalls : t.calls = []) (h : t.dropped = false) :
      Acting t .drop ({ t with socket := t.socket.drop, dropped := true }.note .dropped)
  | woke {a : SocketAct} (hmode : t.socket.mode = .waiting) (haborted : t.socket.aborted = false) :
      Acting t a { t with socket := { t.socket with mode := .working } }
  | halted {a : SocketAct} (hwaits : t.socket.mode = .waiting ∨ t.socket.task.canWait = true)
      (haborted : t.socket.aborted = true) :
      Acting t a { t with socket := { t.socket with mode := .stopped } }
  | took {m : Outgoing} {queue : List Outgoing} (hgo : t.socket.wake.mode = .working)
      (htask : t.socket.task = .free) (hqueue : t.socket.queue = m :: queue) :
      Acting t .take ({ t with socket := { t.socket with
        mode := .working, queue, task := .writing m } }.note (.began m))
  | finished {m : Outgoing} (well : Bool) (hgo : t.socket.wake.mode = .working)
      (htask : t.socket.task = .writing m) :
      Acting t (.finish well) ({ t with socket := { t.socket with
        mode := .working, task := .written m well } }.note (.ended m well))
  | accounted {m : Outgoing} {well : Bool} (hmode : t.socket.mode = .working)
      (htask : t.socket.task = .written m well) :
      Acting t .account { t with socket := { t.socket with
        task := .settled m well, buffered := t.socket.buffered - m.length } }
  | wentOn {m : Outgoing} (hmode : t.socket.mode = .working)
      (htask : t.socket.task = .settled m true) (hm : m ≠ .farewell) :
      Acting t .conclude { t with socket := { t.socket with task := .free } }
  | retired {m : Outgoing} {well : Bool} (hmode : t.socket.mode = .working)
      (htask : t.socket.task = .settled m well) (hlast : well = false ∨ m = .farewell) :
      Acting t .conclude { t with socket := { t.socket with task := .free, mode := .stopped } }
  | rested (hmode : t.socket.mode = .working) (hwaits : t.socket.task.canWait = true) :
      Acting t .rest { t with socket := { t.socket with mode := .waiting } }

/-- A writer that is given its turn does no more than that, if there is nothing for it to do. -/
theorem Acting.of_wake (t : Traffic) (a : SocketAct) :
    Acting t a { t with socket := t.socket.wake } := by
  unfold Socket.wake
  split
  · rename_i hmode
    split
    · exact .halted (.inl hmode) ‹_›
    · exact .woke hmode (Bool.eq_false_iff.mpr ‹_›)
  · exact .idle

theorem take_cases (t : Traffic) : Acting t .take (t.act .take) := by
  simp only [act]
  split
  · rename_i hgo htask hqueue
    rw [Socket.take_eq hgo htask hqueue]
    exact .took hgo htask hqueue
  · rename_i hnone
    have hwake : t.socket.take = t.socket.wake := by
      unfold Socket.take
      dsimp only
      split
      · rename_i hgo htask hqueue
        rw [Socket.wake_eq hgo] at htask hqueue
        exact absurd hqueue (hnone _ _ hgo htask)
      · rfl
    rw [hwake]
    exact .of_wake t _

theorem finish_cases (t : Traffic) (well : Bool) :
    Acting t (.finish well) (t.act (.finish well)) := by
  simp only [act]
  split
  · rename_i hgo htask
    rw [Socket.finish_eq well hgo htask]
    exact .finished well hgo htask
  · rename_i hnone
    have hwake : t.socket.finish well = t.socket.wake := by
      unfold Socket.finish
      dsimp only
      split
      · rename_i hgo htask
        rw [Socket.wake_eq hgo] at htask
        exact absurd htask (hnone _ hgo)
      · rfl
    rw [hwake]
    exact .of_wake t _

theorem conclude_cases (t : Traffic) : Acting t .conclude (t.act .conclude) := by
  simp only [act, Socket.conclude]
  split
  · rename_i m well hmode htask
    cases well with
    | false => exact .retired hmode htask (.inl rfl)
    | true =>
        cases m with
        | farewell => exact .retired hmode htask (.inr rfl)
        | frame bytes =>
            have hnext := Acting.wentOn hmode htask Outgoing.noConfusion
            simpa [← hmode] using hnext
  · exact .idle

theorem act_cases (t : Traffic) (a : SocketAct) : Acting t a (t.act a) := by
  cases a with
  | send bytes =>
      simp only [act]
      split
      · exact .idle
      · exact .counted bytes (Bool.eq_false_iff.mpr ‹_›)
  | close =>
      simp only [act]
      split
      · exact .idle
      · exact .marked (Bool.eq_false_iff.mpr ‹_›)
  | goOn i =>
      simp only [act]
      cases hcall : t.calls[i]? with
      | none => exact .idle
      | some call =>
          cases call with
          | handing m =>
              cases hrunning : t.socket.isRunning with
              | true =>
                  simp only [resume, hrunning, if_true]
                  exact .accepted hcall hrunning
              | false =>
                  simp only [resume, hrunning, Bool.false_eq_true, if_false]
                  exact .refused hcall hrunning
          | withdrawing bytes => exact .withdrawn hcall
  | drop =>
      simp only [act]
      split
      · exact .idle
      · rename_i h
        rw [Bool.or_eq_true, not_or] at h
        exact .dropped (by simpa using h.2) (Bool.eq_false_iff.mpr h.1)
  | take => exact take_cases t
  | finish well => exact finish_cases t well
  | account =>
      simp only [act, Socket.account]
      split
      · exact .accounted ‹_› ‹_›
      · exact .idle
  | conclude => exact conclude_cases t
  | rest =>
      simp only [act, Socket.rest]
      split
      · split
        · exact .halted (.inr ‹_›) ‹_›
        · exact .rested ‹_› ‹_›
      · exact .idle

/-! ## What nothing comes between -/

section Alone

variable {t : Traffic}

/-- A send that nothing comes between is the send of the socket. -/
theorem acts_send (hheld : t.dropped = false) (bytes : List UInt8) :
    let t' := t.acts [.send bytes, .goOn t.calls.length, .goOn t.calls.length]
    t'.socket = (t.socket.send bytes).2 ∧ t'.calls = t.calls ∧
      t'.record = t.record ++ [match (t.socket.send bytes).1 with
        | .ok () => .accepted (.frame bytes)
        | .error _ => .refused (.frame bytes)] := by
  obtain ⟨⟨queue, task, mode, buffered, closing, aborted⟩, calls, dropped, record⟩ := t
  obtain rfl : dropped = false := hheld
  cases mode <;>
    simp [acts, act, resume, Socket.send, Socket.isRunning, List.eraseIdx_append, Outgoing.refusal]

/-- So is a close. -/
theorem acts_close (hheld : t.dropped = false) :
    let t' := t.acts [.close, .goOn t.calls.length]
    t'.socket = t.socket.close.2 ∧ t'.calls = t.calls ∧
      t'.record = t.record ++ [.marked, match t.socket.close.1 with
        | .ok () => .accepted .farewell
        | .error _ => .refused .farewell] := by
  obtain ⟨⟨queue, task, mode, buffered, closing, aborted⟩, calls, dropped, record⟩ := t
  obtain rfl : dropped = false := hheld
  cases mode <;>
    simp [acts, act, resume, Socket.close, Socket.isRunning, List.eraseIdx_append, Outgoing.refusal]

theorem act_take_socket (t : Traffic) : (t.act .take).socket = t.socket.take := by
  simp only [act]
  split <;> rfl

theorem act_finish_socket (t : Traffic) (well : Bool) :
    (t.act (.finish well)).socket = t.socket.finish well := by
  simp only [act]
  split <;> rfl

/-- A writer that works off its queue does nothing but take its steps. -/
theorem acts_work {σ : Type} (write : σ → Outgoing → Progress × σ) (pieces : Nat) (w : σ)
    (t : Traffic) : ∃ as : List SocketAct, (∀ a ∈ as, a.isTurn = true) ∧
      (t.acts as).socket = (Socket.work write pieces w t.socket).2 := by
  induction pieces generalizing w t with
  | zero => exact ⟨[], by simp, rfl⟩
  | succ pieces ih =>
      have hgoOn (well : Bool) (w' : σ) : ∃ as : List SocketAct, (∀ a ∈ as, a.isTurn = true) ∧
          (t.acts as).socket = (Socket.work write pieces w'
            ((t.act .take).socket.finish well).account.conclude).2 := by
        let piece : List SocketAct := [.take, .finish well, .account, .conclude]
        obtain ⟨as, has, hsame⟩ := ih w' (t.acts piece)
        refine ⟨piece ++ as, by simpa [piece, SocketAct.isTurn] using has, ?_⟩
        rw [acts_append, hsame, ← act_finish_socket]
        rfl
      have hidle : ∃ as : List SocketAct, (∀ a ∈ as, a.isTurn = true) ∧
          (t.acts as).socket = (t.act .take).socket :=
        ⟨[.take], by simp [SocketAct.isTurn], rfl⟩
      unfold Socket.work
      rw [← act_take_socket]
      dsimp only
      split
      · split
        · exact hgoOn true _
        · exact hgoOn false _
        · exact hidle
      · exact hidle

/-- So does one that has a whole turn. -/
theorem acts_settle {σ : Type} (write : σ → Outgoing → Progress × σ) (w : σ) (t : Traffic) :
    ∃ as : List SocketAct, (∀ a ∈ as, a.isTurn = true) ∧
      (t.acts as).socket = (t.socket.settle write w).2 := by
  obtain ⟨as, has, hsame⟩ := acts_work write (t.socket.queue.length + 2) w t
  refine ⟨as ++ [.rest], by simpa [SocketAct.isTurn, or_imp, forall_and] using has, ?_⟩
  rw [acts_append]
  exact congrArg Socket.rest hsame

end Alone

end Traffic

end TileRoom
