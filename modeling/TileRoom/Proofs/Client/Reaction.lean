import TileRoom.Proofs.Client.Sending
import TileRoom.Proofs.Session.Finality

/-!
# What a reaction comes to

`Handling` lists what an unfinished client can do about a stimulus that reaches it, one constructor
for each way to end, and `handle_cases` says that the list is complete. `Meeting` does the same for
a whole moment, with the stimuli that reach nobody. Every invariant of a run is shown by going
through these lists.
-/

namespace TileRoom

/-- Whether a stimulus comes over the connection. -/
def Stimulus.isInbound : Stimulus → Bool
  | .received _ | .streamEnded | .receiveFailed => true
  | _ => false

/-- Whether a stimulus tells that a connection is lost or could not be opened. A frame that breaks
the protocol costs the connection; one of an unknown kind does not. -/
def Stimulus.isLoss : Stimulus → Bool
  | .connectFailed | .streamEnded | .receiveFailed => true
  | .received frame =>
    match Wire.decode ServerMessage frame with
    | .ok _ | .error (.unknownOpcode _) => false
    | .error _ => true
  | _ => false

/-- What the client itself hears of at a moment. A request that is refused at once does not reach
it. -/
def Moment.heard? (m : Moment) : Option Stimulus :=
  match m.stimulus with
  | .requested q =>
    match q.admit with
    | .ok q => some (.requested q)
    | .error _ => none
  | s => some s

/-- What is heard of is what comes, but that a request is heard of as it has been admitted. -/
theorem Moment.heard?_cases {m : Moment} {s : Stimulus} (h : m.heard? = some s) :
    ((∀ q, m.stimulus ≠ .requested q) ∧ m.stimulus = s) ∨
      ∃ q q', m.stimulus = .requested q ∧ q.admit = .ok q' ∧ s = .requested q' := by
  unfold heard? at h
  cases hs : m.stimulus with
  | requested q =>
      rw [hs] at h
      cases hq : q.admit with
      | error e => simp [hq] at h
      | ok q' => exact .inr ⟨q, q', rfl, hq, by simpa [hq] using h.symm⟩
  | _ =>
      rw [hs] at h
      exact .inl ⟨by simp, Option.some.inj h⟩

namespace Run

/-! ## Requests that are answered with their outcome -/

/-- How a request to send a message can end, if `check` says whether the board allows it. -/
inductive Asking (r : Run) (m : ClientMessage) : Except BoardError Unit → Run → Prop
  | denied (e : BoardError) : Asking r m (.error e) (r.answer (.refused (.board e)))
  | unconnected (h : r.keeper.connection = none) :
      Asking r m (.ok ()) ((r.log (.unsent m .notConnected)).answer (.refused .notConnected))
  | unwritable (e : WireError) (he : Wire.encode m = .error e) :
      Asking r m (.ok ()) ((r.log (.unsent m (.wire e))).answer (.refused (.wire e)))
  | lost {id} (e : LinkError) (h : r.keeper.connection = some id) :
      Asking r m (.ok ())
        (((r.log (.unsent m (.link e))).connectionLost r.machine.state).answer
          (.refused (.link e)))
  | out {id} (h : r.keeper.connection = some id) :
      Asking r m (.ok ()) ((r.sent id m).answer .done)

theorem sendAndAnswer_cases (r : Run) (m : ClientMessage) :
    Asking r m (.ok ()) (r.sendAndAnswer m) := by
  have hpost := post_cases r m
  unfold sendAndAnswer
  generalize r.post m = result at hpost ⊢
  cases hpost with
  | unconnected h => exact .unconnected h
  | unwritable _ he => exact .unwritable _ he
  | refused h _ => exact .lost _ h
  | out h => exact .out h

theorem sendIfAllowed_cases (r : Run) (m : ClientMessage) (check : Except BoardError Unit) :
    Asking r m check (r.sendIfAllowed m check) := by
  cases check with
  | error e => exact .denied e
  | ok _ => exact sendAndAnswer_cases r m

/-! ## Leaving -/

/-- The run when the session is left and nothing has been said about it. -/
def left (r : Run) : Run :=
  { r with machine := r.machine.leave.2 }

/-- How leaving can end. -/
inductive Leaving (r : Run) : Run → Prop
  | silent (h : r.machine.leave.1 = false) : Leaving r (r.left.reportState r.machine.state)
  | unsaid (h : r.machine.leave.1 = true) (e : ClientError) (he : e.AppliesTo .leave) :
      Leaving r ((r.left.log (.unsent .leave e)).reportState r.machine.state)
  | said {id} (h : r.machine.leave.1 = true) (hid : r.keeper.connection = some id) :
      Leaving r ((r.left.sent id .leave).reportState r.machine.state)

theorem leave_cases (r : Run) : Leaving r r.leave := by
  have hpost := post_cases r.left .leave
  show Leaving r
    ((if r.machine.leave.1 then (r.left.post .leave).2 else r.left).reportState r.machine.state)
  cases hleave : r.machine.leave.1 with
  | false => exact .silent hleave
  | true =>
      rw [if_pos rfl]
      generalize r.left.post .leave = result at hpost ⊢
      cases hpost with
      | unconnected _ => exact .unsaid hleave _ trivial
      | unwritable _ he => exact .unsaid hleave _ he
      | refused _ _ => exact .unsaid hleave _ trivial
      | out hid => exact .said hleave hid

/-! ## All stimuli -/

/-- What an unfinished client can do about a stimulus that reaches it. -/
inductive Handling (r : Run) : Stimulus → Run → Prop
  | opened {r'} (h : r.attempting = true) (ho : Opening { r with attempting := false } r') :
      Handling r .connected r'
  | unopened (h : r.attempting = true) :
      Handling r .connectFailed
        ({ r with attempting := false }.connectionLost r.machine.state)
  | forwarded {frame m machine} (hdecode : Wire.decode ServerMessage frame = .ok m)
      (hhandle : r.machine.handle m = (.forward, machine)) :
      Handling r (.received frame)
        (({ r with machine }.applyMessage m).reportState r.machine.state)
  | ignored {frame} (hloss : (Stimulus.received frame).isLoss = false)
      (hidle : ∀ m, Wire.decode ServerMessage frame = .ok m →
        r.machine.handle m = (.ignore, r.machine)) : Handling r (.received frame) r
  | stopped {frame m} (reason : SessionFailure)
      (hdecode : Wire.decode ServerMessage frame = .ok m)
      (hhandle : r.machine.handle m = r.machine.fail reason) :
      Handling r (.received frame)
        ({ r with machine := (r.machine.fail reason).2 }.reportState r.machine.state)
  /-- The frame breaks the protocol, or there will be no more of them. -/
  | cutOff {s : Stimulus} {id} (h : r.keeper.connection = some id) (hs : s.isInbound = true)
      (hloss : s.isLoss = true) : Handling r s (r.connectionLost r.machine.state)
  | chat {text id ok r'} (h : r.keeper.connection = some id)
      (hsend : Sending (r.answer .done) (.sendMessage text) (ok, r')) :
      Handling r (.requested (.sendMessage text)) r'
  | held {text} (h : r.keeper.connection = none) :
      Handling r (.requested (.sendMessage text))
        { r.answer .done with outbox := r.outbox.hold (.sendMessage text) }
  | typing {value id ok r'} (h : r.keeper.connection = some id)
      (hburst : Bursting { r.answer .done with typing := (r.typing.set value true).2 } id
        (r.typing.set value true).1.toList (ok, r')) :
      Handling r (.requested (.setTyping value)) r'
  | untold {value} (h : r.keeper.connection = none) :
      Handling r (.requested (.setTyping value))
        { r.answer .done with typing := (r.typing.set value false).2 }
  | moved {tile x y r'}
      (hflush : Flushing { r.answer .done with outbox := r.outbox.markDirty tile x y } r') :
      Handling r (.requested (.moveTile tile x y)) r'
  | turn {r'} (h : Asking r .turn r.board.checkTurn r') : Handling r (.requested .takeTurn) r'
  | shout {r'} (h : Asking r .shout r.board.checkShout r') : Handling r (.requested .shout) r'
  | capacity {tiles r'} (h : Asking r (.setTileCapacity tiles) (.ok ()) r') :
      Handling r (.requested (.setTileCapacity tiles)) r'
  | snapshot :
      Handling r (.requested .snapshot) (r.answer (.snapshot r.toClient.snapshot))
  | left {r'} (h : Leaving r r') : Handling r (.requested .leave) (r'.answer .done)
  | abandoned {r'} (h : Leaving r r') : Handling r .abandoned r'
  | keptAlive {ok r'}
      (hsend : Sending { r with keeper := r.keeper.heard } .keepAlive (ok, r')) :
      Handling r (.due .keepAlive) r'
  | reconnecting (h : r.reconnect.isArmed = true) :
      Handling r (.due .reconnect) { r with reconnect := r.reconnect.cancel }.connect
  | flushed {r'} (hflush : Flushing { r with flushRetry := r.flushRetry.cancel } r') :
      Handling r (.due .flushRetry) r'
  | quietened :
      Handling r (.due .shoutClear)
        ({ r with shoutClear := r.shoutClear.cancel, board := r.board.clearShout.1 }.reportBoard
          r.board.clearShout.2)

theorem reportState_self (r : Run) : r.reportState r.machine.state = r := by
  unfold reportState
  rw [if_pos rfl]

theorem onFrame_cases {r : Run} {id : ConnectionId} (h : r.machine.isFinished = false)
    (hid : r.keeper.connection = some id) (frame : List UInt8) :
    Handling r (.received frame) (r.onFrame frame) := by
  unfold onFrame
  cases hdecode : Wire.decode ServerMessage frame with
  | ok m =>
      have hcases := Machine.handle_cases h m
      simp only
      cases hhandle : r.machine.handle m with
      | mk dispatch machine =>
          rw [hhandle] at hcases
          cases hcases with
          | forwarded _ _ _ => exact .forwarded hdecode hhandle
          | ignored =>
              -- nothing has changed, so there is no state to report
              simp only [reduceCtorEq, if_false, reportState_self]
              refine .ignored (by simp only [Stimulus.isLoss, hdecode]) ?_
              intro m' hm'
              obtain rfl := Except.ok.inj (hdecode.symm.trans hm')
              exact hhandle
          | stopped reason =>
              simp only [reduceCtorEq, if_false]
              exact .stopped reason hdecode hhandle
  | error e =>
      simp only [Machine.onDecodeError, h, Bool.false_eq_true, if_false]
      cases e with
      -- a peer that knows more messages is borne with, a broken frame is not
      | unknownOpcode _ =>
          refine .ignored (by simp only [Stimulus.isLoss, hdecode]) ?_
          intro m hm
          rw [hdecode] at hm
          cases hm
      | _ => exact .cutOff hid rfl (by simp only [Stimulus.isLoss, hdecode])

theorem onRequest_cases (r : Run) (q : Request) : Handling r (.requested q) (r.onRequest q) := by
  cases q with
  | sendMessage text =>
      unfold onRequest Keeper.isConnected
      cases hid : r.keeper.connection with
      | none =>
          simp only [answer_toClient, hid, Option.isSome_none, Bool.false_eq_true, if_false]
          exact .held hid
      | some id =>
          simp only [answer_toClient, hid, Option.isSome_some, if_true]
          exact .chat hid (send_cases _ _)
  | setTyping value =>
      unfold onRequest Keeper.isConnected
      cases hid : r.keeper.connection with
      | none =>
          simp only [answer_toClient, hid, Option.isSome_none]
          exact .untold hid
      | some id =>
          simp only [answer_toClient, hid, Option.isSome_some]
          exact .typing hid (sendAll_cases
            (r := { r.answer .done with typing := (r.typing.set value true).2 }) hid _)
  | moveTile tile x y => exact .moved (flush_cases _)
  | takeTurn => exact .turn (sendIfAllowed_cases _ _ _)
  | shout => exact .shout (sendIfAllowed_cases _ _ _)
  | setTileCapacity tiles => exact .capacity (sendAndAnswer_cases _ _)
  | snapshot => exact .snapshot
  | leave => exact .left (leave_cases r)

theorem exists_connection {k : Keeper} (h : k.isConnected = true) :
    ∃ id, k.connection = some id :=
  Option.isSome_iff_exists.mp h

theorem isConnected_of_connection {k : Keeper} {id : ConnectionId} (h : k.connection = some id) :
    k.isConnected = true := by
  rw [Keeper.isConnected, h]
  rfl

theorem isConnected_eq_false {k : Keeper} (h : k.connection = none) : k.isConnected = false := by
  rw [Keeper.isConnected, h]
  rfl

/-- The list is complete. -/
theorem handle_cases {r : Run} {s : Stimulus} (h : r.machine.isFinished = false)
    (enabled : r.isEnabled s = true) : Handling r s (r.handle s) := by
  cases s with
  | connected => exact .opened enabled (onConnected_cases _)
  | connectFailed => exact .unopened enabled
  | received frame =>
      obtain ⟨id, hid⟩ := exists_connection enabled
      exact onFrame_cases h hid frame
  | streamEnded =>
      obtain ⟨id, hid⟩ := exists_connection enabled
      exact .cutOff hid rfl rfl
  | receiveFailed =>
      obtain ⟨id, hid⟩ := exists_connection enabled
      exact .cutOff hid rfl rfl
  | requested q => exact onRequest_cases r q
  | abandoned => exact .abandoned (leave_cases r)
  | due t =>
      cases t with
      | keepAlive => exact .keptAlive (send_cases _ _)
      | reconnect => exact .reconnecting (Deadline.isArmed_of_isDue enabled)
      | flushRetry => exact .flushed (flush_cases _)
      | shoutClear => exact .quietened

/-! ## Whole moments -/

@[simp] theorem tearDown_toClient (r : Run) :
    r.tearDown.toClient =
      { r.toClient with
        attempting := false
        reconnect := r.reconnect.cancel
        flushRetry := r.flushRetry.cancel
        shoutClear := r.shoutClear.cancel
        outbox := r.outbox.clear
        keeper := if r.keeper.isConnected then r.keeper.release else r.keeper } := by
  rcases r.tearDown_cases with ⟨hnone, heq⟩ | ⟨id, hid, heq⟩
  · rw [heq, isConnected_eq_false hnone]
    rfl
  · rw [heq, close_toClient, isConnected_of_connection hid]
    rfl

theorem tearDown_gone (r : Run) : r.tearDown.keeper.connection = none := by
  rw [tearDown_toClient]
  cases hline : r.keeper.isConnected with
  | true => rfl
  | false => simpa [Keeper.isConnected] using hline

/-- The run when a moment has come and nothing has been done about it. -/
def arrive (r : Run) (m : Moment) : Run :=
  { r with now := r.now + m.wait, uplink := m.uplink }

theorem arrive_deals (r : Run) (m : Moment) : Deals r (r.arrive m) [] :=
  .of_trace_eq rfl

/-- How a moment can end that comes to an unfinished client. -/
inductive Meeting (r : Run) (m : Moment) : Run → Prop
  | refused (reason : ClientError) (h : m.heard? = none) :
      Meeting r m ((r.arrive m).answer (.refused reason))
  | unheard {s} (h : m.heard? = some s) (hs : (r.arrive m).isEnabled s = false) :
      Meeting r m (r.arrive m)
  | handled {s r'} (h : m.heard? = some s) (hs : (r.arrive m).isEnabled s = true)
      (hr : Handling (r.arrive m) s r') (hgoing : r'.isFinished = false) : Meeting r m r'
  | torn {s r'} (h : m.heard? = some s) (hs : (r.arrive m).isEnabled s = true)
      (hr : Handling (r.arrive m) s r') (hdone : r'.isFinished = true) : Meeting r m r'.tearDown

theorem advance_cases {r : Run} {m : Moment} {s : Stimulus} (h : (r.arrive m).isFinished = false)
    (hs : m.heard? = some s) : Meeting r m ((r.arrive m).advance s) := by
  unfold advance
  cases enabled : (r.arrive m).isEnabled s with
  | false => exact .unheard hs enabled
  | true =>
      have hr := handle_cases h enabled
      simp only [if_true]
      cases hdone : ((r.arrive m).handle s).isFinished with
      | false => exact .handled hs enabled hr hdone
      | true => exact .torn hs enabled hr hdone

theorem meet_cases {r : Run} (h : r.isFinished = false) (m : Moment) :
    Meeting r m (r.meet m) := by
  have hgoing : (r.arrive m).isFinished = false := h
  have hadvance {s} (hs : m.heard? = some s) := advance_cases hgoing hs
  show Meeting r m ((r.arrive m).react m.stimulus)
  unfold Moment.heard? at hadvance
  unfold react
  cases hs : m.stimulus with
  | requested q =>
      simp only
      cases hq : q.admit with
      | error e =>
          refine .refused e ?_
          simp only [Moment.heard?, hs, hq]
      | ok q' =>
          simp only [hs, hq] at hadvance
          simpa only [hgoing, Bool.false_eq_true, if_false] using hadvance rfl
  | _ =>
      simp only [hs] at hadvance
      simpa only [hgoing, Bool.false_eq_true, if_false] using hadvance rfl

/-- A finished client does no more than refuse requests. -/
theorem meet_of_isFinished {r : Run} (h : r.isFinished = true) (m : Moment) :
    (r.meet m).toClient = r.toClient ∧ Deals r (r.meet m) [] := by
  have hdone : (r.arrive m).isFinished = true := h
  have hsame : (r.arrive m).toClient = r.toClient ∧ Deals r (r.arrive m) [] :=
    ⟨rfl, r.arrive_deals m⟩
  have hanswer (a : Answer) : ((r.arrive m).answer a).toClient = r.toClient ∧
      Deals r ((r.arrive m).answer a) [] := ⟨rfl, (r.arrive_deals m).before (answer_deals _ a)⟩
  show ((r.arrive m).react m.stimulus).toClient = r.toClient ∧
    Deals r ((r.arrive m).react m.stimulus) []
  unfold react
  cases m.stimulus with
  | requested q =>
      simp only
      cases q.admit with
      | error e => exact hanswer _
      | ok q' => simpa only [hdone, if_true] using hanswer _
  | _ => simpa only [hdone, if_true] using hsame

/-- The end is final. -/
theorem isFinished_of_meet {r : Run} {m : Moment} (h : (r.meet m).isFinished = false) :
    r.isFinished = false := by
  cases hdone : r.isFinished with
  | false => rfl
  | true =>
      rw [Client.isFinished, (meet_of_isFinished hdone m).1] at h
      exact absurd (hdone.symm.trans h) (by decide)

/-- What a moment comes to if the client is not finished after it. -/
inductive Going (r : Run) (m : Moment) : Run → Prop
  | refused (reason : ClientError) (h : m.heard? = none) :
      Going r m ((r.arrive m).answer (.refused reason))
  | unheard {s} (h : m.heard? = some s) (hs : (r.arrive m).isEnabled s = false) :
      Going r m (r.arrive m)
  | handled {s r'} (h : m.heard? = some s) (hs : (r.arrive m).isEnabled s = true)
      (hr : Handling (r.arrive m) s r') : Going r m r'

theorem going_cases {r : Run} {m : Moment} (h : (r.meet m).isFinished = false) :
    Going r m (r.meet m) := by
  have hmeet := meet_cases (isFinished_of_meet h) m
  generalize r.meet m = r₁ at h hmeet ⊢
  cases hmeet with
  | refused reason hq => exact .refused reason hq
  | unheard hs he => exact .unheard hs he
  | handled hs he hr _ => exact .handled hs he hr
  | torn _ _ _ hdone =>
      -- tearing down leaves the session as finished as it was
      rw [Client.isFinished, tearDown_toClient] at h
      exact absurd (hdone.symm.trans h) (by decide)

/-! ## Lives -/

/-- Goes on through a list of moments. -/
def follow (r : Run) (ms : List Moment) : Run :=
  ms.foldl meet r

theorem play_eq (config : ClientConfig) (ms : List Moment) :
    play config ms = (start config).follow ms := rfl

@[simp] theorem follow_nil (r : Run) : r.follow [] = r := rfl

@[simp] theorem follow_cons (r : Run) (m : Moment) (ms : List Moment) :
    r.follow (m :: ms) = (r.meet m).follow ms := rfl

theorem follow_append (r : Run) (ms ns : List Moment) :
    r.follow (ms ++ ns) = (r.follow ms).follow ns :=
  List.foldl_append

/-- A longer life goes on from a shorter one. -/
theorem play_append (config : ClientConfig) (ms ns : List Moment) :
    play config (ms ++ ns) = (play config ms).follow ns :=
  (start config).follow_append ms ns

theorem play_meet (config : ClientConfig) (ms : List Moment) (m : Moment) :
    play config (ms ++ [m]) = (play config ms).meet m :=
  play_append config ms [m]

theorem isFinished_of_follow {r : Run} {ms : List Moment} (h : (r.follow ms).isFinished = false) :
    r.isFinished = false := by
  induction ms generalizing r with
  | nil => exact h
  | cons m ms ih => exact isFinished_of_meet (ih h)

/-- Nothing is done or changed over a life that has ended. -/
theorem follow_of_isFinished {r : Run} (hdone : r.isFinished = true) (ms : List Moment) :
    (r.follow ms).toClient = r.toClient ∧ Deals r (r.follow ms) [] := by
  induction ms generalizing r with
  | nil => exact ⟨rfl, .refl r⟩
  | cons m ms ih =>
      obtain ⟨hsame, hdeals⟩ := meet_of_isFinished hdone m
      have hdone' : (r.meet m).isFinished = true := by
        rw [hsame]
        exact hdone
      obtain ⟨hlater, hquiet⟩ := ih hdone'
      exact ⟨hlater.trans hsame, hdeals.trans hquiet⟩

/-- A client that has ended did so at some moment. -/
theorem exists_end {r : Run} {ms : List Moment} (hgoing : r.isFinished = false)
    (hdone : (r.follow ms).isFinished = true) :
    ∃ before m after, ms = before ++ m :: after ∧ (r.follow before).isFinished = false ∧
      ((r.follow before).meet m).isFinished = true := by
  induction ms generalizing r with
  | nil => cases hgoing.symm.trans hdone
  | cons m ms ih =>
      cases hmeet : (r.meet m).isFinished with
      | true => exact ⟨[], m, ms, rfl, hgoing, hmeet⟩
      | false =>
          obtain ⟨before, m', after, rfl, hbefore, hend⟩ := ih hmeet hdone
          exact ⟨m :: before, m', after, rfl, hbefore, hend⟩

/-- What holds at first and survives every moment that does not end the client holds as long as it
goes on. -/
theorem follow_induction {P : Run → Prop}
    (step : ∀ r m, (r.meet m).isFinished = false → P r → P (r.meet m)) {r : Run}
    {ms : List Moment} (hgoing : (r.follow ms).isFinished = false) (h : P r) :
    P (r.follow ms) := by
  induction ms generalizing r with
  | nil => exact h
  | cons m ms ih => exact ih hgoing (step r m (isFinished_of_follow hgoing) h)

end Run

end TileRoom
