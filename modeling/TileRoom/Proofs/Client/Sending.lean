import TileRoom.Proofs.Client.Dealings
import TileRoom.Proofs.Wire.Frame

/-!
# What sending comes to

`Posting`, `Sending` and `Bursting` list the ways in which one message, one message with its
consequences, and a list of messages can end, with the run that each of them leads to. A burst goes
out up to some message. If that one fails because of the connection, the connection is lost, and
nothing that comes after it in the list is looked at.
-/

namespace TileRoom

/-- Whether a message did not go out because of the connection. -/
def ClientError.isLink : ClientError → Bool
  | link _ => true
  | _ => false

/-- The dealing by which a message goes out on a connection. -/
def Effect.sentOn (id : ConnectionId) (m : ClientMessage) : Effect :=
  .sent id m (Wire.layout m)

namespace Run

/-! ## One message -/

/-- The run after a message went out on a connection. -/
def sent (r : Run) (id : ConnectionId) (m : ClientMessage) : Run :=
  ({ r with
      keeper := { r.keeper with keepAlive := r.keeper.keepAlive.arm r.now r.keeper.interval }
      uplink := r.uplink.spend }.log (.sentOn id m)).log
    (.armed .keepAlive (r.now + r.keeper.interval.nanos))

@[simp] theorem sent_toClient (r : Run) (id : ConnectionId) (m : ClientMessage) :
    (r.sent id m).toClient =
      { r.toClient with
        keeper := { r.keeper with
          keepAlive := r.keeper.keepAlive.arm r.now r.keeper.interval } } := rfl

@[simp] theorem sent_now (r : Run) (id : ConnectionId) (m : ClientMessage) :
    (r.sent id m).now = r.now := rfl

theorem sent_deals (r : Run) (id : ConnectionId) (m : ClientMessage) :
    Deals r (r.sent id m) [.sentOn id m] :=
  ((Deals.of_trace_eq rfl).after (log_deals_of_isDealing _ rfl)).before (log_deals_nil _ rfl)

/-- How handing a message to the connection can end. -/
inductive Posting (r : Run) (m : ClientMessage) : Except ClientError Unit × Run → Prop
  | unconnected (h : r.keeper.connection = none) :
      Posting r m (.error .notConnected, r.log (.unsent m .notConnected))
  | unwritable {id e} (h : r.keeper.connection = some id) (he : Wire.encode m = .error e) :
      Posting r m (.error (.wire e), r.log (.unsent m (.wire e)))
  | refused {id e} (h : r.keeper.connection = some id) (he : r.uplink.outcome = .error e) :
      Posting r m (.error (.link e), r.log (.unsent m (.link e)))
  | out {id} (h : r.keeper.connection = some id) : Posting r m (.ok (), r.sent id m)

theorem post_cases (r : Run) (m : ClientMessage) : Posting r m (r.post m) := by
  unfold post Keeper.send
  cases hid : r.keeper.connection with
  | none => exact .unconnected hid
  | some id =>
      cases hframe : Wire.encode m with
      | error e => exact .unwritable hid hframe
      | ok frame =>
          cases houtcome : r.uplink.outcome with
          | error e => exact .refused hid houtcome
          | ok _ =>
              obtain rfl := Wire.layout_of_encode hframe
              have hout : Posting r m (.ok (), r.sent id m) := .out hid
              simpa only [sent, Effect.sentOn, hid] using hout

/-- A message that can be written ends as the connection says. -/
theorem post_of_connection {r : Run} {id : ConnectionId} {m : ClientMessage} {frame : List UInt8}
    (hid : r.keeper.connection = some id) (hframe : Wire.encode m = .ok frame) :
    r.post m = match r.uplink.outcome with
      | .ok () => (.ok (), r.sent id m)
      | .error e => (.error (.link e), r.log (.unsent m (.link e))) := by
  obtain rfl := Wire.layout_of_encode hframe
  unfold post Keeper.send
  simp only [hid, hframe]
  cases r.uplink.outcome with
  | error e => rfl
  | ok _ => simp only [sent, Effect.sentOn, hid]

/-- How sending a message can end, with what follows from that. -/
inductive Sending (r : Run) (m : ClientMessage) : Bool × Run → Prop
  | out {id} (h : r.keeper.connection = some id) : Sending r m (true, r.sent id m)
  | unconnected (h : r.keeper.connection = none) :
      Sending r m (false, r.log (.unsent m .notConnected))
  | unwritable {e} (he : Wire.encode m = .error e) :
      Sending r m (false, r.log (.unsent m (.wire e)))
  | lost {id e} (h : r.keeper.connection = some id) :
      Sending r m (false,
        (r.log (.unsent m (.link e))).connectionLost r.machine.state)

theorem send_cases (r : Run) (m : ClientMessage) : Sending r m (r.send m) := by
  have hpost := post_cases r m
  unfold send
  generalize r.post m = result at hpost ⊢
  cases hpost with
  | unconnected h => exact .unconnected h
  | unwritable _ he => exact .unwritable he
  | refused h _ => exact .lost h
  | out h => exact .out h

/-! ## A list of messages -/

/-- The run after messages went out on a connection. -/
def sentAll (r : Run) (id : ConnectionId) (ms : List ClientMessage) : Run :=
  ms.foldl (fun r m => r.sent id m) r

@[simp] theorem sentAll_cons (r : Run) (id : ConnectionId) (m : ClientMessage)
    (ms : List ClientMessage) : r.sentAll id (m :: ms) = (r.sent id m).sentAll id ms := rfl

/-- Messages that go out change nothing but the time of the next keep-alive. -/
theorem sentAll_toClient (r : Run) (id : ConnectionId) (ms : List ClientMessage) :
    (r.sentAll id ms).toClient =
      { r.toClient with keeper := { r.keeper with
          keepAlive := if ms.isEmpty then r.keeper.keepAlive
            else r.keeper.keepAlive.arm r.now r.keeper.interval } } := by
  induction ms generalizing r with
  | nil => rfl
  | cons m ms ih =>
      rw [sentAll_cons, ih]
      cases ms <;> rfl

@[simp] theorem sentAll_now (r : Run) (id : ConnectionId) (ms : List ClientMessage) :
    (r.sentAll id ms).now = r.now := by
  induction ms generalizing r with
  | nil => rfl
  | cons m ms ih =>
      rw [sentAll_cons, ih, sent_now]

theorem sentAll_deals (r : Run) (id : ConnectionId) (ms : List ClientMessage) :
    Deals r (r.sentAll id ms) (ms.map (.sentOn id)) := by
  induction ms generalizing r with
  | nil => exact .refl r
  | cons m ms ih => exact (r.sent_deals id m).trans (ih (r.sent id m))

/-- How sending a list of messages on connection `id` can end. -/
inductive Bursting (r : Run) (id : ConnectionId) (ms : List ClientMessage) : Bool × Run → Prop
  /-- All went out. -/
  | out : Bursting r id ms (true, r.sentAll id ms)
  /-- One was not written. The connection is still there. -/
  | kept (before m rest) (e : WireError) (h : ms = before ++ m :: rest)
      (he : Wire.encode m = .error e) :
      Bursting r id ms (false, (r.sentAll id before).log (.unsent m (.wire e)))
  /-- One was refused, and the connection is lost. -/
  | lost (before m rest) (e : LinkError) (h : ms = before ++ m :: rest) :
      Bursting r id ms (false,
        ((r.sentAll id before).log (.unsent m (.link e))).connectionLost r.machine.state)

theorem sendAll_cases {r : Run} {id : ConnectionId} (h : r.keeper.connection = some id)
    (ms : List ClientMessage) : Bursting r id ms (r.sendAll ms) := by
  induction ms generalizing r with
  | nil => exact .out
  | cons m ms ih =>
      have hsend := send_cases r m
      unfold sendAll
      generalize r.send m = result at hsend ⊢
      cases hsend with
      | unconnected hnone => rw [h] at hnone; cases hnone
      | unwritable he => exact .kept [] m ms _ rfl he
      | lost _ => exact .lost [] m ms _ rfl
      | out hid =>
          -- what went out left the connection as it was, so the rest goes out on the same one
          obtain rfl : id = _ := Option.some.inj (h.symm.trans hid)
          have hrest := ih (r := r.sent id m) h
          simp only
          generalize (r.sent id m).sendAll ms = result at hrest ⊢
          cases hrest with
          | out => exact .out
          | kept before m' rest e hms he =>
              exact .kept (m :: before) m' rest e (by rw [hms]; rfl) he
          | lost before m' rest e hms => exact .lost (m :: before) m' rest e (by rw [hms]; rfl)

/-! ## The dragged tiles -/

/-- The run when the dragged tiles have been taken out and none has been sent yet. -/
def takeDirty (r : Run) : Run :=
  { r with outbox := { r.outbox with dirty := ∅ } }

/-- How a flush can end. -/
inductive Flushing (r : Run) : Run → Prop
  | unconnected (h : r.keeper.connection = none) : Flushing r r
  | idle (h : r.outbox.dirty = ∅) : Flushing r r
  | deferred {id} (h : r.keeper.connection = some id) (hdirty : r.outbox.dirty ≠ ∅)
      (hbuffered : 0 < r.uplink.buffered) : Flushing r r.armFlushRetry
  | burst {id ok r'} (h : r.keeper.connection = some id) (hdirty : r.outbox.dirty ≠ ∅)
      (hbuffered : r.uplink.buffered = 0)
      (hburst : Bursting r.takeDirty id r.outbox.moves (ok, r')) : Flushing r r'

theorem flush_cases (r : Run) : Flushing r r.flush := by
  unfold flush Outbox.flush Keeper.isConnected
  cases hid : r.keeper.connection with
  | none => exact .unconnected hid
  | some id =>
      by_cases hdirty : r.outbox.dirty = ∅
      · rw [if_pos Option.isSome_some, if_pos ((Numbered.isEmpty_iff _).mpr hdirty)]
        exact .idle hdirty
      · rw [if_pos Option.isSome_some, if_neg (mt (Numbered.isEmpty_iff _).mp hdirty)]
        by_cases hbuffered : 0 < r.uplink.buffered
        · rw [if_pos hbuffered]
          exact .deferred hid hdirty hbuffered
        · rw [if_neg hbuffered]
          exact .burst hid hdirty (by omega) (sendAll_cases (r := r.takeDirty) hid _)

/-! ## A new connection -/

/-- The run when the server has been told whether the user is typing. -/
def told (r : Run) (id : ConnectionId) : Run :=
  { r with typing := r.typing.sync.2 }.sentAll id r.typing.sync.1.toList

/-- The run when the held chats have been taken out and none has been sent yet. -/
def takeHeld (r : Run) : Run :=
  { r with outbox := { r.outbox with held := [] } }

/-- How catching up on a new connection can end. -/
inductive Resuming (r : Run) (id : ConnectionId) : Run → Prop
  | untold {r'} (h : Bursting { r with typing := r.typing.sync.2 } id
      r.typing.sync.1.toList (false, r')) : Resuming r id r'
  | unreplayed {r'} (h : Bursting (r.told id).takeHeld id r.outbox.held (false, r')) :
      Resuming r id r'
  | flushed {r'} (h : Flushing ((r.told id).takeHeld.sentAll id r.outbox.held) r') :
      Resuming r id r'

theorem told_outbox (r : Run) (id : ConnectionId) : (r.told id).outbox = r.outbox := by
  simp [told, sentAll_toClient]

theorem told_connection (r : Run) (id : ConnectionId) :
    (r.told id).keeper.connection = r.keeper.connection := by
  simp [told, sentAll_toClient]

theorem resume_cases {r : Run} {id : ConnectionId} (h : r.keeper.connection = some id) :
    Resuming r id r.resume := by
  have htell := sendAll_cases (r := { r with typing := r.typing.sync.2 }) h
    r.typing.sync.1.toList
  unfold resume
  simp only
  generalize Run.sendAll { r with typing := r.typing.sync.2 } _ = result at htell ⊢
  obtain ⟨ok, r₁⟩ := result
  cases ok with
  | false => exact .untold htell
  | true =>
      cases htell
      show Resuming r id (r.told id).replay
      have hconnection : (r.told id).takeHeld.keeper.connection = some id :=
        (told_connection r id).trans h
      have hreplay := sendAll_cases hconnection r.outbox.held
      have htake : Run.sendAll
          { r.told id with outbox := { (r.told id).outbox with held := [] } }
            (r.told id).outbox.held = (r.told id).takeHeld.sendAll r.outbox.held := by
        show (r.told id).takeHeld.sendAll (r.told id).outbox.held = _
        rw [told_outbox]
      unfold replay
      simp only [Outbox.takeHeld]
      rw [htake]
      generalize (r.told id).takeHeld.sendAll r.outbox.held = result at hreplay ⊢
      obtain ⟨ok, r₂⟩ := result
      cases ok with
      | false => exact .unreplayed hreplay
      | true =>
          cases hreplay
          exact .flushed (flush_cases _)

/-- The identity of the connection that opens next. -/
def nextId (r : Run) : ConnectionId :=
  ⟨r.opened + 1⟩

/-- The run when a new connection has been taken into use and nothing has been sent on it. -/
def attached (r : Run) : Run :=
  let opened := { r.release with opened := r.nextId.value }.log (.opened r.nextId)
  { opened with
    keeper := opened.keeper.attach r.nextId
    machine := opened.machine.connected }.reportConnection

@[simp] theorem attached_toClient (r : Run) :
    r.attached.toClient =
      { r.toClient with
        keeper := r.keeper.attach r.nextId
        machine := r.machine.connected } := by
  simp [attached, Keeper.attach, Keeper.release, Deadline.cancel]

@[simp] theorem attached_now (r : Run) : r.attached.now = r.now := by
  show r.release.now = r.now
  rw [release_now]

theorem attached_deals (r : Run) : Deals r r.attached (r.dropping ++ [.opened r.nextId]) := by
  have hopened := (release_deals r).before (.of_trace_eq rfl)
  have hlog := hopened.trans (log_deals_of_isDealing
    { r.release with opened := r.nextId.value } (e := .opened r.nextId) rfl)
  unfold attached
  exact .before (hlog.before (.of_trace_eq rfl)) (reportConnection_deals _)

/-- How the start on a new connection can end. -/
inductive Opening (r : Run) : Run → Prop
  /-- The hello was not written, and the session is over. -/
  | rejected (e : WireError) (he : Wire.encode r.machine.hello = .error e) : Opening r
      ({ r.attached.log (.unsent r.machine.hello (.wire e)) with
          machine := (r.machine.connected.helloRejected e).2 }.reportState r.machine.state)
  /-- The hello was refused, and the connection is lost. -/
  | lost (e : LinkError) : Opening r
      ((r.attached.log (.unsent r.machine.hello (.link e))).connectionLost r.machine.state)
  | resumed {r'} (h : Resuming (r.attached.sent r.nextId r.machine.hello) r.nextId r') :
      Opening r r'

theorem onConnected_cases (r : Run) : Opening r r.onConnected := by
  have hid : r.attached.keeper.connection = some r.nextId := by simp [Keeper.attach]
  -- the hello depends on who the client is, not on how the connection is doing
  have hhello : r.attached.machine.hello = r.machine.hello := by
    simp [Machine.hello, Machine.connected]
  have hpost := post_cases r.attached r.machine.hello
  show Opening r (r.attached.greet r.machine.state)
  unfold greet
  rw [hhello]
  generalize r.attached.post r.machine.hello = result at hpost ⊢
  cases hpost with
  | unconnected h => rw [hid] at h; cases h
  | unwritable _ he => simpa using Opening.rejected (r := r) _ he
  | refused _ _ =>
      have hstate : r.attached.machine.state = r.machine.state := by
        simp [Machine.connected, Machine.state]
      simp only [postFailed, log_toClient, hstate]
      exact .lost _
  | out h =>
      obtain rfl := Option.some.inj (hid.symm.trans h)
      exact .resumed (resume_cases hid)

/-! ## What is said -/

section Utters

variable {P : ClientMessage → Prop} {r r' : Run} {id : ConnectionId} {ok : Bool}

theorem sent_utters (r : Run) (id : ConnectionId) {m : ClientMessage} (h : P m) :
    Utters (some id) P r (r.sent id m) := by
  refine (r.sent_deals id m).utters_singleton ⟨rfl, ⟨rfl, rfl⟩, ?_⟩
  intro m' hm
  exact Option.some.inj hm ▸ h

theorem Sending.utters {m : ClientMessage} (h : Sending r m (ok, r')) (hm : P m) :
    Utters r.keeper.connection P r r' := by
  cases h with
  | out hid =>
      rw [hid]
      exact r.sent_utters _ hm
  | unconnected _ => exact r.unsent_utters .notConnected trivial hm
  | @unwritable e he => exact r.unsent_utters (.wire e) he hm
  | @lost _ e _ => exact (r.unsent_utters (.link e) trivial hm).trans (connectionLost_utters _ _)

theorem sentAll_utters (r : Run) (id : ConnectionId) {ms : List ClientMessage} (h : ∀ m ∈ ms, P m) :
    Utters (some id) P r (r.sentAll id ms) := by
  induction ms generalizing r with
  | nil => exact .refl r
  | cons m ms ih =>
      have hm := r.sent_utters id (h m List.mem_cons_self)
      exact hm.trans (ih _ fun m' hm' => h m' (List.mem_cons_of_mem _ hm'))

theorem Bursting.utters {ms : List ClientMessage} (h : Bursting r id ms (ok, r'))
    (hms : ∀ m ∈ ms, P m) : Utters (some id) P r r' := by
  cases h with
  | out => exact r.sentAll_utters id hms
  | kept before m rest e heq he =>
      rw [heq] at hms
      have hbefore : Utters (some id) P r (r.sentAll id before) :=
        r.sentAll_utters id fun m' hm' => hms m' (List.mem_append_left _ hm')
      exact hbefore.trans (unsent_utters _ (.wire e) he (hms m (by simp)))
  | lost before m rest e heq =>
      rw [heq] at hms
      have hbefore : Utters (some id) P r (r.sentAll id before) :=
        r.sentAll_utters id fun m' hm' => hms m' (List.mem_append_left _ hm')
      have hunsent := hbefore.trans (unsent_utters _ (.link e) trivial (hms m (by simp)))
      exact hunsent.trans (connectionLost_utters _ _)

/-- Sending changes nothing about what waits to be sent. -/
theorem Bursting.outbox_eq {ms : List ClientMessage} (h : Bursting r id ms (ok, r')) :
    r'.outbox = r.outbox := by
  cases h with
  | out => rw [sentAll_toClient]
  | kept before m rest e _ _ => rw [log_toClient, sentAll_toClient]
  | lost before m rest e _ => rw [connectionLost_toClient, log_toClient, sentAll_toClient]

theorem Flushing.held_eq (h : Flushing r r') : r'.outbox.held = r.outbox.held := by
  cases h with
  | unconnected _ => rfl
  | idle _ => rfl
  | deferred _ _ _ => rw [armFlushRetry_toClient]
  | burst _ _ _ hburst => rw [hburst.outbox_eq, takeDirty]

/-- The moves are said only if they are taken out. -/
theorem Flushing.utters (h : Flushing r r')
    (hmoves : r'.outbox.dirty = ∅ → ∀ m ∈ r.outbox.moves, P m) :
    Utters r.keeper.connection P r r' := by
  cases h with
  | unconnected _ => exact .refl r
  | idle _ => exact .refl r
  | deferred _ _ _ => exact (armFlushRetry_deals r).utters
  | burst hid _ _ hburst =>
      rw [hid]
      have htake : Deals r r.takeDirty [] := .of_trace_eq rfl
      refine htake.utters.trans (hburst.utters (hmoves ?_))
      rw [hburst.outbox_eq, takeDirty]

theorem told_utters (r : Run) (id : ConnectionId) (h : ∀ m ∈ r.typing.sync.1.toList, P m) :
    Utters (some id) P r (r.told id).takeHeld := by
  have hsync : Deals r { r with typing := r.typing.sync.2 } [] := .of_trace_eq rfl
  have htold := hsync.utters.trans (sentAll_utters _ id h)
  exact htold.trans (Deals.of_trace_eq rfl).utters

theorem Resuming.utters (h : Resuming r id r') (hid : r.keeper.connection = some id)
    (hnews : ∀ m ∈ r.typing.sync.1.toList, P m)
    (hheld : r'.outbox.held = [] → ∀ m ∈ r.outbox.held, P m)
    (hmoves : r'.outbox.dirty = ∅ → ∀ m ∈ r.outbox.moves, P m) : Utters (some id) P r r' := by
  cases h with
  | untold hburst => exact (Deals.of_trace_eq rfl).utters.trans (hburst.utters hnews)
  | unreplayed hburst =>
      refine (r.told_utters id hnews).trans (hburst.utters (hheld ?_))
      rw [hburst.outbox_eq, takeHeld]
  | flushed hflush =>
      have hempty : r'.outbox.held = [] := by
        rw [hflush.held_eq, sentAll_toClient]
        rfl
      have hreplay := sentAll_utters (r.told id).takeHeld id (hheld hempty)
      have hline : ((r.told id).takeHeld.sentAll id r.outbox.held).keeper.connection = some id := by
        rw [sentAll_toClient]
        exact (told_connection r id).trans hid
      refine (r.told_utters id hnews).trans (hreplay.trans (hline ▸ hflush.utters ?_))
      simpa only [sentAll_toClient, takeHeld, told, Outbox.moves] using hmoves

/-- Once a new connection is in use, the hello and what has to be caught up on is said. -/
theorem Opening.utters (h : Opening r r') (hhello : P r.machine.hello)
    (hnews : ∀ m ∈ r.typing.sync.1.toList, P m)
    (hheld : r'.outbox.held = [] → ∀ m ∈ r.outbox.held, P m)
    (hmoves : r'.outbox.dirty = ∅ → ∀ m ∈ r.outbox.moves, P m) :
    Utters (some r.nextId) P r.attached r' := by
  cases h with
  | rejected e he =>
      refine .trans (.trans (r.attached.unsent_utters (.wire e) he hhello) ?_)
        (reportState_deals _ _).utters
      exact (Deals.of_trace_eq rfl).utters
  | lost e => exact (unsent_utters _ (.link e) trivial hhello).trans (connectionLost_utters _ _)
  | resumed hresume =>
      refine (sent_utters _ _ hhello).trans (hresume.utters (by simp [Keeper.attach]) ?_ ?_ ?_)
      · rw [sent_toClient, attached_toClient]
        exact hnews
      · rw [sent_toClient, attached_toClient]
        exact hheld
      · rw [sent_toClient, attached_toClient]
        exact hmoves

end Utters

end Run

end TileRoom
