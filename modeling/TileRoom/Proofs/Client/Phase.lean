import TileRoom.Proofs.Client.Saying

/-!
# The phases of a client

An unfinished client is in one of three phases: it attempts to connect, it is connected, or it
waits to attempt again. Four records tell the phase, and they are kept in four places.
`Client.InPhase` says that they agree; `lifecycle` says that they do between any two moments of
any life.

The invariant is `Client.Sound`. A reaction to a stimulus leads to the phase `Phase.after` or, if
a connection is lost on the way, to waiting.
-/

namespace TileRoom

inductive Phase
  | attempting
  | connected
  | waiting
  deriving DecidableEq

namespace Phase

/-- What the session records in a phase. -/
def connection : Phase → ConnectionState
  | attempting => .connecting
  | connected => .connected
  | waiting => .disconnected

/-- The stimuli that end a phase from outside. -/
def awaited : Phase → List Stimulus
  | attempting => [.connected, .connectFailed]
  | connected => [.streamEnded, .receiveFailed]
  | waiting => [.due .reconnect]

/-- The phase that a stimulus leads to as long as no connection is lost over it. -/
def after (p : Phase) : Stimulus → Phase
  | .connected => connected
  | .connectFailed | .streamEnded | .receiveFailed => waiting
  | .due .reconnect => attempting
  | _ => p

/-- Only a new connection leads from another phase to the connected one. -/
theorem eq_connected_of_after {p : Phase} {s : Stimulus} (h : p.after s = connected)
    (hs : s ≠ .connected) : p = connected := by
  cases s with
  | connected => exact absurd rfl hs
  | due t => cases t <;> first | exact h | cases h
  | _ => first | exact h | cases h

theorem connection_injective {p q : Phase} (h : p.connection = q.connection) : p = q := by
  cases p <;> cases q <;> first | rfl | cases h

end Phase

/-- Without a connection no keep-alive is due. -/
def Keeper.IsIdle (k : Keeper) : Prop :=
  k.connection = none → k.keepAlive.isArmed = false

theorem Keeper.IsIdle.of_connection {k : Keeper} {id : ConnectionId}
    (h : k.connection = some id) : k.IsIdle :=
  fun hnone => by cases h.symm.trans hnone

/-- The four records that tell the phase of a client agree on `p`. -/
structure Client.InPhase (c : Client) (p : Phase) : Prop where
  attempting : c.attempting = true ↔ p = .attempting
  installed : c.keeper.isConnected = true ↔ p = .connected
  retrying : c.reconnect.isArmed = true ↔ p = .waiting
  session : c.machine.session.connection = p.connection

theorem Client.InPhase.unique {c : Client} {p q : Phase} (hp : c.InPhase p) (hq : c.InPhase q) :
    q = p :=
  Phase.connection_injective (hq.session.symm.trans hp.session)

/-- In phase `p` a client has nothing that belongs to another phase. -/
structure Client.Sound (c : Client) (p : Phase) : Prop extends c.InPhase p where
  joined : c.machine.state = .inProgress → p = .connected
  keepAlive : c.keeper.keepAlive.isArmed = true → p = .connected
  flushRetry : c.flushRetry.isArmed = true → p = .connected
  told : c.typing.told = true → p = .connected

namespace Client.Sound

variable {c c' : Client} {p : Phase}

/-- Most of what a client remembers has no say in its phase. -/
theorem of_eq (h : c.Sound p) (attempting : c'.attempting = c.attempting)
    (keeper : c'.keeper = c.keeper) (reconnect : c'.reconnect = c.reconnect)
    (flushRetry : c'.flushRetry = c.flushRetry) (machine : c'.machine = c.machine)
    (told : c'.typing.told = c.typing.told) : c'.Sound p where
  attempting := by rw [attempting]; exact h.attempting
  installed := by rw [keeper]; exact h.installed
  retrying := by rw [reconnect]; exact h.retrying
  session := by rw [machine]; exact h.session
  joined := by rw [machine]; exact h.joined
  keepAlive := by rw [keeper]; exact h.keepAlive
  flushRetry := by rw [flushRetry]; exact h.flushRetry
  told := by rw [told]; exact h.told

/-- On a connection the session may begin, the two deadlines may be set and cancelled, and the
server may be told about typing. -/
theorem stay (h : c.Sound .connected) (attempting : c'.attempting = c.attempting)
    (connection : c'.keeper.connection = c.keeper.connection)
    (reconnect : c'.reconnect = c.reconnect)
    (session : c'.machine.session.connection = c.machine.session.connection) :
    c'.Sound .connected where
  attempting := by rw [attempting]; exact h.attempting
  installed := by rw [Keeper.isConnected, connection]; exact h.installed
  retrying := by rw [reconnect]; exact h.retrying
  session := by rw [session]; exact h.session
  joined _ := rfl
  keepAlive _ := rfl
  flushRetry _ := rfl
  told _ := rfl

theorem connected_of_connection (h : c.Sound p) {id : ConnectionId}
    (hid : c.keeper.connection = some id) : p = .connected :=
  h.installed.mp (by rw [Keeper.isConnected, hid]; rfl)

theorem connection_eq_none (h : c.Sound p) (hp : p ≠ .connected) : c.keeper.connection = none := by
  cases hid : c.keeper.connection with
  | none => rfl
  | some id => exact absurd (h.connected_of_connection hid) hp

theorem isIdle (h : c.Sound p) : c.keeper.IsIdle := by
  intro hnone
  refine Bool.eq_false_iff.mpr fun harmed => ?_
  have hline := h.installed.mpr (h.keepAlive harmed)
  rw [Keeper.isConnected, hnone] at hline
  cases hline

theorem not_attempting (h : c.Sound p) (hp : p ≠ .attempting) : c.attempting = false :=
  Bool.eq_false_iff.mpr fun ha => hp (h.attempting.mp ha)

end Client.Sound

theorem Machine.leave_isFinished (m : Machine) : m.leave.2.isFinished = true := by
  unfold leave
  cases hdone : m.isFinished with
  | true => simpa using hdone
  | false => rfl

/-- A lost connection is replaced unless the session ends over it. -/
theorem Machine.connectionLost_cases {m : Machine} (h : m.isFinished = false) :
    (m.connectionLost.2.isFinished = true) ∨
      (∃ delay, m.connectionLost.1 = .after delay) ∧ m.connectionLost.2.state = .connecting ∧
        m.connectionLost.2.session.connection = .disconnected := by
  have hgoing : Machine.isFinished
      { m with session := { m.session with connection := .disconnected } } = false := h
  unfold connectionLost
  simp only [hgoing, Bool.false_eq_true, if_false]
  by_cases hspent : m.policy.maxAttempts.toNat ≤ m.session.attempts + 1
  · rw [if_pos hspent]
    exact .inl rfl
  · rw [if_neg hspent]
    exact .inr ⟨⟨_, rfl⟩, rfl, rfl⟩

namespace Run

/-- The run is over, in phase `p`, or waiting. -/
def Heads (r : Run) (p : Phase) : Prop :=
  r.isFinished = false → r.Sound p ∨ r.Sound .waiting

theorem connectionLost_sound {r : Run} {before : SessionState} (ha : r.attempting = false)
    (hgoing : r.isFinished = false) (hend : (r.connectionLost before).isFinished = false) :
    (r.connectionLost before).Sound .waiting := by
  rw [Client.isFinished, connectionLost_toClient] at hend
  rw [connectionLost_toClient]
  rcases Machine.connectionLost_cases hgoing with hdone | ⟨⟨delay, hdelay⟩, hstate, hsession⟩
  · exact absurd (hdone.symm.trans hend) (by decide)
  · simp only [hdelay]
    exact {
      attempting := by simp [ha]
      installed := by simp [Keeper.release, Keeper.isConnected]
      retrying := by simp [Deadline.arm, Deadline.armAt, Deadline.isArmed]
      session := hsession
      joined := by simp [hstate]
      keepAlive := by simp [Keeper.release, Deadline.cancel, Deadline.isArmed]
      flushRetry := by simp [Deadline.cancel, Deadline.isArmed]
      told := by simp [Typing.connectionLost] }

theorem connectionLost_heads {r : Run} (p : Phase) {before : SessionState}
    (ha : r.attempting = false) (hgoing : r.isFinished = false) :
    (r.connectionLost before).Heads p :=
  fun hend => .inr (connectionLost_sound ha hgoing hend)

theorem Heads.of_sound {r : Run} {p : Phase} (h : r.Sound p) : r.Heads p :=
  fun _ => .inl h

theorem Heads.answer {r : Run} {p : Phase} (h : r.Heads p) (a : Answer) : (r.answer a).Heads p :=
  h

/-! ## What a connection can come to -/

section OnConnection

variable {r r' : Run} {id : ConnectionId} {ok : Bool}

theorem sentAll_sound (h : r.Sound .connected) (ms : List ClientMessage) :
    (r.sentAll id ms).Sound .connected := by
  rw [sentAll_toClient]
  exact h.stay rfl rfl rfl rfl

theorem Sending.heads {m : ClientMessage} (h : Sending r m (ok, r')) (hr : r.Sound .connected)
    (hgoing : r.isFinished = false) : r'.Heads .connected := by
  cases h with
  | out _ => exact .of_sound (hr.stay rfl rfl rfl rfl)
  | unconnected _ => exact .of_sound hr
  | unwritable _ => exact .of_sound hr
  | lost _ => exact connectionLost_heads _ (hr.not_attempting (by decide)) hgoing

theorem Bursting.heads {ms : List ClientMessage} (h : Bursting r id ms (ok, r'))
    (hr : r.Sound .connected) (hgoing : r.isFinished = false) : r'.Heads .connected := by
  cases h with
  | out => exact .of_sound (sentAll_sound hr ms)
  | kept before m rest e _ _ => exact .of_sound (sentAll_sound hr before)
  | lost before m rest e _ =>
      have hsent : (r.sentAll id before).Sound .connected := sentAll_sound hr before
      refine connectionLost_heads _ (hsent.not_attempting (by decide)) ?_
      rw [Client.isFinished, log_toClient, sentAll_toClient]
      exact hgoing

/-- Without a connection a flush does nothing. -/
theorem Flushing.heads {p : Phase} (h : Flushing r r') (hr : r.Sound p)
    (hgoing : r.isFinished = false) : r'.Heads p := by
  cases h with
  | unconnected _ => exact .of_sound hr
  | idle _ => exact .of_sound hr
  | deferred hid _ _ =>
      obtain rfl := hr.connected_of_connection hid
      refine .of_sound ?_
      rw [armFlushRetry_toClient]
      exact hr.stay rfl rfl rfl rfl
  | burst hid _ _ hburst =>
      obtain rfl := hr.connected_of_connection hid
      exact hburst.heads (hr.stay rfl rfl rfl rfl) hgoing

theorem told_sound (h : r.Sound .connected) : (r.told id).Sound .connected :=
  sentAll_sound (r := { r with typing := r.typing.sync.2 }) (h.stay rfl rfl rfl rfl) _

theorem told_isFinished (r : Run) (id : ConnectionId) :
    (r.told id).isFinished = r.isFinished := by
  simp only [Client.isFinished, told, sentAll_toClient]

theorem Resuming.heads (h : Resuming r id r') (hr : r.Sound .connected)
    (hgoing : r.isFinished = false) : r'.Heads .connected := by
  have htold : (r.told id).takeHeld.Sound .connected := (told_sound hr).stay rfl rfl rfl rfl
  have hstill : (r.told id).takeHeld.isFinished = false := (told_isFinished r id).trans hgoing
  cases h with
  | untold hburst => exact hburst.heads (hr.stay rfl rfl rfl rfl) hgoing
  | unreplayed hburst => exact hburst.heads htold hstill
  | flushed hflush =>
      refine hflush.heads (sentAll_sound htold _) ?_
      rw [Client.isFinished, sentAll_toClient]
      exact hstill

theorem attached_sound (ha : r.attempting = false) (hr : r.reconnect.isArmed = false) :
    r.attached.Sound .connected := by
  rw [attached_toClient]
  exact {
    attempting := by simp [ha]
    installed := by simp [Keeper.attach, Keeper.isConnected]
    retrying := by simp [hr]
    session := rfl
    joined := fun _ => rfl
    keepAlive := fun _ => rfl
    flushRetry := fun _ => rfl
    told := fun _ => rfl }

theorem Opening.heads (h : Opening r r') (ha : r.attempting = false)
    (hr : r.reconnect.isArmed = false) (hgoing : r.isFinished = false) : r'.Heads .connected := by
  have hattached := attached_sound ha hr
  have hstill : r.attached.isFinished = false := by
    rw [Client.isFinished, attached_toClient]
    exact hgoing
  cases h with
  | rejected e _ =>
      intro hend
      have hconnected : r.machine.connected.isFinished = false := hgoing
      rw [Client.isFinished, reportState_toClient, Machine.helloRejected,
        if_neg (by simp [hconnected])] at hend
      cases hend
  | lost e => exact connectionLost_heads _ (hattached.not_attempting (by decide)) hstill
  | resumed hresume => exact hresume.heads (hattached.stay rfl rfl rfl rfl) hstill

end OnConnection

/-! ## What a stimulus can come to -/

section Stimuli

variable {r r' : Run} {p : Phase}

theorem Asking.heads {m : ClientMessage} {check : Except BoardError Unit}
    (h : Asking r m check r') (hr : r.Sound p) (hgoing : r.isFinished = false) : r'.Heads p := by
  cases h with
  | denied e => exact .of_sound hr
  | unconnected _ => exact .of_sound hr
  | unwritable e _ => exact .of_sound hr
  | lost e hid =>
      obtain rfl := hr.connected_of_connection hid
      refine Heads.answer ?_ _
      exact connectionLost_heads _ (hr.not_attempting (by decide)) hgoing
  | out hid =>
      obtain rfl := hr.connected_of_connection hid
      exact .of_sound (hr.stay rfl rfl rfl rfl)

/-- Leaving is always the end. -/
theorem Leaving.isFinished (h : Leaving r r') : r'.isFinished = true := by
  have hleave := r.machine.leave_isFinished
  cases h with
  | silent _ => simpa [Client.isFinished, left] using hleave
  | unsaid _ _ _ => simpa [Client.isFinished, left] using hleave
  | said _ _ => simpa [Client.isFinished, left] using hleave

theorem Leaving.heads (h : Leaving r r') : r'.Heads p :=
  fun hend => absurd (h.isFinished.symm.trans hend) (by decide)

/-- An attempt that is started from waiting leaves nothing of waiting. -/
theorem connecting_sound {c : Client} (h : c.Sound .waiting) :
    { c with
      machine := c.machine.connecting
      keeper := c.keeper.release
      attempting := true
      reconnect := c.reconnect.cancel }.Sound .attempting where
  attempting := by simp
  installed := by simp [Keeper.release, Keeper.isConnected]
  retrying := by simp [Deadline.cancel, Deadline.isArmed]
  session := rfl
  joined hstate := absurd (h.joined hstate) (by decide)
  keepAlive := by simp [Keeper.release, Deadline.cancel, Deadline.isArmed]
  flushRetry hset := absurd (h.flushRetry hset) (by decide)
  told htold := absurd (h.told htold) (by decide)

theorem Handling.heads {s : Stimulus} (h : Handling r s r') (hr : r.Sound p)
    (hgoing : r.isFinished = false) (hs : r.isEnabled s = true) : r'.Heads (p.after s) := by
  cases h with
  | opened ha ho =>
      -- while it attempts, a client has neither a connection nor a deadline to reconnect
      obtain rfl := hr.attempting.mp ha
      refine ho.heads rfl ?_ hgoing
      exact Bool.eq_false_iff.mpr fun harmed => by cases hr.retrying.mp harmed
  | unopened ha => exact connectionLost_heads _ rfl hgoing
  | forwarded hdecode hhandle =>
      obtain rfl := hr.installed.mp hs
      obtain ⟨_, hsession⟩ := Machine.handle_forward hgoing hhandle
      refine .of_sound ?_
      rw [reportState_toClient, applyMessage_toClient]
      exact hr.stay rfl rfl rfl hsession
  | ignored => exact .of_sound hr
  | stopped reason =>
      intro hend
      rw [Client.isFinished, reportState_toClient] at hend
      cases hend
  | cutOff hid _ =>
      obtain rfl := hr.connected_of_connection hid
      exact connectionLost_heads _ (hr.not_attempting (by decide)) hgoing
  | chat hid hsend =>
      obtain rfl := hr.connected_of_connection hid
      exact hsend.heads hr hgoing
  | held _ => exact .of_sound (hr.of_eq rfl rfl rfl rfl rfl rfl)
  | typing hid hburst =>
      obtain rfl := hr.connected_of_connection hid
      exact hburst.heads (hr.stay rfl rfl rfl rfl) hgoing
  | untold _ => exact .of_sound (hr.of_eq rfl rfl rfl rfl rfl rfl)
  | moved hflush => exact hflush.heads (hr.of_eq rfl rfl rfl rfl rfl rfl) hgoing
  | turn hask => exact hask.heads hr hgoing
  | shout hask => exact hask.heads hr hgoing
  | capacity hask => exact hask.heads hr hgoing
  | snapshot => exact .of_sound hr
  | left hleave => exact hleave.heads
  | abandoned hleave => exact hleave.heads
  | keptAlive hsend =>
      -- the two deadlines that are due here are set on a connection only
      obtain rfl := hr.keepAlive (Deadline.isArmed_of_isDue hs)
      exact hsend.heads (hr.stay rfl rfl rfl rfl) hgoing
  | reconnecting harmed =>
      obtain rfl := hr.retrying.mp harmed
      refine .of_sound ?_
      rw [connect_toClient]
      exact connecting_sound (c := r.toClient) hr
  | flushed hflush =>
      obtain rfl := hr.flushRetry (Deadline.isArmed_of_isDue hs)
      exact hflush.heads (hr.stay rfl rfl rfl rfl) hgoing
  | quietened =>
      refine .of_sound ?_
      rw [reportBoard_toClient]
      exact hr.of_eq rfl rfl rfl rfl rfl rfl

end Stimuli

/-! ## A whole life -/

theorem start_sound (config : ClientConfig) : (start config).Sound .attempting := by
  rw [start, connect_toClient]
  exact {
    attempting := by simp
    installed := by simp [Keeper.release, Keeper.isConnected]
    retrying := by simp [Client.new, Deadline.isArmed]
    session := rfl
    joined := fun h => by simp [Client.new, Machine.new, Machine.connecting, Machine.state] at h
    keepAlive := by simp [Keeper.release, Deadline.cancel, Deadline.isArmed]
    flushRetry := by simp [Client.new, Deadline.isArmed]
    told := by simp [Client.new] }

/-- A moment that does not end the client leads to a phase. -/
theorem meet_sound {r : Run} {p : Phase} (hr : r.Sound p) {m : Moment}
    (hend : (r.meet m).isFinished = false) : ∃ q, (r.meet m).Sound q := by
  have hbefore := isFinished_of_meet hend
  have hgoing : (r.arrive m).isFinished = false := hbefore
  have hcases := going_cases hend
  generalize r.meet m = r' at hend hcases ⊢
  cases hcases with
  | refused _ _ => exact ⟨p, hr⟩
  | unheard _ _ => exact ⟨p, hr⟩
  | handled _ hs hhandle =>
      rcases hhandle.heads hr hgoing hs hend with hsound | hsound
      · exact ⟨_, hsound⟩
      · exact ⟨_, hsound⟩

theorem play_sound (config : ClientConfig) (ms : List Moment)
    (h : (play config ms).isFinished = false) : ∃ p, (play config ms).Sound p := by
  refine follow_induction (P := fun r => ∃ p, r.Sound p) ?_ h ⟨_, start_sound config⟩
  intro r m hend ⟨p, hr⟩
  exact meet_sound hr hend

/-- An attempt is started only by waiting for it, and is all that is done then. -/
theorem attempted_from_waiting {r : Run} {p : Phase} (hr : r.Sound p)
    (hgoing : r.isFinished = false) {m : Moment} (hm : .attempted ∈ r.dealings m) :
    p = .waiting ∧ r.dealings m = [.attempted] ∧ (r.meet m).Sound .attempting := by
  rcases meet_doing hgoing m with hnone | ⟨s, _, hdoing⟩
  · rw [hnone] at hm
    cases hm
  · obtain ⟨harmed, honly, hconnect⟩ := hdoing.attempted hm
    obtain rfl := hr.retrying.mp harmed
    refine ⟨rfl, ?_, ?_⟩
    · rw [honly, dropping, hr.connection_eq_none (by decide)]
      rfl
    · rw [hconnect]
      exact connecting_sound hr

theorem opened_from_attempting {r : Run} {p : Phase} (hr : r.Sound p)
    (hgoing : r.isFinished = false) {m : Moment} {id : ConnectionId}
    (hm : .opened id ∈ r.dealings m) : p = .attempting := by
  rcases meet_doing hgoing m with hnone | ⟨s, _, hdoing⟩
  · rw [hnone] at hm
    cases hm
  · exact hr.attempting.mp (hdoing.opened id hm).2

/-- What is awaited in a phase ends it. -/
theorem Handling.leaves {r r' : Run} {p : Phase} {s : Stimulus} (h : Handling r s r')
    (hr : r.Sound p) (hgoing : r.isFinished = false) (hs : r.isEnabled s = true)
    (hp : s ∈ p.awaited) (hend : r'.isFinished = false) : ∃ q, q ≠ p ∧ r'.Sound q := by
  have hheads := h.heads hr hgoing hs hend
  cases p with
  | attempting =>
      simp only [Phase.awaited, List.mem_cons, List.not_mem_nil, or_false] at hp
      rcases hp with rfl | rfl <;> rcases hheads with hsound | hsound <;>
        exact ⟨_, by decide, hsound⟩
  | connected =>
      simp only [Phase.awaited, List.mem_cons, List.not_mem_nil, or_false] at hp
      rcases hp with rfl | rfl <;> rcases hheads with hsound | hsound <;>
        exact ⟨_, by decide, hsound⟩
  | waiting =>
      obtain rfl := List.mem_singleton.mp hp
      cases h with
      | reconnecting _ =>
          refine ⟨.attempting, by decide, ?_⟩
          rw [connect_toClient]
          exact connecting_sound (c := r.toClient) hr
      | cutOff _ hinbound => cases hinbound

/-- What is awaited in a phase reaches the client, at once or after some time. -/
theorem awaited_isEnabled {r : Run} {p : Phase} (hr : r.Sound p) :
    ∃ wait, ∀ m : Moment, wait ≤ m.wait → ∀ s ∈ p.awaited, (r.arrive m).isEnabled s = true := by
  cases p with
  | attempting =>
      refine ⟨0, fun m _ s hs => ?_⟩
      have ha := hr.attempting.mpr rfl
      simp only [Phase.awaited, List.mem_cons, List.not_mem_nil, or_false] at hs
      rcases hs with rfl | rfl <;> exact ha
  | connected =>
      refine ⟨0, fun m _ s hs => ?_⟩
      have hk := hr.installed.mpr rfl
      simp only [Phase.awaited, List.mem_cons, List.not_mem_nil, or_false] at hs
      rcases hs with rfl | rfl <;> exact hk
  | waiting =>
      obtain ⟨due, hdue⟩ := Option.isSome_iff_exists.mp (hr.retrying.mpr rfl)
      refine ⟨due - r.now, fun m hm s hs => ?_⟩
      rw [List.mem_singleton.mp hs]
      have hcome : due ≤ (r.arrive m).now := Nat.sub_le_iff_le_add'.mp hm
      exact Deadline.isDue_of_le hdue hcome

theorem heard?_of_awaited {m : Moment} {p : Phase} (h : m.stimulus ∈ p.awaited) :
    m.heard? = some m.stimulus := by
  unfold Moment.heard?
  cases hs : m.stimulus with
  | requested q => rw [hs] at h; cases p <;> simp [Phase.awaited] at h
  | _ => rfl

theorem meet_leaves {r : Run} {p : Phase} (hr : r.Sound p) {m : Moment}
    (hs : (r.arrive m).isEnabled m.stimulus = true) (hp : m.stimulus ∈ p.awaited)
    (hend : (r.meet m).isFinished = false) : ∃ q, q ≠ p ∧ (r.meet m).Sound q := by
  have hbefore := isFinished_of_meet hend
  have hgoing : (r.arrive m).isFinished = false := hbefore
  have hheard := heard?_of_awaited hp
  have hcases := going_cases hend
  generalize r.meet m = r' at hend hcases ⊢
  cases hcases with
  | refused _ h => rw [hheard] at h; cases h
  | unheard h hdeaf =>
      obtain rfl := Option.some.inj (hheard.symm.trans h)
      exact absurd (hs.symm.trans hdeaf) (by decide)
  | handled h hs' hhandle =>
      obtain rfl := Option.some.inj (hheard.symm.trans h)
      exact hhandle.leaves hr hgoing hs' hp hend

/-- Between any two moments of its life an unfinished client is in exactly one phase `p`. The
session is in progress, and the deadlines for a keep-alive and for another flush are set, only in
the connected phase. There is always a way on: what is awaited in the phase ends it, at once or
after some time. And there are never two attempts, nor one beside a connection: a moment at which
one is started finds the client waiting, starts nothing else, and leaves it attempting, and
connections come only of attempts. -/
theorem lifecycle (config : ClientConfig) (ms : List Moment)
    (hgoing : (play config ms).isFinished = false) :
    ∃ p, (play config ms).InPhase p ∧ (∀ q, (play config ms).InPhase q → q = p) ∧
      ((play config ms).machine.state = .inProgress → p = .connected) ∧
      ((play config ms).keeper.keepAlive.isArmed = true → p = .connected) ∧
      ((play config ms).flushRetry.isArmed = true → p = .connected) ∧
      (∃ wait, ∀ m : Moment, wait ≤ m.wait → m.stimulus ∈ p.awaited →
        ((play config ms).meet m).isFinished = true ∨
          ∃ q, q ≠ p ∧ ((play config ms).meet m).InPhase q) ∧
      (∀ m, .attempted ∈ (play config ms).dealings m →
        p = .waiting ∧ (play config ms).dealings m = [.attempted] ∧
          ((play config ms).meet m).InPhase .attempting) ∧
      (∀ m id, .opened id ∈ (play config ms).dealings m → p = .attempting) := by
  obtain ⟨p, hp⟩ := play_sound config ms hgoing
  refine ⟨p, hp.toInPhase, fun q hq => hp.toInPhase.unique hq, hp.joined, hp.keepAlive,
    hp.flushRetry, ?_, ?_, ?_⟩
  · obtain ⟨wait, hwait⟩ := awaited_isEnabled hp
    refine ⟨wait, fun m hm hs => ?_⟩
    cases hend : ((play config ms).meet m).isFinished with
    | true => exact .inl rfl
    | false =>
        obtain ⟨q, hne, hq⟩ := meet_leaves hp (hwait m hm _ hs) hs hend
        exact .inr ⟨q, hne, hq.toInPhase⟩
  · intro m hm
    obtain ⟨hwaiting, honly, hsound⟩ := attempted_from_waiting hp hgoing hm
    exact ⟨hwaiting, honly, hsound.toInPhase⟩
  · intro m id hm
    exact opened_from_attempting hp hgoing hm

/-- The phases of a client whose first attempt fails. -/
theorem lifecycle_connectFailed :
    ((play {} [{ stimulus := .connectFailed }]).isFinished = false ∧
      ∃ p, (play {} [{ stimulus := .connectFailed }]).InPhase p ∧
        ∀ q, (play {} [{ stimulus := .connectFailed }]).InPhase q → q = p) := by
  have hgoing : (play {} [{ stimulus := .connectFailed }]).isFinished = false := by decide +kernel
  obtain ⟨p, hp, hunique, _⟩ := lifecycle {} [{ stimulus := .connectFailed }] hgoing
  exact ⟨hgoing, p, hp, hunique⟩

end Run

end TileRoom
