import TileRoom.Proofs.Session.Budget

/-!
# The end of a session

A finished session is out of reach of its seven operations. The most that one of them does to it is
to note how a connection is doing (`operate_of_isFinished`), so whatever else the session was when
it ended it stays, and it has only one answer left for each operation (`Retired`).

As long as a session goes on, what it tells to do is what has happened to it. `Hearing` lists what
it can make of a message. Only an operation that fails the session tells to stop, with the reason
for which it failed, and leaving is no failure.

`finished_for_good` says both of every session that has come about by operations.
-/

namespace TileRoom.Machine

/-! ## What a session answers -/

/-- The session with nothing but the note on its connection changed. -/
def withConnection (m : Machine) (c : ConnectionState) : Machine :=
  { m with session := { m.session with connection := c } }

section
variable (m : Machine) (c c' : ConnectionState)

@[simp] theorem withConnection_self : m.withConnection m.session.connection = m := rfl

@[simp] theorem withConnection_withConnection :
    (m.withConnection c).withConnection c' = m.withConnection c' := rfl

@[simp] theorem withConnection_isFinished : (m.withConnection c).isFinished = m.isFinished := rfl

end

/-- What is to be done after an operation. Only news from the server and a hello that could not be
written are answered so. -/
def dispatch? (m : Machine) : Operation → Option Dispatch
  | .handle msg => some (m.handle msg).1
  | .decodeError e => some (m.onDecodeError e)
  | .helloRejected e => some (m.helloRejected e).1
  | _ => none

/-- A session that has only one answer left for each operation. -/
structure Retired (m : Machine) : Prop where
  ignores : ∀ op d, m.dispatch? op = some d → d = .ignore
  givesUp : m.connectionLost.1 = .giveUp
  unsaid : m.leave.1 = false

/-! ## After the end -/

section
variable {m : Machine}

theorem retired_of_isFinished (h : m.isFinished = true) : m.Retired where
  ignores := by
    intro op d hd
    cases op with
    | handle msg => simpa [dispatch?, handle, h] using hd.symm
    | decodeError e => simpa [dispatch?, onDecodeError, h] using hd.symm
    | helloRejected e => simpa [dispatch?, helloRejected, h] using hd.symm
    | _ => cases hd
  givesUp := by rw [connectionLost_of_isFinished h]
  unsaid := by simp [leave, h]

theorem operate_of_isFinished (h : m.isFinished = true) (op : Operation) :
    ∃ c, m.operate op = m.withConnection c := by
  cases op with
  -- these two are not told whether the session is over
  | connecting => exact ⟨.connecting, rfl⟩
  | connected => exact ⟨.connected, rfl⟩
  | connectionLost =>
      exact ⟨.disconnected, by rw [operate, connectionLost_of_isFinished h]; rfl⟩
  | handle msg => exact ⟨m.session.connection, by simp [operate, handle, h]⟩
  | decodeError e => exact ⟨m.session.connection, rfl⟩
  | helloRejected e => exact ⟨m.session.connection, by simp [operate, helloRejected, h]⟩
  | leave => exact ⟨m.session.connection, by simp [operate, leave, h]⟩

theorem operateAll_of_isFinished (h : m.isFinished = true) (ops : List Operation) :
    ∃ c, m.operateAll ops = m.withConnection c := by
  induction ops generalizing m with
  | nil => exact ⟨m.session.connection, rfl⟩
  | cons op ops ih =>
      obtain ⟨c, hop⟩ := operate_of_isFinished h op
      have hdone : (m.operate op).isFinished = true := by rw [hop, withConnection_isFinished, h]
      obtain ⟨c', hops⟩ := ih hdone
      refine ⟨c', ?_⟩
      calc m.operateAll (op :: ops)
          = (m.operate op).withConnection c' := hops
        _ = m.withConnection c' := by rw [hop, withConnection_withConnection]

end

/-! ## Before the end -/

/-- What an unfinished session makes of a message. -/
inductive Hearing (m : Machine) : Dispatch × Machine → Prop
  | forwarded (m' : Machine) (hfinished : m'.isFinished = false)
      (hconnection : m'.session.connection = m.session.connection) : Hearing m (.forward, m')
  | ignored : Hearing m (.ignore, m)
  | stopped (reason : SessionFailure) : Hearing m (m.fail reason)

section
variable {m : Machine}

theorem handle_cases (h : m.isFinished = false) (msg : ServerMessage) :
    Hearing m (m.handle msg) := by
  unfold handle
  rw [if_neg (by simp [h])]
  cases msg with
  | playerId person player =>
      show Hearing m (m.identify person player)
      unfold identify
      -- only a session that is connecting learns who it is
      by_cases hstate : m.session.state = .connecting
      · rw [if_pos hstate]
        exact .forwarded _ rfl rfl
      · rw [if_neg hstate]
        exact .ignored
  | message player text => exact .forwarded _ h rfl
  | conversationId id => exact .forwarded _ h rfl
  | sessionEnd => exact .stopped _
  | badPlayerId => exact .stopped _
  | badConversationId => exact .stopped _
  | conversationFull => exact .stopped _
  | _ => exact .forwarded _ h rfl

/-- A message that goes on to the board leaves the session under way and its connection alone. -/
theorem handle_forward {m' : Machine} {msg : ServerMessage} (h : m.isFinished = false)
    (hhandle : m.handle msg = (.forward, m')) :
    m'.isFinished = false ∧ m'.session.connection = m.session.connection := by
  have hcases := handle_cases h msg
  rw [hhandle] at hcases
  cases hcases with
  | forwarded _ hfinished hconnection => exact ⟨hfinished, hconnection⟩

theorem state_ne_error (h : m.isFinished = false) : m.state ≠ .error := by
  intro hstate
  rw [isFinished, ← state, hstate] at h
  cases h

/-- To stop is what follows from a failure, and from nothing else. -/
theorem Hearing.stop_iff {heard : Dispatch × Machine} (h : m.isFinished = false)
    (hheard : Hearing m heard) (reason : SessionFailure) :
    heard.1 = .stop reason ↔ heard.2.state = .error ∧ heard.2.failure = some reason := by
  cases hheard with
  | forwarded m' hfinished _ => simp [state_ne_error hfinished]
  | ignored => simp [state_ne_error h]
  | stopped blamed => simp [fail, state]

theorem Hearing.ne_reconnect {heard : Dispatch × Machine} (hheard : Hearing m heard)
    (reason : SessionFailure) : heard.1 ≠ .reconnect reason := by
  cases hheard with
  | forwarded _ _ _ => simp
  | ignored => simp
  | stopped _ => simp [fail]

/-- A hello that could not be written fails the session. -/
theorem helloRejected_cases (h : m.isFinished = false) (e : WireError) :
    Hearing m (m.helloRejected e) := by
  unfold helloRejected
  rw [if_neg (by simp [h])]
  exact .stopped _

theorem dispatch?_stop_iff (h : m.isFinished = false) (op : Operation) (reason : SessionFailure) :
    m.dispatch? op = some (.stop reason) ↔
      (m.dispatch? op).isSome = true ∧
        (m.operate op).state = .error ∧ (m.operate op).failure = some reason := by
  cases op with
  | handle msg => simpa [dispatch?, operate] using (handle_cases h msg).stop_iff h reason
  | helloRejected e => simpa [dispatch?, operate] using (helloRejected_cases h e).stop_iff h reason
  | decodeError e =>
      -- a fault leaves the session as it is, and that is not failed
      have hnever : m.onDecodeError e ≠ .stop reason := by
        unfold onDecodeError
        rw [if_neg (by simp [h])]
        cases e <;> simp
      simp [dispatch?, operate, hnever, state_ne_error h]
  | _ => simp [dispatch?]

/-- Only a fault costs the connection, and it costs no more than that. -/
theorem dispatch?_reconnect (h : m.isFinished = false) {op : Operation} {reason : SessionFailure}
    (hop : m.dispatch? op = some (.reconnect reason)) :
    ∃ e, op = .decodeError e ∧ reason = .protocolViolation e := by
  cases op with
  | handle msg => exact absurd (Option.some.inj hop) ((handle_cases h msg).ne_reconnect reason)
  | helloRejected e =>
      exact absurd (Option.some.inj hop) ((helloRejected_cases h e).ne_reconnect reason)
  | decodeError e =>
      refine ⟨e, rfl, ?_⟩
      have hfault : m.onDecodeError e = .reconnect reason := Option.some.inj hop
      unfold onDecodeError at hfault
      rw [if_neg (by simp [h])] at hfault
      cases e <;> simp_all
  | _ => cases hop

theorem leave_of_going (h : m.isFinished = false) :
    m.leave = (decide (m.session.connection = .connected),
      { m with session := { m.session with state := .done, connection := .disconnected } }) := by
  unfold leave
  rw [if_neg (by simp [h])]

end

/-- Whatever has led to a session, if it is finished no operation does more to it than to note how
a connection is doing, and each gets the one answer it can still get. If the session goes on, being
told to stop and having failed for the given reason are the same thing. A fault that costs the
connection leaves the session as it was. The farewell is asked for if and only if there is a
connection to say it on, and leaving always ends the session without a failure. -/
theorem finished_for_good (p : ReconnectPolicy) (join : JoinRequest) (playerName : String)
    (ops : List Operation) :
    let m := (Machine.new p join playerName).operateAll ops
    (m.isFinished = true → ∀ later,
      (∃ c, m.operateAll later = m.withConnection c) ∧ (m.operateAll later).Retired) ∧
    (m.isFinished = false →
      (∀ op reason, m.dispatch? op = some (.stop reason) ↔
        (m.dispatch? op).isSome = true ∧
          (m.operate op).state = .error ∧ (m.operate op).failure = some reason) ∧
      (∀ op reason, m.dispatch? op = some (.reconnect reason) →
        (∃ e, op = .decodeError e) ∧ reason.isTerminal = false ∧ m.operate op = m) ∧
      (m.leave.1 = true ↔ m.session.connection = .connected) ∧
      m.leave.2.state = .done ∧ m.leave.2.failure = none) := by
  intro m
  have hbudget : m.Budgeted p := (Budgeted.new p join playerName).operateAll ops
  constructor
  · intro hdone later
    obtain ⟨c, hlater⟩ := operateAll_of_isFinished hdone later
    have hstill : (m.operateAll later).isFinished = true := by
      rw [hlater, withConnection_isFinished, hdone]
    exact ⟨⟨c, hlater⟩, retired_of_isFinished hstill⟩
  · intro hgoing
    refine ⟨dispatch?_stop_iff hgoing, ?_, ?_⟩
    · intro op reason hop
      obtain ⟨e, rfl, rfl⟩ := dispatch?_reconnect hgoing hop
      exact ⟨⟨e, rfl⟩, rfl, rfl⟩
    · rw [leave_of_going hgoing]
      exact ⟨by simp, rfl, hbudget.failure_eq_none hgoing⟩

end TileRoom.Machine
