import TileRoom.Proofs.Client.Chats

/-!
# What a client tells

The user of a client sees none of its records, only the events that it reports. `Run.account` puts
the session and the board beside all that has been told of them, and `Account.after` says what one
episode adds: the session goes through an operation, or a shout is over. `meet_told` says that every
moment is told in a few episodes, and which they are. So what holds of all that is told is shown for
one episode (`play_account_induction`).
-/

namespace TileRoom

/-- The event that an effect reports. -/
def Effect.event? : Effect → Option ClientEvent
  | .reported e => some e
  | _ => none

/-- What is reported in a stretch of a trace. -/
def eventsIn (trace : List (Instant × Effect)) : List ClientEvent :=
  trace.filterMap fun x => x.2.event?

/-- Everything that has been reported. -/
def Run.events (r : Run) : List ClientEvent :=
  eventsIn r.trace

/-! ## Episodes -/

/-- What can happen to a client that is told. -/
inductive Episode
  | session (op : Machine.Operation)
  /-- A shout has been shown long enough. -/
  | shoutOver

namespace Machine

/-- What is told of the connection if an operation has led to `m`. -/
def Operation.connectionNews (m : Machine) : Operation → List ClientEvent
  | .connecting | .connected | .connectionLost => [.connectionChanged m.session.connection]
  | _ => []

/-- What is told of the state of the session if it was `before`. -/
def stateNews (m : Machine) (before : SessionState) : List ClientEvent :=
  if m.state = before then []
  else .stateChanged m.state :: if m.state = .error then m.failure.toList.map .failed else []

end Machine

/-- What is told of a message beside what it does to the board. -/
def ServerMessage.news : ServerMessage → List ClientEvent
  | .conversationId id => [.conversation id]
  | _ => []

/-- What an operation does to a board, and what is told of that. Only a message that the session
lets through gets so far. -/
def Machine.Operation.onBoard (m : Machine) (b : Board) :
    Machine.Operation → Board × List ClientEvent
  | .handle msg =>
    if (m.handle msg).1 = .forward then ((b.apply msg).1, msg.news ++ (b.apply msg).2.map .board)
    else (b, [])
  | _ => (b, [])

section News

variable {m : Machine} {op : Machine.Operation} {e : ClientEvent}

theorem Machine.Operation.eq_of_mem_connectionNews (h : e ∈ op.connectionNews m) :
    e = .connectionChanged m.session.connection := by
  cases op with
  | connecting | connected | connectionLost => exact List.mem_singleton.mp h
  | _ => cases h

theorem Machine.eq_of_mem_stateNews {before : SessionState} (h : e ∈ m.stateNews before) :
    e = .stateChanged m.state ∨ ∃ reason, e = .failed reason := by
  unfold stateNews at h
  split at h
  · cases h
  · rcases List.mem_cons.mp h with rfl | h
    · exact .inl rfl
    · split at h
      · obtain ⟨reason, _, rfl⟩ := List.mem_map.mp h
        exact .inr ⟨reason, rfl⟩
      · cases h

theorem Machine.Operation.eq_of_mem_onBoard {b : Board} (h : e ∈ (op.onBoard m b).2) :
    (∃ event, e = .board event) ∨ ∃ id, e = .conversation id := by
  cases op with
  | handle msg =>
      unfold onBoard at h
      dsimp only at h
      split at h
      · rcases List.mem_append.mp h with h | h
        · cases msg with
          | conversationId id => exact .inr ⟨id, List.mem_singleton.mp h⟩
          | _ => cases h
        · obtain ⟨event, _, rfl⟩ := List.mem_map.mp h
          exact .inl ⟨event, rfl⟩
      · cases h
  | _ => cases h

end News

/-- What a client knows, beside all that it has told of it. -/
structure Account where
  machine : Machine
  board : Board
  told : List ClientEvent

namespace Account

/-- What an episode changes and what is told of it. The state of the session comes last. -/
def after (a : Account) : Episode → Account
  | .session op =>
    let machine := a.machine.operate op
    let onBoard := op.onBoard a.machine a.board
    { machine
      board := onBoard.1
      told := a.told ++ (op.connectionNews machine ++ onBoard.2) ++
        machine.stateNews a.machine.state }
  | .shoutOver =>
    { a with
      board := a.board.clearShout.1
      told := a.told ++ a.board.clearShout.2.map .board }

def afterAll (a : Account) (es : List Episode) : Account :=
  es.foldl after a

/-- Connections are attempted, opened and lost one after the other. -/
def Fits (a : Account) : Episode → Prop
  | .session .connecting => a.machine.session.connection = .disconnected
  | .session .connected => a.machine.session.connection = .connecting
  | .session .connectionLost => a.machine.session.connection ≠ .disconnected
  | _ => True

/-- The episodes can happen one after the other. Once the session is finished nothing does. -/
def Admits (a : Account) : List Episode → Prop
  | [] => True
  | e :: es => a.machine.isFinished = false ∧ a.Fits e ∧ (a.after e).Admits es

/-- What holds of an account and survives every episode holds after all of them. -/
theorem afterAll_induction {P : Account → Prop}
    (step : ∀ a e, a.machine.isFinished = false → a.Fits e → P a → P (a.after e)) {a : Account}
    {es : List Episode} (hes : a.Admits es) (h : P a) : P (a.afterAll es) := by
  induction es generalizing a with
  | nil => exact h
  | cons e es ih =>
      obtain ⟨hgoing, hfits, hrest⟩ := hes
      exact ih hrest (step a e hgoing hfits h)

end Account

namespace Run

def account (r : Run) : Account :=
  ⟨r.machine, r.board, r.events⟩

/-! ## What single operations tell -/

/-- `r'` came from `r` and `es` was reported over it. -/
def Reports (r r' : Run) (es : List ClientEvent) : Prop :=
  r'.events = r.events ++ es

section Operations

variable {r r' r₁ r₂ r₃ : Run} {es fs : List ClientEvent}

theorem Reports.of_trace_eq (h : r'.trace = r.trace) : Reports r r' [] := by
  rw [Reports, events, h, List.append_nil]
  rfl

theorem Reports.trans (h : Reports r₁ r₂ es) (h' : Reports r₂ r₃ fs) :
    Reports r₁ r₃ (es ++ fs) := by
  rw [Reports, h', h, List.append_assoc]

/-- Nothing was reported first. -/
theorem Reports.after (h : Reports r₁ r₂ []) (h' : Reports r₂ r₃ es) : Reports r₁ r₃ es :=
  h.trans h'

/-- Nothing was reported last. -/
theorem Reports.before (h : Reports r₁ r₂ es) (h' : Reports r₂ r₃ []) : Reports r₁ r₃ es := by
  simpa using h.trans h'

theorem log_reports (r : Run) (e : Effect) : Reports r (r.log e) e.event?.toList := by
  cases h : e.event? <;> simp [Reports, events, eventsIn, log, h]

theorem log_reports_nil (r : Run) {e : Effect} (h : e.event? = none) : Reports r (r.log e) [] := by
  simpa [h] using r.log_reports e

theorem report_reports (r : Run) (e : ClientEvent) : Reports r (r.report e) [e] :=
  r.log_reports _

theorem reportConnection_reports (r : Run) :
    Reports r r.reportConnection [.connectionChanged r.machine.session.connection] :=
  r.report_reports _

theorem reportBoard_reports (r : Run) (es : List BoardEvent) :
    Reports r (r.reportBoard es) (es.map .board) := by
  rw [reportBoard_eq]
  show eventsIn (r.trace ++ _) = eventsIn r.trace ++ _
  rw [eventsIn, List.filterMap_append, List.filterMap_map]
  exact congrArg _ (congrFun List.filterMap_eq_map es)

theorem reportState_reports (r : Run) (before : SessionState) :
    Reports r (r.reportState before) (r.machine.stateNews before) := by
  unfold reportState Machine.stateNews
  by_cases hsame : r.machine.state = before
  · rw [if_pos hsame, if_pos hsame]
    exact .of_trace_eq rfl
  · rw [if_neg hsame, if_neg hsame]
    have hstate := r.report_reports (.stateChanged r.machine.state)
    cases hreason : r.machine.failure with
    | none => cases h : r.machine.state <;> simpa [h, hreason] using hstate
    | some reason =>
        cases h : r.machine.state with
        | error =>
            rw [h] at hstate
            simpa [h, hreason] using hstate.trans (report_reports _ (.failed reason))
        | _ => simpa [h, hreason] using hstate

theorem sent_reports (r : Run) (id : ConnectionId) (m : ClientMessage) :
    Reports r (r.sent id m) [] :=
  ((Reports.of_trace_eq rfl).after (log_reports_nil _ rfl)).before (log_reports_nil _ rfl)

theorem release_reports (r : Run) : Reports r r.release [] := by
  unfold release
  cases r.keeper.connection with
  | none => exact .of_trace_eq rfl
  | some id => exact (Reports.of_trace_eq rfl).after (log_reports_nil _ rfl)

theorem close_reports (r : Run) : Reports r r.close [] := by
  unfold close
  cases r.keeper.connection with
  | none => exact r.release_reports
  | some id => exact (r.log_reports_nil rfl).after (release_reports _)

theorem connect_reports (r : Run) :
    Reports r r.connect [.connectionChanged .connecting] := by
  have hconnecting : Reports r { r with machine := r.machine.connecting } [] := .of_trace_eq rfl
  have hreported := hconnecting.after (reportConnection_reports _)
  have hreleased := hreported.before (release_reports _)
  exact (hreleased.before (.of_trace_eq rfl)).before (log_reports_nil _ rfl)

theorem attached_reports (r : Run) : Reports r r.attached [.connectionChanged .connected] := by
  have hopened : Reports r { r.release with opened := r.nextId.value } [] :=
    r.release_reports.before (.of_trace_eq rfl)
  have hlogged := hopened.before (log_reports_nil _ (e := .opened r.nextId) rfl)
  unfold attached
  exact .after (hlogged.before (.of_trace_eq rfl)) (reportConnection_reports _)

theorem armReconnect_reports (r : Run) (after : Duration) : Reports r (r.armReconnect after) [] :=
  (Reports.of_trace_eq rfl).after (log_reports_nil _ rfl)

theorem connectionLost_reports (r : Run) (before : SessionState) :
    Reports r (r.connectionLost before)
      ([.connectionChanged r.machine.connectionLost.2.session.connection] ++
        r.machine.connectionLost.2.stateNews before) := by
  have hmachine : r.release.machine = r.machine := by rw [release_toClient]
  have hlost : Reports r { r.release with
      flushRetry := r.release.flushRetry.cancel
      typing := r.release.typing.connectionLost
      machine := r.machine.connectionLost.2 } [] := r.release_reports.before (.of_trace_eq rfl)
  unfold connectionLost
  dsimp only
  rw [hmachine]
  -- whether another attempt follows is not told
  cases r.machine.connectionLost.1 with
  | after delay =>
      have harmed := hlost.before (armReconnect_reports _ delay)
      exact (harmed.after (reportConnection_reports _)).trans (reportState_reports _ before)
  | giveUp =>
      have hcancelled : Reports r { r.release with
          flushRetry := r.release.flushRetry.cancel
          typing := r.release.typing.connectionLost
          machine := r.machine.connectionLost.2
          reconnect := r.release.reconnect.cancel } [] := hlost.before (.of_trace_eq rfl)
      exact (hcancelled.after (reportConnection_reports _)).trans (reportState_reports _ before)

theorem applyMessage_reports (r : Run) (m : ServerMessage) :
    Reports r (r.applyMessage m) (m.news ++ (r.board.apply m).2.map .board) := by
  have hshow (r₀ : Run) (board : Board) (es : List BoardEvent) :
      Reports r₀ ((if es.any BoardEvent.isShout then { r₀ with board }.armShoutClear
        else { r₀ with board }).reportBoard es) (es.map .board) := by
    refine .after ?_ (reportBoard_reports _ es)
    split
    · exact (Reports.of_trace_eq rfl).after (log_reports_nil _ rfl)
    · exact .of_trace_eq rfl
  cases m with
  | conversationId id => exact (r.report_reports _).trans (hshow _ _ _)
  | _ => exact hshow _ _ _

/-! ## What single operations do to the account -/

theorem Reports.account_eq (h : Reports r r' []) (machine : r'.machine = r.machine)
    (board : r'.board = r.board) : r'.account = r.account := by
  rw [account, machine, board, h, List.append_nil]
  rfl

/-- The account after an operation that does nothing to the board. -/
theorem Reports.account_after {op : Machine.Operation}
    (h : Reports r r' (op.connectionNews r'.machine ++ r'.machine.stateNews r.machine.state))
    (machine : r'.machine = r.machine.operate op) (board : r'.board = r.board)
    (honBoard : op.onBoard r.machine r.board = (r.board, [])) :
    r'.account = r.account.after (.session op) := by
  have htold : r'.events = _ := h
  rw [machine] at htold
  simp only [account, Account.after, machine, board, honBoard, htold, List.append_nil,
    List.append_assoc]

/-- The state of the session is told last. -/
theorem reportState_account {op : Machine.Operation} (machine : r'.machine = r.machine.operate op)
    (board : r'.board = (op.onBoard r.machine r.board).1)
    (h : Reports r r' (op.connectionNews r'.machine ++ (op.onBoard r.machine r.board).2)) :
    (r'.reportState r.machine.state).account = r.account.after (.session op) := by
  have htold : (r'.reportState r.machine.state).events = _ := h.trans (reportState_reports r' _)
  rw [machine] at htold
  simp only [account, Account.after, reportState_toClient, machine, board, htold,
    List.append_assoc]

theorem log_account (r : Run) {e : Effect} (h : e.event? = none) :
    (r.log e).account = r.account :=
  (r.log_reports_nil h).account_eq rfl rfl

theorem answer_account (r : Run) (a : Answer) : (r.answer a).account = r.account :=
  r.log_account rfl

theorem sent_account (r : Run) (id : ConnectionId) (m : ClientMessage) :
    (r.sent id m).account = r.account :=
  (r.sent_reports id m).account_eq rfl rfl

theorem sentAll_account (r : Run) (id : ConnectionId) (ms : List ClientMessage) :
    (r.sentAll id ms).account = r.account := by
  induction ms generalizing r with
  | nil => rfl
  | cons m ms ih => rw [sentAll_cons, ih, sent_account]

theorem armFlushRetry_account (r : Run) : r.armFlushRetry.account = r.account := by
  unfold armFlushRetry
  split
  · rfl
  · dsimp only
    rw [log_account _ rfl]
    rfl

theorem told_account (r : Run) (id : ConnectionId) : (r.told id).takeHeld.account = r.account :=
  sentAll_account { r with typing := r.typing.sync.2 } id _

theorem tearDown_account (r : Run) : r.tearDown.account = r.account := by
  have hidle : Reports r r.standDown [] := .of_trace_eq rfl
  have hdown : Reports r r.tearDown [] := by
    rcases r.tearDown_cases with ⟨_, heq⟩ | ⟨id, _, heq⟩
    · rw [heq]
      exact hidle
    · rw [heq]
      exact hidle.after (close_reports _)
  refine hdown.account_eq ?_ ?_
  · rw [tearDown_toClient]
  · rw [tearDown_toClient]

theorem Closing.account_eq (h : Closing r r') : r'.account = r.account := by
  cases h with
  | going _ => rfl
  | torn _ => exact r.tearDown_account

theorem connect_account (r : Run) :
    r.connect.account = r.account.after (.session .connecting) := by
  have hmachine : r.connect.machine = r.machine.connecting := by rw [connect_toClient]
  refine Reports.account_after ?_ hmachine ?_ rfl
  · rw [hmachine, Machine.stateNews, if_pos (by rfl), List.append_nil]
    exact r.connect_reports
  · rw [connect_toClient]

theorem attached_account (r : Run) :
    r.attached.account = r.account.after (.session .connected) := by
  have hmachine : r.attached.machine = r.machine.connected := by rw [attached_toClient]
  refine Reports.account_after ?_ hmachine ?_ rfl
  · rw [hmachine, Machine.stateNews, if_pos (by rfl), List.append_nil]
    exact r.attached_reports
  · rw [attached_toClient]

theorem connectionLost_account (r : Run) {before : SessionState}
    (hbefore : before = r.machine.state) :
    (r.connectionLost before).account = r.account.after (.session .connectionLost) := by
  have hmachine : (r.connectionLost before).machine = r.machine.connectionLost.2 := by
    rw [connectionLost_toClient]
  refine Reports.account_after ?_ hmachine ?_ rfl
  · rw [hmachine, ← hbefore]
    exact r.connectionLost_reports before
  · rw [connectionLost_toClient]

end Operations

/-! ## What sending does to the account -/

/-- Between `r` and `r'` nothing was told, or a connection was lost and that was told. -/
inductive MayLose (r r' : Run) : Prop
  | kept (h : r'.account = r.account)
  | lost (hid : r.keeper.isConnected = true)
      (h : r'.account = r.account.after (.session .connectionLost))

section Sending

variable {r r' r₁ r₂ r₃ : Run} {id : ConnectionId} {ok : Bool}

theorem MayLose.after (h : r₂.account = r₁.account)
    (hconnection : r₂.keeper.connection = r₁.keeper.connection) (h' : MayLose r₂ r₃) :
    MayLose r₁ r₃ := by
  cases h' with
  | kept h' => exact .kept (h'.trans h)
  | lost hid h' =>
      rw [Keeper.isConnected, hconnection] at hid
      exact .lost hid (h ▸ h')

theorem MayLose.before (h : MayLose r₁ r₂) (h' : r₃.account = r₂.account) : MayLose r₁ r₃ := by
  cases h with
  | kept h => exact .kept (h'.trans h)
  | lost hid h => exact .lost hid (h'.trans h)

/-- A message that is refused costs the connection, and the loss is told as any other. -/
theorem refused_mayLose {m : ClientMessage} {e : ClientError} (h : r.keeper.connection = some id) :
    MayLose r ((r.log (.unsent m e)).connectionLost r.machine.state) := by
  refine .lost (isConnected_of_connection h) ?_
  have hlogged := r.log_account (e := .unsent m e) rfl
  exact (connectionLost_account (r.log (.unsent m e)) rfl).trans (hlogged ▸ rfl)

theorem Sending.mayLose {m : ClientMessage} (h : Sending r m (ok, r')) : MayLose r r' := by
  cases h with
  | out _ => exact .kept (r.sent_account _ m)
  | unconnected _ => exact .kept (r.log_account rfl)
  | unwritable _ => exact .kept (r.log_account rfl)
  | lost hid => exact refused_mayLose hid

theorem Bursting.mayLose {ms : List ClientMessage} (h : Bursting r id ms (ok, r'))
    (hid : r.keeper.connection = some id) : MayLose r r' := by
  cases h with
  | out => exact .kept (r.sentAll_account id ms)
  | kept before m rest e _ _ =>
      exact .kept ((log_account _ rfl).trans (r.sentAll_account id before))
  | lost before m rest e _ =>
      have hstill : (r.sentAll id before).keeper.connection = r.keeper.connection := by
        rw [sentAll_toClient]
      have hstate : (r.sentAll id before).machine.state = r.machine.state := by
        rw [sentAll_toClient]
      rw [← hstate]
      exact .after (r.sentAll_account id before) hstill (refused_mayLose (hstill.trans hid))

theorem Flushing.mayLose (h : Flushing r r') : MayLose r r' := by
  cases h with
  | unconnected _ => exact .kept rfl
  | idle _ => exact .kept rfl
  | deferred _ _ _ => exact .kept r.armFlushRetry_account
  | burst hid _ _ hburst =>
      have htaken : r.takeDirty.account = r.account := rfl
      exact .after htaken rfl (hburst.mayLose hid)

theorem Resuming.mayLose (h : Resuming r id r') (hid : r.keeper.connection = some id) :
    MayLose r r' := by
  have htold := r.told_account id
  have hline : (r.told id).takeHeld.keeper.connection = r.keeper.connection := told_connection r id
  cases h with
  | untold hburst =>
      have hsynced : ({ r with typing := r.typing.sync.2 } : Run).account = r.account := rfl
      exact .after hsynced rfl (hburst.mayLose hid)
  | unreplayed hburst => exact .after htold hline (hburst.mayLose (hline.trans hid))
  | flushed hflush =>
      have hreplayed := (sentAll_account (r.told id).takeHeld id r.outbox.held).trans htold
      have hstill : ((r.told id).takeHeld.sentAll id r.outbox.held).keeper.connection =
          r.keeper.connection := by
        rw [sentAll_toClient]
        exact hline
      exact .after hreplayed hstill hflush.mayLose

theorem Asking.mayLose {m : ClientMessage} {check : Except BoardError Unit}
    (h : Asking r m check r') : MayLose r r' := by
  cases h with
  | denied e => exact .kept (r.answer_account _)
  | unconnected _ => exact .kept ((answer_account _ _).trans (r.log_account rfl))
  | unwritable e _ => exact .kept ((answer_account _ _).trans (r.log_account rfl))
  | lost e hid => exact (refused_mayLose hid).before (answer_account _ _)
  | out _ => exact .kept ((answer_account _ _).trans (r.sent_account _ m))

end Sending

/-! ## Stimuli -/

end Run

/-- Whether a stimulus ends a session under way whatever becomes of the connection: the client
leaves, or the server sends a message that is fatal. -/
def Machine.isEndedBy (m : Machine) : Stimulus → Bool
  | .requested .leave | .abandoned => true
  | .received frame =>
    match Wire.decode ServerMessage frame with
    | .ok msg => (m.handle msg).2.isFinished
    | .error _ => false
  | _ => false

section
variable {m : Machine} {frame : List UInt8}

theorem Machine.isEndedBy_of_decode {msg : ServerMessage}
    (h : Wire.decode ServerMessage frame = .ok msg) :
    m.isEndedBy (.received frame) = (m.handle msg).2.isFinished := by
  simp only [isEndedBy, h]

theorem Machine.isEndedBy_of_error {e : WireError}
    (h : Wire.decode ServerMessage frame = .error e) : m.isEndedBy (.received frame) = false := by
  simp only [isEndedBy, h]

/-- A loss does not end a session by itself. -/
theorem Machine.isEndedBy_of_isLoss {s : Stimulus} (h : s.isLoss = true) :
    m.isEndedBy s = false := by
  cases s with
  | received frame =>
      cases hdecode : Wire.decode ServerMessage frame with
      | ok msg =>
          simp only [Stimulus.isLoss, hdecode] at h
          cases h
      | error e => exact isEndedBy_of_error hdecode
  | requested q => cases h
  | abandoned => cases h
  | _ => rfl

end

/-- The episodes in which an unfinished session can be told what a stimulus means. -/
inductive Machine.Plot (m : Machine) : Stimulus → List Episode → Prop
  | quiet {s} (h : m.isEndedBy s = false) : Plot m s []
  | lost {s} (h : m.isEndedBy s = false) : Plot m s [.session .connectionLost]
  | opened : Plot m .connected [.session .connected]
  | stillborn : Plot m .connected [.session .connected, .session .connectionLost]
  | rejected {e} (he : Wire.encode m.hello = .error e) :
      Plot m .connected [.session .connected, .session (.helloRejected e)]
  | heard {frame msg} (hdecode : Wire.decode ServerMessage frame = .ok msg) :
      Plot m (.received frame) [.session (.handle msg)]
  | left {s} (hs : s = .requested .leave ∨ s = .abandoned) : Plot m s [.session .leave]
  | attempted : Plot m (.due .reconnect) [.session .connecting]
  | quietened : Plot m (.due .shoutClear) [.shoutOver]

namespace Run

section Stimuli

variable {r r' : Run} {s : Stimulus} {p : Phase}

/-- What is told between `r` and `r'` is told in episodes that a stimulus can mean. -/
def Told (r : Run) (s : Stimulus) (r' : Run) : Prop :=
  ∃ es, r.machine.Plot s es ∧ r.account.Admits es ∧ r'.account = r.account.afterAll es

theorem Told.quiet (h : r'.account = r.account) (hs : r.machine.isEndedBy s = false) :
    Told r s r' :=
  ⟨[], .quiet hs, trivial, h⟩

/-- A single episode. -/
theorem Told.once {e : Episode} (h : r'.account = r.account.after e) (hgoing : r.isFinished = false)
    (hplot : r.machine.Plot s [e]) (hfits : r.account.Fits e) : Told r s r' :=
  ⟨[e], hplot, ⟨hgoing, hfits, trivial⟩, h⟩

theorem MayLose.told (h : MayLose r r') (hr : r.Sound p) (hgoing : r.isFinished = false)
    (hs : r.machine.isEndedBy s = false) : Told r s r' := by
  cases h with
  | kept h => exact .quiet h hs
  | lost hid h =>
      obtain rfl := hr.installed.mp hid
      refine .once h hgoing (.lost hs) ?_
      show r.machine.session.connection ≠ .disconnected
      rw [hr.session]
      decide

theorem Leaving.account_eq (h : Leaving r r') :
    r'.account = r.account.after (.session .leave) := by
  have hleft : Reports r r.left [] := .of_trace_eq rfl
  cases h with
  | silent _ => exact reportState_account rfl rfl hleft
  | unsaid _ e _ => exact reportState_account rfl rfl (hleft.before (log_reports_nil _ rfl))
  | said _ _ => exact reportState_account rfl rfl (hleft.before (sent_reports _ _ _))

theorem Opening.told (h : Opening r r') (hgoing : r.isFinished = false)
    (hconnecting : r.machine.session.connection = .connecting) : Told r .connected r' := by
  have hattached := r.attached_account
  have hmachine : r.attached.machine = r.machine.connected := by rw [attached_toClient]
  have hstate : r.attached.machine.state = r.machine.state := by rw [hmachine]; rfl
  -- nothing but the record of the connection has changed when it is taken into use
  have hadmits {e : Episode} (hfits : (r.account.after (.session .connected)).Fits e) :
      r.account.Admits [.session .connected, e] := ⟨hgoing, hconnecting, hgoing, hfits, trivial⟩
  have hlost : (r.account.after (.session .connected)).Fits (.session .connectionLost) := by
    show ConnectionState.connected ≠ .disconnected
    decide
  cases h with
  | rejected e he =>
      refine ⟨_, .rejected he, hadmits trivial, ?_⟩
      have hunsent : Reports r.attached { r.attached.log (.unsent r.machine.hello (.wire e)) with
          machine := (r.machine.connected.helloRejected e).2 } [] :=
        (log_reports_nil _ rfl).before (.of_trace_eq rfl)
      have hrejected : (r.machine.connected.helloRejected e).2 =
          r.attached.machine.operate (.helloRejected e) := by
        rw [hmachine]
        rfl
      have htold : (Run.reportState { r.attached.log (.unsent r.machine.hello (.wire e)) with
          machine := (r.machine.connected.helloRejected e).2 } r.attached.machine.state).account =
            r.attached.account.after (.session (.helloRejected e)) :=
        reportState_account hrejected rfl hunsent
      rw [hstate, hattached] at htold
      exact htold
  | lost e =>
      refine ⟨_, .stillborn, hadmits hlost, ?_⟩
      rw [← hstate]
      refine (connectionLost_account (r.attached.log (.unsent _ _)) rfl).trans ?_
      rw [log_account _ rfl, hattached]
      rfl
  | resumed hresume =>
      have hgreeted := (r.attached.sent_account r.nextId r.machine.hello).trans hattached
      cases hresume.mayLose (by simp [Keeper.attach]) with
      | kept h => exact ⟨_, .opened, ⟨hgoing, hconnecting, trivial⟩, h.trans hgreeted⟩
      | lost _ h =>
          refine ⟨_, .stillborn, hadmits hlost, ?_⟩
          rw [h, hgreeted]
          rfl

theorem Handling.told (h : Handling r s r') (hr : r.Sound p) (hgoing : r.isFinished = false)
    (hs : r.isEnabled s = true) : Told r s r' := by
  cases h with
  | opened ha ho =>
      obtain rfl := hr.attempting.mp ha
      exact ho.told hgoing hr.session
  | unopened ha =>
      obtain rfl := hr.attempting.mp ha
      refine .once (connectionLost_account { r with attempting := false } rfl) hgoing (.lost rfl) ?_
      show r.machine.session.connection ≠ .disconnected
      rw [hr.session]
      decide
  | @forwarded frame m machine hdecode hhandle =>
      have hheard : Reports r { r with machine } [] := .of_trace_eq rfl
      have happlied := hheard.after (applyMessage_reports _ m)
      refine .once (reportState_account ?_ ?_ ?_) hgoing (.heard hdecode) trivial
      · rw [applyMessage_toClient, Machine.operate, hhandle]
      · rw [applyMessage_toClient, Machine.Operation.onBoard, hhandle, if_pos rfl]
      · rw [Machine.Operation.onBoard, hhandle, if_pos rfl]
        exact happlied
  | @ignored frame hloss hidle =>
      refine .quiet rfl ?_
      cases hdecode : Wire.decode ServerMessage frame with
      | ok m =>
          rw [Machine.isEndedBy_of_decode hdecode, hidle m hdecode]
          exact hgoing
      | error e => exact Machine.isEndedBy_of_error hdecode
  | @stopped frame m reason hdecode hhandle =>
      have hmachine : (r.machine.fail reason).2 = r.machine.operate (.handle m) := by
        rw [Machine.operate, hhandle]
      have hfailed : Reports r { r with machine := (r.machine.fail reason).2 } [] :=
        .of_trace_eq rfl
      have honBoard : Machine.Operation.onBoard r.machine r.board (.handle m) = (r.board, []) := by
        rw [Machine.Operation.onBoard, hhandle, if_neg (by simp [Machine.fail])]
      refine .once (reportState_account hmachine ?_ ?_) hgoing (.heard hdecode) trivial
      · rw [honBoard]
      · rw [honBoard]
        exact hfailed
  | cutOff hid _ hloss =>
      have hlost : MayLose r (r.connectionLost r.machine.state) :=
        .lost (isConnected_of_connection hid) (r.connectionLost_account rfl)
      exact hlost.told hr hgoing (Machine.isEndedBy_of_isLoss hloss)
  | chat _ hsend => exact (MayLose.after (r.answer_account _) rfl hsend.mayLose).told hr hgoing rfl
  | held _ => exact .quiet (r.answer_account _) rfl
  | @typing value id _ _ hid hburst =>
      have hset : ({ r.answer .done with typing := (r.typing.set value true).2 } : Run).account =
          r.account := r.answer_account _
      exact (MayLose.after hset rfl (hburst.mayLose hid)).told hr hgoing rfl
  | untold _ => exact .quiet (r.answer_account _) rfl
  | @moved tile x y _ hflush =>
      have hmarked : ({ r.answer .done with outbox := r.outbox.markDirty tile x y } : Run).account =
          r.account := r.answer_account _
      exact (MayLose.after hmarked rfl hflush.mayLose).told hr hgoing rfl
  | turn hask => exact hask.mayLose.told hr hgoing rfl
  | shout hask => exact hask.mayLose.told hr hgoing rfl
  | capacity hask => exact hask.mayLose.told hr hgoing rfl
  | snapshot => exact .quiet (r.answer_account _) rfl
  | left hleave =>
      have hleft := (answer_account _ .done).trans hleave.account_eq
      exact .once hleft hgoing (.left (.inl rfl)) trivial
  | abandoned hleave => exact .once hleave.account_eq hgoing (.left (.inr rfl)) trivial
  | keptAlive hsend =>
      have hheard : ({ r with keeper := r.keeper.heard } : Run).account = r.account := rfl
      exact (MayLose.after hheard rfl hsend.mayLose).told hr hgoing rfl
  | reconnecting harmed =>
      obtain rfl := hr.retrying.mp harmed
      exact .once (connect_account { r with reconnect := r.reconnect.cancel }) hgoing .attempted
        hr.session
  | flushed hflush =>
      have hheard : ({ r with flushRetry := r.flushRetry.cancel } : Run).account = r.account := rfl
      exact (MayLose.after hheard rfl hflush.mayLose).told hr hgoing rfl
  | quietened =>
      have hcleared : Reports r
          { r with shoutClear := r.shoutClear.cancel, board := r.board.clearShout.1 } [] :=
        .of_trace_eq rfl
      have htold := hcleared.after (reportBoard_reports _ r.board.clearShout.2)
      refine .once ?_ hgoing .quietened trivial
      simp only [account, Account.after, reportBoard_toClient]
      rw [show _ = _ from htold]

end Stimuli

/-! ## Moments -/

section Moments

variable {r : Run} {m : Moment} {ms : List Moment}

/-- A finished client tells nothing. -/
theorem meet_account_of_isFinished (hdone : r.isFinished = true) (m : Moment) :
    (r.meet m).account = r.account := by
  have harrive : (r.arrive m).account = r.account := rfl
  have hanswer (a : Answer) : ((r.arrive m).answer a).account = r.account := answer_account _ a
  have hdone' : (r.arrive m).isFinished = true := hdone
  show ((r.arrive m).react m.stimulus).account = r.account
  unfold react
  cases m.stimulus with
  | requested q =>
      simp only
      cases q.admit with
      | error e => exact hanswer _
      | ok q' => simpa only [hdone', if_true] using hanswer _
  | _ => simpa only [hdone', if_true] using harrive

/-- Where nothing reaches the client nothing is told. -/
theorem meet_account_of_unreached (h : r.reached? m = none) : (r.meet m).account = r.account := by
  cases hdone : r.isFinished with
  | true => exact meet_account_of_isFinished hdone m
  | false =>
      have hcases := meet_cases hdone m
      generalize r.meet m = r' at hcases ⊢
      cases hcases with
      | refused reason _ => exact answer_account (r.arrive m) _
      | unheard _ _ => rfl
      | handled hs enabled _ _ => cases h.symm.trans (reached?_eq hdone hs enabled)
      | torn hs enabled _ _ => cases h.symm.trans (reached?_eq hdone hs enabled)

/-- What is told at a moment at which a stimulus reaches the client. -/
theorem meet_told {s : Stimulus} {p : Phase} (hs : r.reached? m = some s) (hr : r.Sound p) :
    Told r s (r.meet m) := by
  obtain ⟨hgoing, enabled⟩ := isEnabled_of_reached? hs
  obtain ⟨r₁, hhandle, hclosing⟩ := handling_of_reached? hs
  have hsound : (r.arrive m).Sound p := hr
  obtain ⟨es, hplot, hadmits, htold⟩ := hhandle.told hsound hgoing enabled
  exact ⟨es, hplot, hadmits, hclosing.account_eq.trans htold⟩

/-- What holds of the account at first and survives every episode holds of it at all times. -/
theorem play_account_induction {P : Account → Prop} {config : ClientConfig}
    (first : P (start config).account)
    (step : ∀ a e, a.machine.isFinished = false → a.Fits e → P a → P (a.after e))
    (ms : List Moment) : P (play config ms).account := by
  have hmeet {r : Run} (hr : r.isFinished = false → r.Tidy) (h : P r.account) (m : Moment) :
      P (r.meet m).account := by
    cases hs : r.reached? m with
    | none =>
        rw [meet_account_of_unreached hs]
        exact h
    | some s =>
        obtain ⟨p, hp⟩ := (hr (isEnabled_of_reached? hs).1).sound
        obtain ⟨es, _, hadmits, htold⟩ := meet_told hs hp
        rw [htold]
        exact Account.afterAll_induction step hadmits h
  have hfollow {r : Run} (hr : r.isFinished = false → r.Tidy) (h : P r.account) :
      P (r.follow ms).account := by
    induction ms generalizing r with
    | nil => exact h
    | cons m ms ih => exact ih (meet_tidy hr m) (hmeet hr h m)
  exact hfollow (fun _ => start_tidy config) first

theorem start_account (config : ClientConfig) :
    (start config).account =
      ⟨(Machine.new config.validated.session config.validated.join
        config.validated.playerName).connecting, {}, [.connectionChanged .connecting]⟩ :=
  connect_account _

end Moments

end Run

end TileRoom
