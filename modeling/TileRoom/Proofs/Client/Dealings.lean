import TileRoom.Client.Step

/-!
# Dealings with the server

A trace mixes what a client does with what it tells its user. `Effect.isDealing` picks out the
former: attempts, connections and messages. `Deals r r' es` says that `es` are the dealings by
which `r'` came from `r`; it composes, so the dealings of a reaction are put together from those of
its parts.

The first sections hold what each small operation leaves alone and what it adds. Later modules
use these facts and do not open the operations again.
-/

namespace TileRoom

/-- Whether an effect is about the server. -/
def Effect.isDealing : Effect → Bool
  | .attempted | .opened _ | .closed _ | .dropped _ | .sent .. | .unsent .. => true
  | .armed .. | .reported _ | .answered _ => false

/-- Whether an effect starts an attempt to connect or the use of a connection. -/
def Effect.isStart : Effect → Bool
  | .attempted | .opened _ => true
  | _ => false

/-- The message that was sent, or that should have been. -/
def Effect.message? : Effect → Option ClientMessage
  | .sent _ m _ | .unsent m _ => some m
  | _ => none

/-- A message that is said not to be writable is not. -/
def ClientError.AppliesTo : ClientError → ClientMessage → Prop
  | .wire e, m => Wire.encode m = .error e
  | _, _ => True

/-- What is sent goes out on connection `c`, as the frame that it has. -/
def Effect.Fits (c : Option ConnectionId) : Effect → Prop
  | .sent id m frame => c = some id ∧ frame = Wire.layout m
  | .unsent m e => e.AppliesTo m
  | _ => True

/-- An effect starts nothing and fits connection `c`, and its message, if it has one, is one of
`P`. -/
structure Effect.Within (c : Option ConnectionId) (P : ClientMessage → Prop) (e : Effect) :
    Prop where
  quiet : e.isStart = false
  fits : e.Fits c
  utters : ∀ m, e.message? = some m → P m

namespace Run

/-- `r'` came from `r` by the dealings `es` and by effects that are none. -/
def Deals (r r' : Run) (es : List Effect) : Prop :=
  ∃ added, r'.trace = r.trace ++ added ∧ (added.map Prod.snd).filter Effect.isDealing = es

theorem Deals.of_trace_eq {r r' : Run} (h : r'.trace = r.trace) : Deals r r' [] :=
  ⟨[], by simp [h], rfl⟩

theorem Deals.refl (r : Run) : Deals r r [] :=
  .of_trace_eq rfl

theorem Deals.trans {r₁ r₂ r₃ : Run} {es fs : List Effect} (h : Deals r₁ r₂ es)
    (h' : Deals r₂ r₃ fs) : Deals r₁ r₃ (es ++ fs) := by
  obtain ⟨added, htrace, hes⟩ := h
  obtain ⟨added', htrace', hfs⟩ := h'
  refine ⟨added ++ added', ?_, ?_⟩
  · rw [htrace', htrace, List.append_assoc]
  · rw [List.map_append, List.filter_append, hes, hfs]

/-- Effects that are no dealings may come first. -/
theorem Deals.after {r₁ r₂ r₃ : Run} {es : List Effect} (h : Deals r₁ r₂ [])
    (h' : Deals r₂ r₃ es) : Deals r₁ r₃ es :=
  h.trans h'

/-- Effects that are no dealings may come last. -/
theorem Deals.before {r₁ r₂ r₃ : Run} {es : List Effect} (h : Deals r₁ r₂ es)
    (h' : Deals r₂ r₃ []) : Deals r₁ r₃ es := by
  simpa using h.trans h'

/-- There is only one record of what lies between two runs. -/
theorem Deals.unique {r r' : Run} {es fs : List Effect} (h : Deals r r' es) (h' : Deals r r' fs) :
    es = fs := by
  obtain ⟨added, htrace, hes⟩ := h
  obtain ⟨added', htrace', hfs⟩ := h'
  have hsame : added = added' := List.append_cancel_left (htrace.symm.trans htrace')
  rw [← hes, ← hfs, hsame]

/-- What a client does with the server at a moment. -/
def dealings (r : Run) (m : Moment) : List Effect :=
  (((r.meet m).trace.drop r.trace.length).map Prod.snd).filter Effect.isDealing

theorem Deals.dealings_eq {r : Run} {m : Moment} {es : List Effect} (h : Deals r (r.meet m) es) :
    r.dealings m = es := by
  obtain ⟨added, htrace, hes⟩ := h
  rw [dealings, htrace, List.drop_left, hes]

/-! ## Dealings that start nothing -/

variable {c : Option ConnectionId} {P : ClientMessage → Prop}

/-- `r'` came from `r` without an attempt to connect and without a new connection. Every message
that was sent or should have been is one of `P`, and those that were sent went out on `c`. -/
def Utters (c : Option ConnectionId) (P : ClientMessage → Prop) (r r' : Run) : Prop :=
  ∃ es, Deals r r' es ∧ ∀ e ∈ es, e.Within c P

theorem Deals.utters {r r' : Run} (h : Deals r r' []) : Utters c P r r' :=
  ⟨[], h, by simp⟩

theorem Deals.utters_singleton {r r' : Run} {e : Effect} (h : Deals r r' [e])
    (he : e.Within c P) : Utters c P r r' :=
  ⟨[e], h, by simpa using he⟩

theorem Utters.refl (r : Run) : Utters c P r r :=
  (Deals.refl r).utters

theorem Utters.trans {r₁ r₂ r₃ : Run} (h : Utters c P r₁ r₂) (h' : Utters c P r₂ r₃) :
    Utters c P r₁ r₃ := by
  obtain ⟨es, hdeals, hes⟩ := h
  obtain ⟨fs, hdeals', hfs⟩ := h'
  refine ⟨es ++ fs, hdeals.trans hdeals', ?_⟩
  intro e he
  rcases List.mem_append.mp he with he | he
  · exact hes e he
  · exact hfs e he

/-! ## Notes in the trace -/

@[simp] theorem log_toClient (r : Run) (e : Effect) : (r.log e).toClient = r.toClient := rfl

theorem log_deals (r : Run) (e : Effect) : Deals r (r.log e) (if e.isDealing then [e] else []) :=
  ⟨[(r.now, e)], rfl, by cases h : e.isDealing <;> simp [h]⟩

theorem log_deals_of_isDealing (r : Run) {e : Effect} (h : e.isDealing = true) :
    Deals r (r.log e) [e] := by
  simpa [h] using log_deals r e

theorem log_deals_nil (r : Run) {e : Effect} (h : e.isDealing = false) : Deals r (r.log e) [] := by
  simpa [h] using log_deals r e

@[simp] theorem report_toClient (r : Run) (e : ClientEvent) :
    (r.report e).toClient = r.toClient := rfl

theorem report_deals (r : Run) (e : ClientEvent) : Deals r (r.report e) [] :=
  r.log_deals_nil rfl

@[simp] theorem answer_toClient (r : Run) (a : Answer) : (r.answer a).toClient = r.toClient := rfl

theorem answer_deals (r : Run) (a : Answer) : Deals r (r.answer a) [] :=
  r.log_deals_nil rfl

@[simp] theorem reportConnection_toClient (r : Run) :
    r.reportConnection.toClient = r.toClient := rfl

theorem reportConnection_deals (r : Run) : Deals r r.reportConnection [] :=
  r.report_deals _

/-- Reporting events changes nothing but the trace. -/
theorem reportBoard_eq (r : Run) (es : List BoardEvent) :
    r.reportBoard es =
      { r with trace := r.trace ++ es.map fun e => (r.now, .reported (.board e)) } := by
  induction es generalizing r with
  | nil => simp [reportBoard]
  | cons e es ih =>
      -- the trace grows at its end, so the induction goes over the run
      show (r.report (.board e)).reportBoard es = _
      rw [ih]
      simp [report, log]

@[simp] theorem reportBoard_toClient (r : Run) (es : List BoardEvent) :
    (r.reportBoard es).toClient = r.toClient := by
  rw [reportBoard_eq]

theorem reportBoard_deals (r : Run) (es : List BoardEvent) : Deals r (r.reportBoard es) [] := by
  rw [reportBoard_eq]
  exact ⟨_, rfl, by simp [List.filter_map, Function.comp_def, Effect.isDealing]⟩

@[simp] theorem reportState_toClient (r : Run) (before : SessionState) :
    (r.reportState before).toClient = r.toClient := by
  unfold reportState
  split
  · rfl
  · dsimp only
    split <;> rfl

theorem reportState_deals (r : Run) (before : SessionState) :
    Deals r (r.reportState before) [] := by
  unfold reportState
  split
  · exact .refl r
  · dsimp only
    split
    · exact (r.report_deals _).before (report_deals _ _)
    · exact r.report_deals _

/-! ## Deadlines -/

@[simp] theorem armReconnect_toClient (r : Run) (after : Duration) :
    (r.armReconnect after).toClient =
      { r.toClient with reconnect := r.reconnect.arm r.now after } := rfl

theorem armReconnect_deals (r : Run) (after : Duration) : Deals r (r.armReconnect after) [] :=
  (Deals.of_trace_eq rfl).after (log_deals_nil _ rfl)

theorem armShoutClear_deals (r : Run) : Deals r r.armShoutClear [] :=
  (Deals.of_trace_eq rfl).after (log_deals_nil _ rfl)

@[simp] theorem armFlushRetry_toClient (r : Run) :
    r.armFlushRetry.toClient =
      { r.toClient with
        flushRetry := r.flushRetry.armIfIdle r.now r.config.flushRetryInterval } := by
  unfold armFlushRetry Deadline.armIfIdle
  by_cases h : r.flushRetry.isArmed
  · simp only [h, if_true]
  · simp only [h, Bool.false_eq_true, if_false, log_toClient]

theorem armFlushRetry_deals (r : Run) : Deals r r.armFlushRetry [] := by
  unfold armFlushRetry
  split
  · exact .refl r
  · exact (Deals.of_trace_eq rfl).after (log_deals_nil _ rfl)

/-! ## The board -/

/-- What a message of the server changes beside the session: the board and the shout on it. -/
@[simp] theorem applyMessage_toClient (r : Run) (m : ServerMessage) :
    (r.applyMessage m).toClient =
      { r.toClient with
        board := (r.board.apply m).1
        shoutClear := if (r.board.apply m).2.any BoardEvent.isShout
          then r.shoutClear.arm r.now r.config.shoutDuration else r.shoutClear } := by
  cases hshout : (r.board.apply m).2.any BoardEvent.isShout with
  | true =>
      cases m <;> simp only [applyMessage, report_toClient, hshout, if_true,
        reportBoard_toClient] <;> rfl
  | false =>
      cases m <;> simp only [applyMessage, report_toClient, hshout, Bool.false_eq_true, if_false,
        reportBoard_toClient]

theorem applyMessage_deals (r : Run) (m : ServerMessage) : Deals r (r.applyMessage m) [] := by
  have hshow (r₀ : Run) (board : Board) (es : List BoardEvent) :
      Deals r₀ ((if es.any BoardEvent.isShout then { r₀ with board }.armShoutClear
        else { r₀ with board }).reportBoard es) [] := by
    refine .before ?_ (reportBoard_deals _ es)
    split
    · exact (Deals.of_trace_eq rfl).before (armShoutClear_deals _)
    · exact .of_trace_eq rfl
  cases m with
  | conversationId id => exact (report_deals r _).after (hshow _ _ _)
  | _ => exact hshow _ _ _

/-! ## Connections -/

/-- What is let go of with the connection. -/
def dropping (r : Run) : List Effect :=
  r.keeper.connection.toList.map .dropped

@[simp] theorem release_toClient (r : Run) :
    r.release.toClient = { r.toClient with keeper := r.keeper.release } := by
  unfold release
  cases r.keeper.connection <;> rfl

@[simp] theorem release_now (r : Run) : r.release.now = r.now := by
  unfold release
  cases r.keeper.connection <;> rfl

theorem release_deals (r : Run) : Deals r r.release r.dropping := by
  unfold release dropping
  cases r.keeper.connection with
  | none => exact .of_trace_eq rfl
  | some id => exact (Deals.of_trace_eq rfl).after (log_deals_of_isDealing _ rfl)

@[simp] theorem close_toClient (r : Run) :
    r.close.toClient = { r.toClient with keeper := r.keeper.release } := by
  unfold close
  cases r.keeper.connection <;> simp

theorem close_deals (r : Run) :
    Deals r r.close (r.keeper.connection.toList.flatMap fun id => [.closed id, .dropped id]) := by
  unfold close
  cases h : r.keeper.connection with
  | none => simpa [dropping, h] using r.release_deals
  | some id =>
      have hlog := r.log_deals_of_isDealing (e := .closed id) rfl
      have hdrop := (r.log (.closed id)).release_deals
      simpa [dropping, h] using hlog.trans hdrop

@[simp] theorem connect_toClient (r : Run) :
    r.connect.toClient =
      { r.toClient with
        machine := r.machine.connecting
        keeper := r.keeper.release
        attempting := true } := by
  simp [connect]

theorem connect_deals (r : Run) : Deals r r.connect (r.dropping ++ [.attempted]) := by
  have hconnecting : Deals r { r with machine := r.machine.connecting } [] := .of_trace_eq rfl
  have hreport := hconnecting.before (reportConnection_deals _)
  have hrelease := hreport.after (release_deals _)
  have hattempting := hrelease.before (.of_trace_eq rfl)
  exact hattempting.trans (log_deals_of_isDealing _ rfl)

/-- A lost connection, all but the trace. Boards, outbox and attempts are left alone. -/
@[simp] theorem connectionLost_toClient (r : Run) (before : SessionState) :
    (r.connectionLost before).toClient =
      { r.toClient with
        machine := r.machine.connectionLost.2
        keeper := r.keeper.release
        typing := r.typing.connectionLost
        flushRetry := r.flushRetry.cancel
        reconnect := match r.machine.connectionLost.1 with
          | .after delay => r.reconnect.arm r.now delay
          | .giveUp => r.reconnect.cancel } := by
  unfold connectionLost
  rcases h : r.machine.connectionLost with ⟨retry, machine⟩
  cases retry <;> simp [h]

theorem connectionLost_deals (r : Run) (before : SessionState) :
    Deals r (r.connectionLost before) r.dropping := by
  unfold connectionLost
  dsimp only
  -- whether it tries again or gives up, the connection is let go of first
  split <;> refine .before (.before ?_ (reportConnection_deals _)) (reportState_deals _ _)
  · refine .before ?_ (armReconnect_deals _ _)
    exact (release_deals r).before (.of_trace_eq rfl)
  · exact (release_deals r).before (.of_trace_eq rfl)

theorem dropping_within {r : Run} {e : Effect} (h : e ∈ r.dropping) : e.Within c P := by
  obtain ⟨id, _, rfl⟩ := List.mem_map.mp h
  exact ⟨rfl, trivial, by simp [Effect.message?]⟩

theorem connectionLost_utters (r : Run) (before : SessionState) :
    Utters c P r (r.connectionLost before) :=
  ⟨_, r.connectionLost_deals before, fun _ he => dropping_within he⟩

theorem unsent_utters (r : Run) {m : ClientMessage} (e : ClientError) (he : e.AppliesTo m)
    (h : P m) : Utters c P r (r.log (.unsent m e)) := by
  refine (log_deals_of_isDealing r (e := .unsent m e) rfl).utters_singleton ⟨rfl, he, ?_⟩
  intro m' hm
  exact Option.some.inj hm ▸ h

theorem close_utters (r : Run) : Utters c P r r.close := by
  refine ⟨_, r.close_deals, ?_⟩
  intro e he
  obtain ⟨id, _, hid⟩ := List.mem_flatMap.mp he
  rcases List.mem_cons.mp hid with rfl | hid
  · exact ⟨rfl, trivial, by simp [Effect.message?]⟩
  · rw [List.mem_singleton.mp hid]
    exact ⟨rfl, trivial, by simp [Effect.message?]⟩

theorem standDown_deals (r : Run) : Deals r r.standDown [] :=
  .of_trace_eq rfl

/-- Only a client with a connection has one to close. -/
theorem tearDown_cases (r : Run) :
    (r.keeper.connection = none ∧ r.tearDown = r.standDown) ∨
      ∃ id, r.keeper.connection = some id ∧ r.tearDown = r.standDown.close := by
  unfold tearDown
  cases hid : r.keeper.connection with
  | none => exact .inl ⟨rfl, by simp [standDown, Keeper.isConnected, hid]⟩
  | some id => exact .inr ⟨id, rfl, by simp [standDown, Keeper.isConnected, hid]⟩

theorem tearDown_utters (r : Run) : Utters c P r r.tearDown := by
  rcases r.tearDown_cases with ⟨_, heq⟩ | ⟨id, _, heq⟩
  · rw [heq]
    exact r.standDown_deals.utters
  · rw [heq]
    exact r.standDown_deals.utters.trans (close_utters _)

end Run

end TileRoom
