import TileRoom.Proofs.Client.Connections
import TileRoom.Proofs.Client.Manners
import TileRoom.Proofs.Client.Talking

/-!
# How a life ends

The dealings of a client tell which connection is in use, the line (`lineAfter`). As long as the
client goes on that is the connection it holds, and none has been closed (`play_line`).

There are two ways to end. A client that hangs up still holds the line it had (`Handling.hungUp`).
One that the last loss ends has no line any more, wherever in a burst the loss came
(`Handling.givenUp`). Either way the session notes that there is no connection, and the teardown
lets go of the rest. It takes the keep-alive back only where it finds a connection; where there is
none, no keep-alive is armed (`tearDown_disarmed`). `released_at_the_end` puts this together: the
line, if there is one, is closed once, and this is the last thing that is done.
-/

namespace TileRoom

/-! ## The line -/

/-- The connection in use after an effect, if `c` was in use before. -/
def Effect.line (c : Option ConnectionId) : Effect → Option ConnectionId
  | .opened id => some id
  | .dropped _ => none
  | _ => c

def lineAfter (c : Option ConnectionId) (es : List Effect) : Option ConnectionId :=
  es.foldl Effect.line c

theorem lineAfter_append (c : Option ConnectionId) (es fs : List Effect) :
    lineAfter c (es ++ fs) = lineAfter (lineAfter c es) fs :=
  List.foldl_append

namespace Run

/-- All that a client has dealt with the server. -/
def dealt (r : Run) : List Effect :=
  (r.trace.map Prod.snd).filter Effect.isDealing

theorem Deals.dealt_eq {r r' : Run} {es : List Effect} (h : Deals r r' es) :
    r'.dealt = r.dealt ++ es := by
  obtain ⟨added, htrace, hes⟩ := h
  rw [dealt, htrace, List.map_append, List.filter_append, hes, dealt]

/-- `r'` came from `r` by the dealings `es`. They tell the line, and they close none. -/
structure Tracks (r r' : Run) (es : List Effect) : Prop where
  deals : Deals r r' es
  unclosed : ∀ id, .closed id ∉ es
  line : r'.keeper.connection = lineAfter r.keeper.connection es

/-- `r'` came from `r` by dealings that tell the line. -/
def Tracked (r r' : Run) : Prop :=
  ∃ es, Tracks r r' es

section Tracks

variable {P : ClientMessage → Prop} {r r' r₁ r₂ r₃ : Run} {id : ConnectionId}
  {es fs : List Effect}

theorem Tracks.quiet (h : Deals r r' []) (hline : r'.keeper.connection = r.keeper.connection) :
    Tracks r r' [] :=
  ⟨h, by simp, hline⟩

theorem Tracks.single {e : Effect} (h : Deals r r' [e]) (he : ∀ id, e ≠ .closed id)
    (hline : r'.keeper.connection = e.line r.keeper.connection) : Tracks r r' [e] :=
  ⟨h, fun id hmem => he id (List.mem_singleton.mp hmem).symm, hline⟩

theorem Tracks.trans (h : Tracks r₁ r₂ es) (h' : Tracks r₂ r₃ fs) : Tracks r₁ r₃ (es ++ fs) where
  deals := h.deals.trans h'.deals
  unclosed id hmem := (List.mem_append.mp hmem).elim (h.unclosed id) (h'.unclosed id)
  line := by rw [lineAfter_append, ← h.line, h'.line]

theorem Tracks.after (h : Tracks r₁ r₂ []) (h' : Tracks r₂ r₃ es) : Tracks r₁ r₃ es :=
  h.trans h'

theorem Tracks.before (h : Tracks r₁ r₂ es) (h' : Tracks r₂ r₃ []) : Tracks r₁ r₃ es := by
  simpa using h.trans h'

theorem Tracks.tracked (h : Tracks r r' es) : Tracked r r' :=
  ⟨es, h⟩

theorem Deals.tracked (h : Deals r r' []) (hline : r'.keeper.connection = r.keeper.connection) :
    Tracked r r' :=
  (Tracks.quiet h hline).tracked

/-- A change of what has no say in the line. -/
theorem Tracked.of_eq (htrace : r'.trace = r.trace)
    (hline : r'.keeper.connection = r.keeper.connection) : Tracked r r' :=
  (Deals.of_trace_eq htrace).tracked hline

theorem Tracked.trans (h : Tracked r₁ r₂) (h' : Tracked r₂ r₃) : Tracked r₁ r₃ := by
  obtain ⟨es, h⟩ := h
  obtain ⟨fs, h'⟩ := h'
  exact (h.trans h').tracked

/-- To let go of the connection is to drop the line. -/
theorem Tracks.drop (h : Deals r r' r.dropping) (hline : r'.keeper.connection = none) :
    Tracks r r' r.dropping := by
  refine ⟨h, by simp [dropping], ?_⟩
  rw [hline, dropping]
  cases r.keeper.connection <;> rfl

theorem reportState_tracks (r : Run) (before : SessionState) :
    Tracks r (r.reportState before) [] :=
  .quiet (r.reportState_deals before) (by rw [reportState_toClient])

theorem unsent_tracks (r : Run) (m : ClientMessage) (e : ClientError) :
    Tracks r (r.log (.unsent m e)) [.unsent m e] :=
  .single (r.log_deals_of_isDealing rfl) (by simp) rfl

theorem sent_tracks (r : Run) (id : ConnectionId) (m : ClientMessage) :
    Tracks r (r.sent id m) [.sentOn id m] :=
  .single (r.sent_deals id m) (by simp [Effect.sentOn]) rfl

theorem note_tracked (r : Run) {e : Effect} (he : e.isNote = true) : Tracked r (r.log e) := by
  cases e with
  | unsent m reason => exact (r.unsent_tracks m reason).tracked
  | answered a => exact (r.answer_deals a).tracked rfl
  | _ => cases he

theorem connectionLost_tracks (r : Run) (before : SessionState) :
    Tracks r (r.connectionLost before) r.dropping :=
  .drop (r.connectionLost_deals before) (r.connectionLost_gone before)

theorem connect_tracks (r : Run) : Tracks r r.connect (r.dropping ++ [.attempted]) := by
  refine ⟨r.connect_deals, by simp [dropping], ?_⟩
  rw [connect_toClient, lineAfter_append, dropping]
  cases r.keeper.connection <;> rfl

theorem attached_tracks (r : Run) : Tracks r r.attached (r.dropping ++ [.opened r.nextId]) := by
  refine ⟨r.attached_deals, by simp [dropping], ?_⟩
  rw [attached_toClient, lineAfter_append]
  rfl

/-- Talk keeps the line or loses it. -/
theorem Talks.tracked (h : Talks P r r') : Tracked r r' := by
  induction h with
  | silent => exact (Deals.refl r).tracked rfl
  | said _ _ _ ih => exact ih.trans (sent_tracks _ _ _).tracked
  | noted _ he ih => exact ih.trans (note_tracked _ he)
  | lost _ before ih => exact ih.trans (connectionLost_tracks _ before).tracked
  | putOff _ ih =>
      exact ih.trans ((armFlushRetry_deals _).tracked (by rw [armFlushRetry_toClient]))
  | packed _ outbox ih => exact ih.trans (.of_eq rfl rfl)

theorem Resuming.tracked (h : Resuming r id r') (hid : r.keeper.connection = some id) :
    Tracked r r' := by
  have hsynced : Tracked r { r with typing := r.typing.sync.2 } := .of_eq rfl rfl
  rcases h.talks (P := fun _ => True) hid (by simp) (by simp) with ⟨_, htalks⟩ | htalks
  · exact hsynced.trans htalks.tracked
  · exact (hsynced.trans (told_talks hid).tracked).trans htalks.tracked

theorem Opening.tracked (h : Opening r r') : Tracked r r' := by
  have hattached := r.attached_tracks.tracked
  cases h with
  | rejected e _ =>
      have hunsent := hattached.trans (unsent_tracks _ r.machine.hello (.wire e)).tracked
      refine .trans (hunsent.trans ?_) (reportState_tracks _ _).tracked
      exact .of_eq rfl rfl
  | lost e =>
      have hunsent := hattached.trans (unsent_tracks _ r.machine.hello (.link e)).tracked
      exact hunsent.trans (connectionLost_tracks _ _).tracked
  | resumed hresume =>
      have hgreeted := hattached.trans (sent_tracks _ r.nextId r.machine.hello).tracked
      exact hgreeted.trans (hresume.tracked (by simp [Keeper.attach]))

end Tracks

/-! ## Two ways to end -/

/-- Between `r` and `r'` the client hung up. The line is left to be closed, and the farewell, if
there was one, was said on it. Where there is none, no keep-alive is due either. -/
structure HungUp (r r' : Run) (es : List Effect) : Prop extends Tracks r r' es where
  held : r'.keeper.connection = r.keeper.connection
  idle : r'.keeper.IsIdle
  noted : r'.machine.session.connection = .disconnected
  farewell : .leave ∈ delivered es →
    ∃ id, r.keeper.connection = some id ∧ es = [.sentOn id .leave]

/-- The client holds no connection and has no keep-alive to send, and the session has noted that. -/
structure GivenUp (r : Run) : Prop where
  line : r.keeper.connection = none
  silent : r.keeper.keepAlive.isArmed = false
  noted : r.machine.session.connection = .disconnected

section Endings

variable {P : ClientMessage → Prop} {r r' : Run} {s : Stimulus}

theorem connectionLost_givenUp (r : Run) (before : SessionState) :
    (r.connectionLost before).GivenUp where
  line := r.connectionLost_gone before
  silent := by
    rw [connectionLost_toClient]
    rfl
  noted := by
    rw [connectionLost_toClient]
    exact r.machine.connectionLost_connection

/-- Talk can end a client by a loss only. -/
theorem Talks.givenUp (h : Talks P r r') (hgoing : r.isFinished = false)
    (hdone : r'.isFinished = true) : r'.GivenUp := by
  induction h with
  | silent => cases hgoing.symm.trans hdone
  | said _ hid _ ih =>
      -- nothing is said without a line
      cases (ih hdone).line.symm.trans hid
  | noted _ _ ih => exact ⟨(ih hdone).line, (ih hdone).silent, (ih hdone).noted⟩
  | lost _ before _ => exact connectionLost_givenUp _ before
  | @putOff r₁ _ ih =>
      have hclient := r₁.armFlushRetry_toClient
      rw [Client.isFinished, hclient] at hdone
      refine ⟨?_, ?_, ?_⟩ <;> rw [hclient]
      · exact (ih hdone).line
      · exact (ih hdone).silent
      · exact (ih hdone).noted
  | packed _ _ ih => exact ⟨(ih hdone).line, (ih hdone).silent, (ih hdone).noted⟩

theorem Resuming.givenUp {id : ConnectionId} (h : Resuming r id r')
    (hid : r.keeper.connection = some id) (hgoing : r.isFinished = false)
    (hdone : r'.isFinished = true) : r'.GivenUp := by
  rcases h.talks (P := fun _ => True) hid (by simp) (by simp) with ⟨_, htalks⟩ | htalks
  · exact htalks.givenUp hgoing hdone
  · exact htalks.givenUp ((told_isFinished r id).trans hgoing) hdone

/-- If the hello can be written, a new connection ends the client only if it is lost. -/
theorem Opening.givenUp (h : Opening r r') (hhello : r.machine.hello.Fits)
    (hgoing : r.isFinished = false) (hdone : r'.isFinished = true) : r'.GivenUp := by
  cases h with
  | rejected e he =>
      obtain ⟨frame, hframe, _⟩ := hhello.encodes
      cases he.symm.trans hframe
  | lost e => exact connectionLost_givenUp _ _
  | resumed hresume =>
      refine hresume.givenUp (by simp [Keeper.attach]) ?_ hdone
      rw [Client.isFinished, sent_toClient, attached_toClient]
      exact hgoing

theorem Leaving.hungUp (h : Leaving r r') (hgoing : r.isFinished = false)
    (hidle : r.keeper.IsIdle) : ∃ es, HungUp r r' es := by
  have hleft : Tracks r r.left [] := .quiet (.of_trace_eq rfl) rfl
  have hnoted := Machine.leave_connection hgoing
  cases h with
  | silent _ =>
      refine ⟨[], hleft.before (reportState_tracks _ _), ?_, ?_, ?_, by simp [delivered]⟩
      · rw [reportState_toClient, left]
      · rw [reportState_toClient, left]
        exact hidle
      · rw [reportState_toClient, left, hnoted]
  | unsaid _ e _ =>
      have hunsent := hleft.after (unsent_tracks _ .leave e)
      refine ⟨_, hunsent.before (reportState_tracks _ _), ?_, ?_, ?_,
        by simp [delivered, Effect.sent?]⟩
      · rw [reportState_toClient, log_toClient, left]
      · rw [reportState_toClient, log_toClient, left]
        exact hidle
      · rw [reportState_toClient, log_toClient, left, hnoted]
  | @said id _ hid =>
      -- the farewell sets the deadline once more, on the line that is to be closed
      have hsaid := hleft.after (sent_tracks _ id .leave)
      refine ⟨_, hsaid.before (reportState_tracks _ _), ?_, ?_, ?_, fun _ => ⟨id, hid, rfl⟩⟩
      · rw [reportState_toClient, sent_toClient, left]
      · rw [reportState_toClient, sent_toClient, left]
        exact .of_connection hid
      · rw [reportState_toClient, sent_toClient, left, hnoted]

/-- A client that leaves or is told to stop hangs up. -/
theorem Handling.hungUp (h : Handling r s r') (hgoing : r.isFinished = false)
    (hidle : r.keeper.IsIdle) (hends : r.machine.isEndedBy s = true) : ∃ es, HungUp r r' es := by
  cases h with
  | left hleave =>
      obtain ⟨es, hhung⟩ := hleave.hungUp hgoing hidle
      exact ⟨es, hhung.before (.quiet (answer_deals _ _) rfl), hhung.held, hhung.idle, hhung.noted,
        hhung.farewell⟩
  | abandoned hleave => exact hleave.hungUp hgoing hidle
  | forwarded hdecode hhandle =>
      rw [Machine.isEndedBy_of_decode hdecode, hhandle] at hends
      cases (Machine.handle_forward hgoing hhandle).1.symm.trans hends
  | @ignored frame _ hidle =>
      cases hdecode : Wire.decode ServerMessage frame with
      | ok m =>
          rw [Machine.isEndedBy_of_decode hdecode, hidle m hdecode] at hends
          cases hgoing.symm.trans hends
      | error e => cases (Machine.isEndedBy_of_error hdecode).symm.trans hends
  | stopped reason _ _ =>
      have hfailed : Tracks r { r with machine := (r.machine.fail reason).2 } [] :=
        .quiet (.of_trace_eq rfl) rfl
      refine ⟨[], hfailed.before (reportState_tracks _ _), ?_, ?_, ?_, by simp [delivered]⟩
      · rw [reportState_toClient]
      · rw [reportState_toClient]
        exact hidle
      · rw [reportState_toClient]
        rfl
  | cutOff _ _ hloss => cases (Machine.isEndedBy_of_isLoss hloss).symm.trans hends
  | _ => cases hends

theorem noting_machine (r : Run) (s : Stimulus) : (r.noting s).machine = r.machine := by
  unfold noting
  split <;> rfl

theorem noting_tracked (r : Run) (s : Stimulus) : Tracked r (r.noting s) := by
  refine .of_eq (r.noting_trace s) ?_
  unfold noting
  split <;> rfl

/-- A client that ends in any other way has given up. -/
theorem Handling.givenUp (h : Handling r s r') (hhello : r.machine.hello.Fits)
    (hgoing : r.isFinished = false) (hstays : r.machine.isEndedBy s = false)
    (hdone : r'.isFinished = true) : r'.GivenUp := by
  have hnoted := r.noting_machine s
  have hgoing' : (r.noting s).isFinished = false := by
    rw [Client.isFinished, hnoted]
    exact hgoing
  cases h.reacting with
  | talked _ htalks => exact htalks.givenUp hgoing' hdone
  | opened _ ho => exact ho.givenUp (hnoted ▸ hhello) hgoing' hdone
  | forwarded _ _ hhandle heq =>
      rw [heq, Client.isFinished, reportState_toClient, applyMessage_toClient] at hdone
      cases (Machine.handle_forward hgoing hhandle).1.symm.trans hdone
  | reconnecting _ heq =>
      rw [heq, Client.isFinished, connect_toClient] at hdone
      cases hgoing.symm.trans hdone
  | quietened _ heq =>
      rw [heq, Client.isFinished, reportBoard_toClient] at hdone
      cases hgoing.symm.trans hdone
  | ended hends _ _ _ => cases hstays.symm.trans hends

theorem Handling.tracked (h : Handling r s r') (hgoing : r.isFinished = false)
    (hidle : r.keeper.IsIdle) : Tracked r r' := by
  have hnoted := r.noting_tracked s
  cases h.reacting with
  | talked _ htalks => exact hnoted.trans htalks.tracked
  | opened _ ho => exact hnoted.trans ho.tracked
  | @forwarded _ m machine _ _ _ heq =>
      have hheard : Tracked r { r with machine } := .of_eq rfl rfl
      have happlied := hheard.trans
        ((applyMessage_deals _ m).tracked (by rw [applyMessage_toClient]))
      exact heq ▸ happlied.trans (reportState_tracks _ _).tracked
  | reconnecting _ heq =>
      have hcancelled : Tracked r { r with reconnect := r.reconnect.cancel } :=
        .of_eq rfl rfl
      exact heq ▸ hcancelled.trans (connect_tracks _).tracked
  | quietened _ heq =>
      have hcleared : Tracked r
          { r with shoutClear := r.shoutClear.cancel, board := r.board.clearShout.1 } :=
        .of_eq rfl rfl
      exact heq ▸ hcleared.trans ((reportBoard_deals _ r.board.clearShout.2).tracked
        (by rw [reportBoard_toClient]))
  | ended hends _ _ _ =>
      obtain ⟨es, hhung⟩ := h.hungUp hgoing hidle hends
      exact hhung.tracked

end Endings

end Run

/-! ## The teardown -/

/-- A client that holds nothing and waits for nothing. -/
structure Client.Released (c : Client) : Prop where
  attempting : c.attempting = false
  connection : c.keeper.connection = none
  disarmed : ∀ t, (c.deadline t).isArmed = false
  outbox : c.outbox = {}
  session : c.machine.session.connection = .disconnected

namespace Run

/-- The dealings by which a line is closed. -/
def closedOut (line : Option ConnectionId) : List Effect :=
  line.toList.flatMap fun id => [.closed id, .dropped id]

/-- The line that is left when a moment ends the client. -/
def lineLeft (r : Run) (m : Moment) : Option ConnectionId :=
  if r.hangsUp m then r.keeper.connection else none

/-- At a moment the client did `es` and then let go of everything. -/
structure Ends (r : Run) (m : Moment) (es : List Effect) : Prop where
  line : lineAfter r.keeper.connection es = r.lineLeft m
  unclosed : ∀ id, .closed id ∉ es
  deals : Deals r (r.meet m) (es ++ closedOut (r.lineLeft m))
  released : (r.meet m).Released
  farewell : .leave ∈ delivered es → ∃ id, r.lineLeft m = some id ∧ es = [.sentOn id .leave]

section Moments

variable {r : Run} {m : Moment} {ms : List Moment} {config : ClientConfig} {s : Stimulus}

theorem tearDown_deals (r : Run) : Deals r r.tearDown (closedOut r.keeper.connection) := by
  rcases r.tearDown_cases with ⟨hnone, heq⟩ | ⟨id, _, heq⟩
  · rw [heq, hnone]
    exact r.standDown_deals
  · rw [heq]
    exact r.standDown_deals.after (close_deals _)

/-- The teardown takes back every deadline but the one for a keep-alive. That one is taken back with
the connection, so there must be none where there is no connection. -/
theorem tearDown_disarmed (hidle : r.keeper.IsIdle) (t : Timer) :
    (r.tearDown.deadline t).isArmed = false := by
  rw [tearDown_toClient]
  cases t with
  | keepAlive =>
      show (if r.keeper.isConnected then r.keeper.release else r.keeper).keepAlive.isArmed = false
      cases hid : r.keeper.connection with
      | none =>
          rw [isConnected_eq_false hid]
          exact hidle hid
      | some id =>
          rw [isConnected_of_connection hid]
          rfl
  | reconnect => rfl
  | flushRetry => rfl
  | shoutClear => rfl

theorem tearDown_released (hidle : r.keeper.IsIdle)
    (hnoted : r.machine.session.connection = .disconnected) : r.tearDown.Released where
  attempting := by rw [tearDown_toClient]
  connection := r.tearDown_gone
  disarmed := tearDown_disarmed hidle
  outbox := by
    rw [tearDown_toClient]
    rfl
  session := by
    rw [tearDown_toClient]
    exact hnoted

theorem delivered_closedOut (line : Option ConnectionId) : delivered (closedOut line) = [] := by
  cases line <;> rfl

/-- What ends a client by itself leaves the line it had. Where there is neither a connection nor an
attempt there is none. -/
theorem lineLeft_of_isEndedBy (htidy : r.Tidy) (hs : r.reached? m = some s)
    (hends : r.machine.isEndedBy s = true) : r.lineLeft m = r.keeper.connection := by
  obtain ⟨p, hp⟩ := htidy.sound
  unfold lineLeft
  cases hhangs : r.hangsUp m with
  | true => rfl
  | false =>
      have hnone : r.machine.session.connection = .disconnected := by
        simpa [hangsUp, hs, hends] using hhangs
      have hp' : p ≠ .connected := by
        rintro rfl
        cases hp.session.symm.trans hnone
      exact (hp.connection_eq_none hp').symm

theorem lineLeft_of_not_isEndedBy (hs : r.reached? m = some s)
    (hstays : r.machine.isEndedBy s = false) : r.lineLeft m = none := by
  simp [lineLeft, hangsUp, hs, hstays]

/-- The farewell is said only by a client that leaves. -/
theorem isEndedBy_of_farewell (htidy : r.Tidy) (hs : r.reached? m = some s)
    (hmem : .leave ∈ delivered (r.dealings m)) : r.machine.isEndedBy s = true := by
  obtain ⟨e, he, hsent⟩ := List.mem_filterMap.mp hmem
  obtain ⟨s', hs', hdoing⟩ := doing_of_mem_dealings he
  obtain rfl := Option.some.inj (hs.symm.trans hs')
  have hsaying := hdoing.utters e he _ (Effect.message?_of_sent? hsent)
  rcases hsaying.leaving htidy.chats.ne_leave with rfl | rfl <;> rfl

theorem meet_ends (h : r.Presentable config) (hgoing : r.isFinished = false)
    (hdone : (r.meet m).isFinished = true) : ∃ es, Ends r m es := by
  have htidy := h.tidy hgoing
  obtain ⟨p, hp⟩ := htidy.sound
  have hidle : (r.arrive m).keeper.IsIdle := hp.isIdle
  rcases r.meet_reached m with ⟨_, hsame, _⟩ | ⟨s, r₁, hs, hhandle, hclosing⟩
  · rw [hsame] at hdone
    cases hgoing.symm.trans hdone
  · have hmeet : r.meet m = r₁.tearDown := hclosing.eq_tearDown hdone
    have hdeals {es} (hbefore : Deals (r.arrive m) r₁ es)
        (hline : r₁.keeper.connection = r.lineLeft m) :
        Deals r (r.meet m) (es ++ closedOut (r.lineLeft m)) := by
      rw [hmeet, ← hline]
      exact ((r.arrive_deals m).after hbefore).trans r₁.tearDown_deals
    cases hends : r.machine.isEndedBy s with
    | true =>
        obtain ⟨es, hhung⟩ := hhandle.hungUp hgoing hidle hends
        have hleft : r.lineLeft m = r.keeper.connection := lineLeft_of_isEndedBy htidy hs hends
        have hline : r₁.keeper.connection = r.lineLeft m := hhung.held.trans hleft.symm
        exact ⟨es, {
          line := hhung.line.symm.trans hline
          unclosed := hhung.unclosed
          deals := hdeals hhung.deals hline
          released := hmeet ▸ tearDown_released hhung.idle hhung.noted
          farewell := hleft ▸ hhung.farewell }⟩
    | false =>
        obtain ⟨es, htracks⟩ := hhandle.tracked hgoing hidle
        have hgiven := hhandle.givenUp (Machine.hello_fits h.entry) hgoing hends
          (hclosing.isFinished_eq.symm.trans hdone)
        have hline : r₁.keeper.connection = r.lineLeft m :=
          hgiven.line.trans (lineLeft_of_not_isEndedBy hs hends).symm
        refine ⟨es, {
          line := htracks.line.symm.trans hline
          unclosed := htracks.unclosed
          deals := hdeals htracks.deals hline
          released := hmeet ▸ tearDown_released (fun _ => hgiven.silent) hgiven.noted
          farewell := fun hmem => ?_ }⟩
        -- a farewell would mean that the client left
        have hsaid : .leave ∈ delivered (r.dealings m) := by
          rw [(hdeals htracks.deals hline).dealings_eq, delivered_append]
          exact List.mem_append_left _ hmem
        cases hends.symm.trans (isEndedBy_of_farewell htidy hs hsaid)

theorem meet_tracked (htidy : r.isFinished = false → r.Tidy)
    (hgoing : (r.meet m).isFinished = false) : Tracked r (r.meet m) := by
  rcases r.meet_reached m with ⟨_, hsame, hdeals⟩ | ⟨s, r₁, hs, hhandle, hclosing⟩
  · exact hdeals.tracked (by rw [hsame])
  · have harrive : Tracked r (r.arrive m) := (r.arrive_deals m).tracked rfl
    have hbefore := (isEnabled_of_reached? hs).1
    obtain ⟨p, hp⟩ := (htidy hbefore).sound
    rw [hclosing.eq_of_going hgoing]
    exact harrive.trans (hhandle.tracked hbefore hp.isIdle)

/-- As long as a client goes on, what it has dealt tells the line, and it has closed none. -/
theorem play_line (hgoing : (play config ms).isFinished = false) :
    (play config ms).keeper.connection = lineAfter none (play config ms).dealt ∧
      ∀ id, .closed id ∉ (play config ms).dealt := by
  let Holds (r : Run) : Prop := r.Tidy ∧ Tracked { toClient := .new config } r
  have hall : Holds ((start config).follow ms) := by
    refine follow_induction (P := Holds) (fun r m hmeet h => ?_) hgoing
      ⟨start_tidy config, (connect_tracks _).tracked⟩
    exact ⟨h.1.meet hmeet, h.2.trans (meet_tracked (fun _ => h.1) hmeet)⟩
  obtain ⟨_, es, htracks⟩ := hall
  have hdealt : (play config ms).dealt = es := htracks.deals.dealt_eq
  rw [hdealt]
  exact ⟨htracks.line, htracks.unclosed⟩

/-- A client that goes on has not said farewell. -/
theorem unsaid_of_going (h : r.isFinished = false → r.Tidy)
    (hgoing : (r.follow ms).isFinished = false) : .leave ∉ delivered (r.dealingsOver ms) := by
  induction ms generalizing r with
  | nil => simp [dealingsOver, delivered]
  | cons m ms ih =>
      rw [dealingsOver, delivered_append]
      intro hmem
      rcases List.mem_append.mp hmem with hnow | hlater
      · cases (meet_leave h hnow).2.symm.trans (isFinished_of_follow hgoing)
      · exact ih (meet_tidy h m) hgoing hlater

end Moments

/-- Every life that ends does so at one moment, and what is left of it then is left for good: no
attempt, no connection, no deadline, nothing that waits to be sent, and a session that knows it is
disconnected. If the client hung up, the connection it had is closed, and otherwise none is left.
It is closed once, with nothing dealt after that, and right after the farewell if one was said. -/
theorem released_at_the_end (config : ClientConfig) (ms : List Moment)
    (hdone : (play config ms).isFinished = true) :
    ∃ before m after es, ms = before ++ m :: after ∧
      let r := play config before
      let line := r.lineLeft m
      r.isFinished = false ∧ (r.meet m).Released ∧
        (play config ms).toClient = (r.meet m).toClient ∧
        (play config ms).dealt = r.dealt ++ es ++ closedOut line ∧
        lineAfter none (r.dealt ++ es) = line ∧ (∀ id, .closed id ∉ r.dealt ++ es) ∧
        (.leave ∈ (play config ms).said → ∃ id, line = some id ∧ es = [.sentOn id .leave]) := by
  have hstart : (start config).isFinished = false := by
    rw [start, Client.isFinished, connect_toClient]
    rfl
  obtain ⟨before, m, after, rfl, hgoing, hend⟩ := exists_end hstart hdone
  rw [← play_eq] at hgoing hend
  have hr := play_presentable config before
  obtain ⟨es, hends⟩ := meet_ends hr hgoing hend
  have hplay : play config (before ++ m :: after) = ((play config before).meet m).follow after :=
    play_append config before (m :: after)
  obtain ⟨hsame, hquiet⟩ := follow_of_isFinished hend after
  have hdeals := hends.deals.before hquiet
  obtain ⟨hline, hunclosed⟩ := play_line hgoing
  refine ⟨before, m, after, es, rfl, hgoing, hends.released, ?_, ?_, ?_, ?_, ?_⟩
  · rw [hplay, hsame]
  · rw [hplay, hdeals.dealt_eq, ← List.append_assoc]
  · rw [lineAfter_append, ← hline]
    exact hends.line
  · intro id hmem
    exact (List.mem_append.mp hmem).elim (hunclosed id) (hends.unclosed id)
  · rw [hplay, hdeals.said_eq, delivered_append, delivered_closedOut, List.append_nil, play_said]
    intro hmem
    rcases List.mem_append.mp hmem with hearlier | hnow
    · exact absurd hearlier (unsaid_of_going (start_presentable config).tidy hgoing)
    · exact hends.farewell hnow

/-- A client that leaves while a dragged tile waits for the connection to be written out. -/
theorem released_at_the_end_mid_flush :
    let life := play {} [{ stimulus := .connected, uplink := { buffered := 1 } },
      { stimulus := .requested (.moveTile 3 1 2), uplink := { buffered := 1 } },
      { stimulus := .requested .leave, uplink := { buffered := 1 } }]
    life.isFinished = true ∧ life.Released ∧
      life.dealt = [.attempted, .opened ⟨1⟩, .sentOn ⟨1⟩ (.newPlayer "default" ""),
        .sentOn ⟨1⟩ .leave, .closed ⟨1⟩, .dropped ⟨1⟩] := by
  intro life
  have hdone : life.isFinished = true := by decide +kernel
  obtain ⟨before, m, after, es, _, _, hreleased, hsame, _⟩ := released_at_the_end {} _ hdone
  refine ⟨hdone, ?_, by decide +kernel⟩
  rw [hsame]
  exact hreleased

end Run

end TileRoom
