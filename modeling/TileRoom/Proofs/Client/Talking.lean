import TileRoom.Proofs.Client.Account
import TileRoom.Proofs.Client.Looking

/-!
# Talking

Most reactions do no more than talk: messages are handed to the connection at hand, one of them may
fail and cost the connection, and what waits to be sent is packed anew. `Talks P r r'` says that
`r'` came from `r` in that way and that all messages which went out are of `P`. It is made of five
small steps, so what such a stretch keeps is shown by induction over these, and not once for each
way in which sending can end.

`Handling.reacting` says that every reaction is talk, once the client has taken note of the stimulus
(`Run.noting`), or one of a few that are more.
-/

namespace TileRoom

/-- Whether an effect is a note of what did not go out or of what was answered. -/
def Effect.isNote : Effect → Bool
  | .unsent .. | .answered _ => true
  | _ => false

/-- An effect by which nothing goes out and no connection is opened. -/
def Effect.isIdle : Effect → Bool
  | .opened _ | .sent .. => false
  | _ => true

/-- The news about the board that an effect tells. -/
def Effect.boardNews? : Effect → Option BoardEvent
  | .reported (.board e) => some e
  | _ => none

/-- The messages that can go out over a stimulus which is no new connection. Of typing is told only
what the user says of it. -/
def Stimulus.Permits (s : Stimulus) (m : ClientMessage) : Prop :=
  m.IsTyping → s.typing?.isSome = true

/-- The dealings of a note are idle. -/
theorem Effect.isIdle_of_isNote {e : Effect} (he : e.isNote = true) :
    ∀ e' ∈ (if e.isDealing then [e] else []), e'.isIdle = true := by
  intro e' hmem
  split at hmem
  · rw [List.mem_singleton.mp hmem]
    cases e <;> first | rfl | cases he
  · cases hmem

theorem ClientMessage.IsTyping.encodes {m : ClientMessage} (h : m.IsTyping) : m.Encodes := by
  have hfits : m.Fits := by
    rcases h with rfl | rfl
    · trivial
    · trivial
  exact hfits.encodes

theorem Typing.length_sync_le (t : Typing) : t.sync.1.toList.length ≤ 1 := by
  unfold Typing.sync
  split
  · exact Nat.zero_le 1
  · exact Nat.le_refl 1

namespace Run

/-- `r'` came from `r` by messages of `P` on the connection at hand, and by what came of them. -/
inductive Talks (P : ClientMessage → Prop) (r : Run) : Run → Prop
  | silent : Talks P r r
  | said {r' id m} (h : Talks P r r') (hid : r'.keeper.connection = some id) (hm : P m) :
      Talks P r (r'.sent id m)
  | noted {r' e} (h : Talks P r r') (he : e.isNote = true) : Talks P r (r'.log e)
  | lost {r'} (h : Talks P r r') (before : SessionState) : Talks P r (r'.connectionLost before)
  | putOff {r'} (h : Talks P r r') : Talks P r r'.armFlushRetry
  | packed {r'} (h : Talks P r r') (outbox : Outbox) : Talks P r { r' with outbox }

section Sending

variable {P : ClientMessage → Prop} {r r' r₁ r₂ r₃ : Run} {id : ConnectionId} {ok : Bool}
  {m : ClientMessage} {ms : List ClientMessage}

theorem Talks.trans (h : Talks P r₁ r₂) (h' : Talks P r₂ r₃) : Talks P r₁ r₃ := by
  induction h' with
  | silent => exact h
  | said _ hid hm ih => exact ih.said hid hm
  | noted _ he ih => exact ih.noted he
  | lost _ before ih => exact ih.lost before
  | putOff _ ih => exact ih.putOff
  | packed _ outbox ih => exact ih.packed outbox

theorem Talks.saidAll (h : Talks P r r') (hid : r'.keeper.connection = some id)
    (hms : ∀ m ∈ ms, P m) : Talks P r (r'.sentAll id ms) := by
  induction ms generalizing r' with
  | nil => exact h
  | cons m ms ih =>
      -- a message that goes out leaves the connection in place for the next one
      refine ih (h.said hid (hms m List.mem_cons_self)) hid ?_
      exact fun m' hm' => hms m' (List.mem_cons_of_mem _ hm')

theorem Sending.talks (h : Sending r m (ok, r')) (hm : P m) : Talks P r r' := by
  cases h with
  | out hid => exact Talks.silent.said hid hm
  | unconnected _ => exact Talks.silent.noted rfl
  | unwritable _ => exact Talks.silent.noted rfl
  | lost _ => exact (Talks.silent.noted rfl).lost _

theorem Bursting.talks (h : Bursting r id ms (ok, r')) (hid : r.keeper.connection = some id)
    (hms : ∀ m ∈ ms, P m) : Talks P r r' := by
  have hbefore {before rest : List ClientMessage} (heq : ms = before ++ rest) :
      Talks P r (r.sentAll id before) :=
    Talks.silent.saidAll hid fun m hm => hms m (heq ▸ List.mem_append_left rest hm)
  cases h with
  | out => exact Talks.silent.saidAll hid hms
  | kept before m rest e heq _ => exact (hbefore heq).noted rfl
  | lost before m rest e heq => exact ((hbefore heq).noted rfl).lost _

/-- If one message is all there is to send and it fails, nothing has gone out. -/
theorem Bursting.silent (h : Bursting r id ms (false, r')) (hms : ms.length ≤ 1) :
    Talks (fun _ => False) r r' := by
  have hfirst {before rest : List ClientMessage} {m : ClientMessage}
      (heq : ms = before ++ m :: rest) : before = [] := by
    rw [heq, List.length_append, List.length_cons] at hms
    exact List.length_eq_zero_iff.mp (by omega)
  cases h with
  | kept before m rest e heq _ =>
      obtain rfl := hfirst heq
      exact Talks.silent.noted rfl
  | lost before m rest e heq =>
      obtain rfl := hfirst heq
      exact (Talks.silent.noted rfl).lost _

theorem Flushing.talks (h : Flushing r r') (hmoves : ∀ m ∈ r.outbox.moves, P m) :
    Talks P r r' := by
  cases h with
  | unconnected _ => exact .silent
  | idle _ => exact .silent
  | deferred _ _ _ => exact Talks.silent.putOff
  | burst hid _ _ hburst =>
      exact (Talks.silent.packed { r.outbox with dirty := ∅ }).trans (hburst.talks hid hmoves)

theorem Asking.talks {check : Except BoardError Unit} (h : Asking r m check r') (hm : P m) :
    Talks P r r' := by
  cases h with
  | denied e => exact Talks.silent.noted rfl
  | unconnected _ => exact (Talks.silent.noted rfl).noted rfl
  | unwritable e _ => exact (Talks.silent.noted rfl).noted rfl
  | lost e _ => exact ((Talks.silent.noted rfl).lost _).noted rfl
  | out hid => exact (Talks.silent.said hid hm).noted rfl

theorem told_talks (hid : r.keeper.connection = some id) :
    Talks ClientMessage.IsTyping { r with typing := r.typing.sync.2 } (r.told id).takeHeld := by
  have htold : Talks ClientMessage.IsTyping { r with typing := r.typing.sync.2 } (r.told id) :=
    Talks.silent.saidAll hid Typing.sync_isTyping
  exact htold.packed _

/-- Once the server knows whether the user is typing, the rest of catching up is talk of other
things. If it cannot be told, nothing goes out any more, and there is no connection left. -/
theorem Resuming.talks (h : Resuming r id r') (hid : r.keeper.connection = some id)
    (hheld : ∀ m ∈ r.outbox.held, P m) (hmoves : ∀ m ∈ r.outbox.moves, P m) :
    (r'.keeper.connection = none ∧
        Talks (fun _ => False) { r with typing := r.typing.sync.2 } r') ∨
      Talks P (r.told id).takeHeld r' := by
  have hline : (r.told id).takeHeld.keeper.connection = some id := (told_connection r id).trans hid
  cases h with
  | untold hburst =>
      refine .inl ⟨hburst.gone fun m hm => ?_, hburst.silent r.typing.length_sync_le⟩
      exact (Typing.sync_isTyping m hm).encodes
  | unreplayed hburst => exact .inr (hburst.talks hline hheld)
  | flushed hflush =>
      refine .inr ((Talks.silent.saidAll hline hheld).trans (hflush.talks ?_))
      rw [sentAll_toClient]
      show ∀ m ∈ (r.told id).outbox.moves, P m
      rw [told_outbox]
      exact hmoves

/-- A new connection comes to nothing, or the hello and whether the user is typing go out on it and
talk of other things follows. -/
theorem Opening.talks (h : Opening r r') (hheld : ∀ m ∈ r.outbox.held, P m)
    (hmoves : ∀ m ∈ r.outbox.moves, P m) :
    (r'.isFinished = true ∨ r'.keeper.connection = none) ∨ Talks P r.resumed r' := by
  cases h with
  | rejected e _ =>
      have hmachine : r.attached.machine = r.machine.connected := by rw [attached_toClient]
      rw [← hmachine]
      exact .inl (.inl (rejected_isFinished (r.attached.log _) e _))
  | lost e => exact .inl (.inr (connectionLost_gone _ _))
  | resumed hresume =>
      have hgreeted : (r.attached.sent r.nextId r.machine.hello).outbox = r.outbox := by
        rw [sent_toClient, attached_toClient]
      have htalks := hresume.talks (P := P) (by simp [Keeper.attach]) (by rwa [hgreeted])
        (by rwa [hgreeted])
      exact htalks.imp (fun h => .inr h.1) id

end Sending

/-! ## What talk leaves alone -/

/-- What a run has told of the board, and when. -/
def boardNews (r : Run) : List (Instant × BoardEvent) :=
  r.trace.filterMap fun x => x.2.boardNews?.map (x.1, ·)

/-- Between `r` and `r'` nothing was done about the board and the shout on it, and the keeper kept
its interval. -/
structure Unmoved (r r' : Run) : Prop where
  board : r'.board = r.board
  shoutClear : r'.shoutClear = r.shoutClear
  interval : r'.keeper.interval = r.keeper.interval
  boardNews : r'.boardNews = r.boardNews

section Board

variable {P : ClientMessage → Prop} {r r' r₁ r₂ r₃ : Run} {id : ConnectionId} {ok : Bool}
  {m : ClientMessage} {ms : List ClientMessage}

theorem Unmoved.refl (r : Run) : Unmoved r r :=
  ⟨rfl, rfl, rfl, rfl⟩

theorem Unmoved.trans (h : Unmoved r₁ r₂) (h' : Unmoved r₂ r₃) : Unmoved r₁ r₃ where
  board := h'.board.trans h.board
  shoutClear := h'.shoutClear.trans h.shoutClear
  interval := h'.interval.trans h.interval
  boardNews := h'.boardNews.trans h.boardNews

theorem boardNews_of_trace_eq (h : r'.trace = r.trace) : r'.boardNews = r.boardNews := by
  rw [Run.boardNews, h]
  rfl

theorem log_boardNews (r : Run) {e : Effect} (he : e.boardNews? = none) :
    (r.log e).boardNews = r.boardNews := by
  simp [Run.boardNews, log, he]

theorem log_unmoved (r : Run) {e : Effect} (he : e.boardNews? = none) : Unmoved r (r.log e) :=
  ⟨rfl, rfl, rfl, r.log_boardNews he⟩

theorem reportConnection_unmoved (r : Run) : Unmoved r r.reportConnection :=
  r.log_unmoved rfl

theorem reportState_unmoved (r : Run) (before : SessionState) :
    Unmoved r (r.reportState before) := by
  unfold reportState
  split
  · exact .refl r
  · have hstate : Unmoved r (r.report (.stateChanged r.machine.state)) := r.log_unmoved rfl
    dsimp only
    split
    · exact hstate.trans (log_unmoved _ rfl)
    · exact hstate

theorem release_unmoved (r : Run) : Unmoved r r.release := by
  have hreleased : Unmoved r { r with keeper := r.keeper.release } := ⟨rfl, rfl, rfl, rfl⟩
  unfold release
  cases r.keeper.connection with
  | none => exact hreleased
  | some id => exact hreleased.trans (log_unmoved _ rfl)

theorem connectionLost_unmoved (r : Run) (before : SessionState) :
    Unmoved r (r.connectionLost before) := by
  unfold connectionLost
  dsimp only
  -- whether it tries again or gives up, the board is not looked at
  split <;> refine .trans (.trans ?_ (reportConnection_unmoved _)) (reportState_unmoved _ _)
  · refine .trans ?_ (log_unmoved _ rfl)
    exact r.release_unmoved.trans ⟨rfl, rfl, rfl, rfl⟩
  · exact r.release_unmoved.trans ⟨rfl, rfl, rfl, rfl⟩

theorem connect_unmoved (r : Run) : Unmoved r r.connect := by
  have hconnecting : Unmoved r { r with machine := r.machine.connecting } := ⟨rfl, rfl, rfl, rfl⟩
  have hreleased := (hconnecting.trans (reportConnection_unmoved _)).trans (release_unmoved _)
  refine .trans ?_ (log_unmoved _ rfl)
  exact hreleased.trans ⟨rfl, rfl, rfl, rfl⟩

theorem armFlushRetry_unmoved (r : Run) : Unmoved r r.armFlushRetry := by
  unfold armFlushRetry
  split
  · exact .refl r
  · refine .trans ?_ (log_unmoved _ rfl)
    exact ⟨rfl, rfl, rfl, rfl⟩

theorem sent_unmoved (r : Run) (id : ConnectionId) (m : ClientMessage) :
    Unmoved r (r.sent id m) := by
  refine .trans (.trans ?_ (log_unmoved _ rfl)) (log_unmoved _ rfl)
  exact ⟨rfl, rfl, rfl, rfl⟩

theorem Talks.unmoved (h : Talks P r r') : Unmoved r r' := by
  induction h with
  | silent => exact .refl r
  | said _ _ _ ih => exact ih.trans (sent_unmoved _ _ _)
  | @noted _ e _ he ih =>
      refine ih.trans (log_unmoved _ ?_)
      cases e <;> first | rfl | cases he
  | lost _ before ih => exact ih.trans (connectionLost_unmoved _ before)
  | putOff _ ih => exact ih.trans (armFlushRetry_unmoved _)
  | packed _ outbox ih => exact ih.trans ⟨rfl, rfl, rfl, rfl⟩

theorem attached_unmoved (r : Run) : Unmoved r r.attached := by
  have hnumbered : Unmoved r { r.release with opened := r.nextId.value } :=
    r.release_unmoved.trans ⟨rfl, rfl, rfl, rfl⟩
  have hopened := hnumbered.trans (log_unmoved _ (e := .opened r.nextId) rfl)
  unfold attached
  refine .trans ?_ (reportConnection_unmoved _)
  exact hopened.trans ⟨rfl, rfl, rfl, rfl⟩

theorem Resuming.unmoved (h : Resuming r id r') (hid : r.keeper.connection = some id) :
    Unmoved r r' := by
  have hsynced : Unmoved r { r with typing := r.typing.sync.2 } := ⟨rfl, rfl, rfl, rfl⟩
  rcases h.talks (P := fun _ => True) hid (by simp) (by simp) with ⟨_, htalks⟩ | htalks
  · exact hsynced.trans htalks.unmoved
  · exact (hsynced.trans (told_talks hid).unmoved).trans htalks.unmoved

theorem Opening.unmoved (h : Opening r r') : Unmoved r r' := by
  refine r.attached_unmoved.trans ?_
  cases h with
  | rejected e _ =>
      refine .trans ?_ (reportState_unmoved _ _)
      refine (r.attached.log_unmoved (e := .unsent r.machine.hello (.wire e)) rfl).trans ?_
      exact ⟨rfl, rfl, rfl, rfl⟩
  | lost e => exact (log_unmoved _ rfl).trans (connectionLost_unmoved _ _)
  | resumed hresume =>
      exact (sent_unmoved _ _ _).trans (hresume.unmoved (by simp [Keeper.attach]))

theorem Leaving.unmoved (h : Leaving r r') : Unmoved r r' := by
  have hleft : Unmoved r r.left := ⟨rfl, rfl, rfl, rfl⟩
  cases h with
  | silent _ => exact hleft.trans (reportState_unmoved _ _)
  | unsaid _ e _ =>
      exact (hleft.trans (log_unmoved _ rfl)).trans (reportState_unmoved _ _)
  | said _ _ => exact (hleft.trans (sent_unmoved _ _ _)).trans (reportState_unmoved _ _)

end Board

/-! ## Stimuli -/

/-- A client that has taken note of a stimulus and not talked about it yet. -/
def noting (r : Run) : Stimulus → Run
  | .connected | .connectFailed => { r with attempting := false }
  | .requested (.setTyping value) =>
    { r with typing := (r.typing.set value r.keeper.isConnected).2 }
  | .due .keepAlive => { r with keeper := r.keeper.heard }
  | .due .flushRetry => { r with flushRetry := r.flushRetry.cancel }
  | _ => r

/-- What a reaction comes to. -/
inductive Reacting (r : Run) (s : Stimulus) (r' : Run) : Prop
  | talked (hs : s ≠ .connected) (h : Talks s.Permits (r.noting s) r')
  | opened (hs : s = .connected) (h : Opening (r.noting s) r')
  /-- A message of the server gets as far as the board. -/
  | forwarded {frame m machine} (hs : s = .received frame)
      (hdecode : Wire.decode ServerMessage frame = .ok m)
      (hhandle : r.machine.handle m = (.forward, machine))
      (h : r' = ({ r with machine }.applyMessage m).reportState r.machine.state)
  | reconnecting (hs : s = .due .reconnect)
      (h : r' = { r with reconnect := r.reconnect.cancel }.connect)
  | quietened (hs : s = .due .shoutClear)
      (h : r' = { r with shoutClear := r.shoutClear.cancel, board := r.board.clearShout.1
        }.reportBoard r.board.clearShout.2)
  /-- The client leaves, or a message of the server is fatal. -/
  | ended (hs : r.machine.isEndedBy s = true) (h : r'.isFinished = true)
      (hspoken : Utters r.keeper.connection (· = .leave) r r') (hunmoved : Unmoved r r')

section Stimuli

variable {r r' : Run} {s : Stimulus}

theorem Stimulus.permits_of_move {m : ClientMessage} (h : m.isMove = true) : s.Permits m := by
  rintro (rfl | rfl)
  · cases h
  · cases h

theorem noting_trace (r : Run) (s : Stimulus) : (r.noting s).trace = r.trace := by
  unfold noting
  split <;> rfl

theorem noting_unmoved (r : Run) (s : Stimulus) : Unmoved r (r.noting s) := by
  refine ⟨?_, ?_, ?_, boardNews_of_trace_eq (r.noting_trace s)⟩ <;> unfold noting <;> split <;> rfl

/-- All that is noted of the connection is that its deadline has been heard. -/
theorem noting_keeper (r : Run) (hs : s ≠ .due .keepAlive) : (r.noting s).keeper = r.keeper := by
  unfold noting
  split <;> first | rfl | exact absurd rfl hs

theorem Handling.reacting (h : Handling r s r') : Reacting r s r' := by
  have hother {m : ClientMessage} (h : ¬ m.IsTyping) : s.Permits m :=
    fun htyping => absurd htyping h
  cases h with
  | opened _ ho => exact .opened rfl ho
  | unopened _ => exact .talked (by simp) (Talks.silent.lost _)
  | forwarded hdecode hhandle => exact .forwarded rfl hdecode hhandle rfl
  | ignored _ _ => exact .talked (by simp) .silent
  | stopped reason hdecode hhandle =>
      have hfailed : Deals r { r with machine := (r.machine.fail reason).2 } [] :=
        .of_trace_eq rfl
      refine .ended ?_ ?_ (hfailed.before (reportState_deals _ _)).utters ?_
      · rw [Machine.isEndedBy_of_decode hdecode, hhandle]
        rfl
      · rw [Client.isFinished, reportState_toClient]
        rfl
      · refine .trans ?_ (reportState_unmoved _ _)
        exact ⟨rfl, rfl, rfl, rfl⟩
  | cutOff _ hinbound _ =>
      refine .talked (by rintro rfl; cases hinbound) ?_
      have hsame : r.noting s = r := by cases s <;> first | rfl | cases hinbound
      rw [hsame]
      exact Talks.silent.lost _
  | chat _ hsend =>
      refine .talked (by simp) ((Talks.silent.noted rfl).trans (hsend.talks (hother ?_)))
      simp [ClientMessage.IsTyping]
  | held _ => exact .talked (by simp) ((Talks.silent.noted rfl).packed _)
  | @typing value id _ _ hid hburst =>
      have hnoting : r.noting (.requested (.setTyping value)) =
          { r with typing := (r.typing.set value true).2 } := by
        rw [noting, isConnected_of_connection hid]
      refine .talked (by simp) ?_
      rw [hnoting]
      have hnoted : Talks (Stimulus.requested (.setTyping value)).Permits
          { r with typing := (r.typing.set value true).2 }
          { r.answer .done with typing := (r.typing.set value true).2 } :=
        Talks.silent.noted (e := .answered .done) rfl
      exact hnoted.trans (hburst.talks hid fun _ _ _ => rfl)
  | @untold value hid =>
      have hnoting : r.noting (.requested (.setTyping value)) =
          { r with typing := (r.typing.set value false).2 } := by
        rw [noting, isConnected_eq_false hid]
      refine .talked (by simp) ?_
      rw [hnoting]
      exact Talks.silent.noted (e := .answered .done) rfl
  | moved hflush =>
      refine .talked (by simp) (((Talks.silent.noted rfl).packed _).trans (hflush.talks ?_))
      exact fun m hm => Stimulus.permits_of_move (Outbox.moves_isMove m hm)
  | turn hask => exact .talked (by simp) (hask.talks (hother (by simp [ClientMessage.IsTyping])))
  | shout hask => exact .talked (by simp) (hask.talks (hother (by simp [ClientMessage.IsTyping])))
  | capacity hask =>
      exact .talked (by simp) (hask.talks (hother (by simp [ClientMessage.IsTyping])))
  | snapshot => exact .talked (by simp) (Talks.silent.noted rfl)
  | left hleave =>
      have hspoken := hleave.utters (P := (· = .leave)) rfl
      exact .ended rfl hleave.isFinished (hspoken.trans (answer_deals _ _).utters)
        (hleave.unmoved.trans (log_unmoved _ rfl))
  | abandoned hleave => exact .ended rfl hleave.isFinished (hleave.utters rfl) hleave.unmoved
  | keptAlive hsend =>
      exact .talked (by simp) (hsend.talks (hother (by simp [ClientMessage.IsTyping])))
  | reconnecting _ => exact .reconnecting rfl rfl
  | flushed hflush =>
      refine .talked (by simp) (hflush.talks ?_)
      exact fun m hm => Stimulus.permits_of_move (Outbox.moves_isMove m hm)
  | quietened => exact .quietened rfl rfl

end Stimuli

end Run

end TileRoom
