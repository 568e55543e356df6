import TileRoom.Proofs.Board.Latest
import TileRoom.Proofs.Client.Account

/-!
# Two records of a seat

The session and the board each take in what the server says, and each has its own idea of what to
pass over. Three things are recorded on both sides: the number of the player, the conversation, and
how many chats there were. `Machine.seat` is what the session makes of them and `shownSeat` what
the user has been shown. No episode tells them apart (`Account.seat_after`), so a seat is resumed
with the very number of chats that were shown.
-/

namespace TileRoom

/-- What is known of a seat on both sides. -/
structure Seat where
  player : Option UInt8
  /-- The number of chats, modulo the range. -/
  sequence : UInt16
  conversation : Option ConversationId

/-- What a message says of the seat. -/
def Seat.after (s : Seat) : ServerMessage → Seat
  | .playerId _ player => { s with player := some player }
  | .message .. => { s with sequence := s.sequence + 1 }
  | .conversationId id => { s with conversation := some id }
  | _ => s

/-! ## The session's record -/

namespace Machine

def seat (m : Machine) : Seat :=
  ⟨m.session.player, m.session.messageSequence, m.session.conversation⟩

/-- Whether an operation brings a message that the session lets through. -/
def lets (m : Machine) : Operation → Option ServerMessage
  | .handle msg => if (m.handle msg).1 = .forward then some msg else none
  | _ => none

theorem seat_identify (m : Machine) (person : PersonId) (player : UInt8) :
    (m.identify person player).2.seat =
      if (m.identify person player).1 = .forward then m.seat.after (.playerId person player)
      else m.seat := by
  unfold identify
  by_cases hstate : m.session.state = .connecting
  · rw [if_pos hstate]
    rfl
  · rw [if_neg hstate]
    rfl

/-- The session learns of the seat from what it lets through, and from nothing else. -/
theorem seat_handle (m : Machine) (msg : ServerMessage) :
    (m.handle msg).2.seat =
      if (m.handle msg).1 = .forward then m.seat.after msg else m.seat := by
  unfold handle
  cases hdone : m.isFinished with
  | true => rfl
  | false =>
      cases msg with
      | playerId person player => exact m.seat_identify person player
      | _ => rfl

theorem seat_connectionLost (m : Machine) : m.connectionLost.2.seat = m.seat := by
  cases hdone : m.isFinished with
  | true => rw [connectionLost_of_isFinished hdone]; rfl
  | false =>
      rcases Nat.lt_or_ge (m.session.attempts + 1) m.policy.maxAttempts.toNat with hleft | hlast
      · rw [connectionLost_of_lt hdone hleft]; rfl
      · rw [connectionLost_of_le hdone hlast]; rfl

theorem seat_operate (m : Machine) (op : Operation) :
    (m.operate op).seat = (m.lets op).elim m.seat m.seat.after := by
  cases op with
  | handle msg =>
      rw [operate, seat_handle, lets]
      split <;> rfl
  | connectionLost => exact m.seat_connectionLost
  | helloRejected e =>
      unfold operate helloRejected
      dsimp only
      split <;> rfl
  | leave =>
      unfold operate leave
      dsimp only
      split <;> rfl
  | _ => rfl

end Machine

/-! ## What the board shows -/

def BoardEvent.isChat : BoardEvent → Bool
  | chatMessage .. => true
  | _ => false

def ClientEvent.isChat : ClientEvent → Bool
  | board e => e.isChat
  | _ => false

/-- The conversation that an event tells. -/
def ClientEvent.conversation? : ClientEvent → Option ConversationId
  | conversation id => some id
  | _ => none

/-- Whether an event says nothing of a seat but what the board holds. -/
def ClientEvent.IsBeside (e : ClientEvent) : Prop :=
  e.isChat = false ∧ e.conversation? = none

namespace Board

/-- How many chats a call shows. -/
def Call.chats : Call → Nat
  | .apply (.message ..) => 1
  | _ => 0

theorem act_chats (b : Board) (call : Call) :
    (b.act call).2.countP BoardEvent.isChat = call.chats := by
  cases call with
  | clearShout => cases h : b.shouting <;> simp [act, h, Call.chats, BoardEvent.isChat]
  | apply m =>
      cases m with
      | tile num x y letter lastMover =>
          show (b.applyTile _).2.countP BoardEvent.isChat = 0
          unfold applyTile
          split <;> rfl
      | playerName num name =>
          show (b.applyName num name).2.countP BoardEvent.isChat = 0
          unfold applyName
          dsimp only
          split <;> rfl
      | playerFlags num flags =>
          show (b.applyFlags num flags).2.countP BoardEvent.isChat = 0
          unfold applyFlags presenceEvents
          dsimp only
          split
          · rfl
          · split
            · split <;> rfl
            · rfl
      | _ => rfl

/-- The news about the turn is no chat. -/
theorem take_chats (b : Board) (call : Call) :
    (b.take call).2.countP BoardEvent.isChat = call.chats := by
  rw [take_eq, withTurnChange]
  split
  · exact b.act_chats call
  · rw [List.countP_append, act_chats]
    rfl

theorem take_selfNum (b : Board) (call : Call) :
    (b.take call).1.selfNum = (call.word .selfNum).or b.selfNum := by
  rw [take_fst]
  exact congrArg selfNum (b.act_rest call)

end Board

/-- What the user has been shown of the seat, on the board and otherwise. -/
def shownSeat (b : Board) (told : List ClientEvent) : Seat :=
  ⟨b.selfNum, .ofNat (told.countP ClientEvent.isChat),
    (told.filterMap ClientEvent.conversation?).getLast?⟩

section Shown

variable {b : Board} {told es : List ClientEvent}

theorem countP_map_board (es : List BoardEvent) :
    (es.map ClientEvent.board).countP ClientEvent.isChat = es.countP BoardEvent.isChat := by
  rw [List.countP_map]
  rfl

theorem filterMap_map_board (es : List BoardEvent) :
    (es.map ClientEvent.board).filterMap ClientEvent.conversation? = [] := by
  simp [List.filterMap_map, Function.comp_def, ClientEvent.conversation?]

theorem countP_beside (h : ∀ e ∈ es, e.IsBeside) : es.countP ClientEvent.isChat = 0 := by
  rw [List.countP_eq_zero]
  intro e he
  rw [(h e he).1]
  decide

theorem shownSeat_append (b : Board) (told : List ClientEvent) (h : ∀ e ∈ es, e.IsBeside) :
    shownSeat b (told ++ es) = shownSeat b told := by
  have hchats := countP_beside h
  have hconversation : es.filterMap ClientEvent.conversation? = [] :=
    List.filterMap_eq_nil_iff.mpr fun e he => (h e he).2
  simp only [shownSeat, List.countP_append, List.filterMap_append, hchats, hconversation,
    Nat.add_zero, List.append_nil]

/-- A message shows of the seat what it says of it. -/
theorem shownSeat_apply (b : Board) (told : List ClientEvent) (msg : ServerMessage) :
    shownSeat (b.apply msg).1 (told ++ (msg.news ++ (b.apply msg).2.map .board)) =
      (shownSeat b told).after msg := by
  have hplayer := b.take_selfNum (.apply msg)
  have hchats := b.take_chats (.apply msg)
  simp only [Board.take] at hplayer hchats
  unfold shownSeat
  rw [List.countP_append, List.countP_append, countP_map_board, hchats, List.filterMap_append,
    List.filterMap_append, filterMap_map_board, hplayer]
  cases msg with
  | message player text =>
      simp only [ServerMessage.news, List.countP_nil, List.filterMap_nil, List.append_nil,
        Board.Call.chats, Nat.zero_add, UInt16.ofNat_add]
      rfl
  | conversationId id =>
      simp only [ServerMessage.news, List.filterMap_cons, ClientEvent.conversation?,
        List.filterMap_nil, List.append_nil, List.getLast?_concat]
      rfl
  | _ =>
      simp only [ServerMessage.news, List.filterMap_nil, List.append_nil]
      rfl

end Shown

/-! ## Episodes -/

section Episodes

variable {a : Account}

theorem Machine.Operation.connectionNews_beside (m : Machine) (op : Machine.Operation) :
    ∀ e ∈ op.connectionNews m, e.IsBeside := by
  intro e he
  rw [Machine.Operation.eq_of_mem_connectionNews he]
  exact ⟨rfl, rfl⟩

theorem Machine.stateNews_beside (m : Machine) (before : SessionState) :
    ∀ e ∈ m.stateNews before, e.IsBeside := by
  intro e he
  rcases Machine.eq_of_mem_stateNews he with rfl | ⟨reason, rfl⟩
  · exact ⟨rfl, rfl⟩
  · exact ⟨rfl, rfl⟩

/-- The board is shown what the session lets through, and nothing else. -/
theorem Machine.Operation.shownSeat_onBoard (op : Machine.Operation) (m : Machine) (b : Board)
    (told : List ClientEvent) :
    shownSeat (op.onBoard m b).1 (told ++ (op.onBoard m b).2) =
      (m.lets op).elim (shownSeat b told) (shownSeat b told).after := by
  have hsame : shownSeat b (told ++ []) = shownSeat b told := by rw [List.append_nil]
  cases op with
  | handle msg =>
      unfold onBoard lets
      dsimp only
      by_cases hforward : (m.handle msg).1 = .forward
      · rw [if_pos hforward, if_pos hforward]
        exact shownSeat_apply b told msg
      · rw [if_neg hforward, if_neg hforward]
        exact hsame
  | _ => exact hsame

def Account.shown (a : Account) : Seat :=
  shownSeat a.board a.told

/-- An episode says of the seat what it lets the session know. -/
theorem Account.shown_session (a : Account) (op : Machine.Operation) :
    (a.after (.session op)).shown = (a.machine.lets op).elim a.shown a.shown.after := by
  have hconnection := shownSeat_append a.board a.told
    (op.connectionNews_beside (a.machine.operate op))
  have honBoard := op.shownSeat_onBoard a.machine a.board
    (a.told ++ op.connectionNews (a.machine.operate op))
  rw [hconnection] at honBoard
  unfold Account.shown Account.after
  dsimp only
  rw [shownSeat_append _ _ (Machine.stateNews_beside _ _), ← List.append_assoc]
  exact honBoard

/-- The end of a shout is nothing about the seat. -/
theorem Account.shown_shoutOver (a : Account) : (a.after .shoutOver).shown = a.shown := by
  have hplayer := a.board.take_selfNum .clearShout
  have hchats := a.board.take_chats .clearShout
  simp only [Board.take] at hplayer hchats
  unfold Account.shown Account.after shownSeat
  dsimp only
  rw [List.countP_append, countP_map_board, hchats, List.filterMap_append, filterMap_map_board,
    hplayer, List.append_nil]
  rfl

def Account.chats (a : Account) : Nat :=
  a.told.countP ClientEvent.isChat

/-- Chats are told when the server has sent a message. -/
theorem Account.chats_session {op : Machine.Operation} (h : ∀ msg, op ≠ .handle msg) :
    (a.after (.session op)).chats = a.chats := by
  have honBoard : op.onBoard a.machine a.board = (a.board, []) := by
    cases op with
    | handle msg => exact absurd rfl (h msg)
    | _ => rfl
  unfold Account.chats Account.after
  dsimp only
  rw [honBoard, List.append_nil, List.countP_append, List.countP_append,
    countP_beside (op.connectionNews_beside _), countP_beside (Machine.stateNews_beside _ _)]
  rfl

theorem Account.seat_after (h : a.machine.seat = a.shown) (e : Episode) :
    (a.after e).machine.seat = (a.after e).shown := by
  cases e with
  | session op =>
      rw [a.shown_session op, ← h]
      exact a.machine.seat_operate op
  | shoutOver =>
      rw [a.shown_shoutOver]
      exact h

end Episodes

/-! ## A whole life -/

namespace Run

theorem play_seat (config : ClientConfig) (ms : List Moment) :
    (play config ms).account.machine.seat = (play config ms).account.shown := by
  refine play_account_induction (P := fun a => a.machine.seat = a.shown) ?_ ?_ ms
  · rw [start_account]
    rfl
  · intro a e _ _ h
    exact Account.seat_after h e

/-! ## The hello of a seat that is resumed -/

section Resumption

variable {r : Run} {m : Moment} {ms : List Moment} {e : Effect} {t : Instant}
  {person : PersonId} {sequence : UInt16}

/-- A dealing in a trace was there before some moments, or one of them added it. -/
theorem follow_trace {x : Instant × Effect} {before after : List (Instant × Effect)}
    (h : (r.follow ms).trace = before ++ x :: after) :
    (∃ rest, r.trace = before ++ x :: rest) ∨
      ∃ ms₁ m ms₂ added rest, ms = ms₁ ++ m :: ms₂ ∧
        before = (r.follow ms₁).trace ++ added ∧
        ((r.follow ms₁).meet m).trace = (r.follow ms₁).trace ++ (added ++ x :: rest) := by
  induction ms generalizing r with
  | nil => exact .inl ⟨after, h⟩
  | cons m ms ih =>
      rcases ih h with ⟨rest, hmeet⟩ | ⟨ms₁, m', ms₂, added, rest, rfl, hbefore, hmeet⟩
      · obtain ⟨added, htrace, _⟩ := r.meet_deals m
        rw [htrace] at hmeet
        rcases List.append_eq_append_iff.mp hmeet with ⟨more, rfl, hadded⟩ | ⟨more, hr, hrest⟩
        · refine .inr ⟨[], m, ms, more, rest, rfl, rfl, ?_⟩
          rw [follow_nil, htrace, hadded]
        · cases more with
          | nil =>
              refine .inr ⟨[], m, ms, [], rest, rfl, ?_, ?_⟩
              · rw [follow_nil, hr, List.append_nil, List.append_nil]
              · rw [follow_nil, htrace]
                exact congrArg _ hrest.symm
          | cons y more =>
              obtain ⟨rfl, _⟩ := List.cons.inj hrest
              exact .inl ⟨more, hr⟩
      · exact .inr ⟨m :: ms₁, m', ms₂, added, rest, rfl, hbefore, hmeet⟩

/-- Only the hello resumes a seat, with the number of chats that the session has counted. -/
theorem saying_reconnect {c : Client} {s : Stimulus} {o : Outbox}
    (h : c.Saying s o (.reconnect person sequence))
    (hchats : ∀ msg ∈ c.outbox.held, msg.isChat = true) :
    s = .connected ∧ sequence = c.machine.session.messageSequence := by
  generalize hmsg : ClientMessage.reconnect person sequence = msg at h
  cases h with
  | hello hs =>
      refine ⟨hs, ?_⟩
      unfold Machine.hello at hmsg
      split at hmsg
      · exact (ClientMessage.reconnect.inj hmsg).2
      · cases hmsg
      · cases hmsg
  | held _ hheld _ =>
      rw [← hmsg] at hheld
      cases hchats _ hheld
  | typing htyping =>
      rw [← hmsg] at htyping
      rcases htyping with heq | heq <;> cases heq
  | _ => cases hmsg

/-- What comes of a new connection is told without a chat. -/
theorem chats_of_connected {p : Phase} (hs : r.reached? m = some .connected) (hr : r.Sound p) :
    (r.meet m).account.chats = r.account.chats := by
  obtain ⟨es, hplot, _, htold⟩ := meet_told hs hr
  rw [htold]
  cases hplot with
  | quiet _ => rfl
  | lost _ => exact Account.chats_session (by simp)
  | opened => exact Account.chats_session (by simp)
  | stillborn => exact (Account.chats_session (by simp)).trans (Account.chats_session (by simp))
  | rejected _ => exact (Account.chats_session (by simp)).trans (Account.chats_session (by simp))
  | left hs => rcases hs with heq | heq <;> cases heq

/-- A hello that resumes a seat says how many chats had been shown before it. -/
theorem reconnect_of_trace {config : ClientConfig} {before after : List (Instant × Effect)}
    (h : (play config ms).trace = before ++ (t, e) :: after)
    (he : e.message? = some (.reconnect person sequence)) :
    sequence = .ofNat ((eventsIn before).countP ClientEvent.isChat) := by
  have hdealing := Effect.isDealing_of_message? he
  rcases follow_trace h with ⟨rest, hstart⟩ | ⟨ms₁, m, ms₂, added, rest, _, hbefore, hmeet⟩
  · -- the first attempt is no message
    have hmem : (t, e) ∈ (start config).trace := by rw [hstart]; simp
    rcases (start_deals config).mem_trace hdealing hmem with hnone | hfirst
    · cases hnone
    · rw [List.mem_singleton.mp hfirst] at he
      cases he
  · have hmem : e ∈ ((start config).follow ms₁).dealings m := by
      rw [dealings, hmeet, List.drop_left]
      refine List.mem_filter.mpr ⟨?_, hdealing⟩
      simp
    obtain ⟨s, hs, hdoing⟩ := doing_of_mem_dealings hmem
    have htidy : (play config ms₁).Tidy := play_tidy (isEnabled_of_reached? hs).1
    obtain ⟨rfl, hsequence⟩ := saying_reconnect (hdoing.utters e hmem _ he) htidy.chats
    obtain ⟨p, hp⟩ := htidy.sound
    -- no chat was told at this moment, and so none of those before the hello
    have hsame : ((play config ms₁).meet m).account.chats = (play config ms₁).account.chats :=
      chats_of_connected hs hp
    have hchats : (eventsIn before).countP ClientEvent.isChat =
        (play config ms₁).events.countP ClientEvent.isChat := by
      have hevents : ((play config ms₁).meet m).events =
          (play config ms₁).events ++ (eventsIn added ++ eventsIn ((t, e) :: rest)) := by
        rw [events, play_eq, hmeet]
        simp only [eventsIn, List.filterMap_append, events]
      have hcount : ((play config ms₁).meet m).events.countP ClientEvent.isChat =
          (play config ms₁).events.countP ClientEvent.isChat := hsame
      rw [hevents, List.countP_append, List.countP_append] at hcount
      rw [hbefore, eventsIn, List.filterMap_append, List.countP_append]
      show (play config ms₁).events.countP _ + (eventsIn added).countP _ = _
      omega
    rw [hsequence, hchats]
    exact congrArg Seat.sequence (play_seat config ms₁)

end Resumption

/-- At any time of any life, also after its end, the session and the board know the same seat: the
player that the session takes itself for is the one that the board shows as its own, the session has
counted the chats that were shown, modulo 65536, and it knows of the conversation that was told
last. So a hello that resumes the seat, whether it goes out or not, says how many chats had been
shown before it, modulo 65536. -/
theorem session_and_board_agree (config : ClientConfig) (ms : List Moment) :
    (play config ms).machine.session.player = (play config ms).board.selfNum ∧
      (play config ms).machine.session.messageSequence.toNat =
        (play config ms).events.countP ClientEvent.isChat % 65536 ∧
      (play config ms).machine.session.conversation =
        ((play config ms).events.filterMap ClientEvent.conversation?).getLast? ∧
      ∀ before t e after person sequence, (play config ms).trace = before ++ (t, e) :: after →
        e.message? = some (.reconnect person sequence) →
        sequence.toNat = (eventsIn before).countP ClientEvent.isChat % 65536 := by
  have hseat := play_seat config ms
  refine ⟨congrArg Seat.player hseat, ?_, congrArg Seat.conversation hseat, ?_⟩
  · have hsequence := congrArg (fun s => s.sequence.toNat) hseat
    exact hsequence.trans UInt16.toNat_ofNat'
  · intro before t e after person sequence htrace he
    rw [reconnect_of_trace htrace he]
    exact UInt16.toNat_ofNat'

/-- A seat that is resumed after one chat. -/
theorem session_and_board_agree_resumed :
    let record := (play {} [{ stimulus := .connected },
      { stimulus := .received (Wire.layout (ServerMessage.playerId ⟨7⟩ 3)) },
      { stimulus := .received (Wire.layout (ServerMessage.message 2 "a")) },
      { stimulus := .streamEnded },
      { stimulus := .due .reconnect, wait := 2000000000 },
      { stimulus := .connected }]).trace
    let hello : ClientMessage := .reconnect ⟨7⟩ 1
    record[17]? = some (2000000000, .sent ⟨2⟩ hello (Wire.layout hello)) ∧
      (1 : UInt16).toNat = (eventsIn (record.take 17)).countP ClientEvent.isChat % 65536 := by
  intro record hello
  have hsent : record[17]? = some (2000000000, .sent ⟨2⟩ hello (Wire.layout hello)) := by
    decide +kernel
  have hsplit : record =
      record.take 17 ++ (2000000000, .sent ⟨2⟩ hello (Wire.layout hello)) :: record.drop 18 := by
    decide +kernel
  exact ⟨hsent, (session_and_board_agree _ _).2.2.2 _ _ _ _ _ _ hsplit rfl⟩

end Run

end TileRoom
