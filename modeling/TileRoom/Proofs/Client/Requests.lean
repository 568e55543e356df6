import Mathlib.Data.List.TakeWhile
import TileRoom.Proofs.Client.Account
import TileRoom.Proofs.Client.Reconnection
import TileRoom.Proofs.Wire.Size

/-!
# How requests are answered

To take a turn, to shout and to play with another number of tiles is asked of the server, and the
user is told how that went. `Client.verdict` is what the answer must be: the game forbids it, there
is no connection, the connection refuses the message, or it has gone out. `Serving` lists what the
client does in each of these cases, and `meet_serving` says that it does nothing else.
`requests_answered` puts together what this means for the user and for the server.

On a stage the clock ends. A request may set a deadline, for the next keep-alive or for the next
attempt to connect, and if the clock cannot show it the client breaks off before it has answered
(`ClientStage.step_request`).
-/

namespace TileRoom

/-! ## What is asked for -/

namespace Request

/-- The message to the server that a request is for, if its answer says whether that went out. -/
def message? : Request → Option ClientMessage
  | takeTurn => some .turn
  | shout => some .shout
  | setTileCapacity tiles => some (.setTileCapacity tiles)
  | _ => none

/-- Whether the state of the game and the range of capacities allow a request. -/
def IsAllowed (b : Board) : Request → Prop
  | takeTurn => b.canTakeTurn = true
  | shout => b.canShout = true
  | setTileCapacity tiles => 1 ≤ tiles.toNat ∧ tiles.toNat ≤ 122
  | _ => True

/-- What a request that is not allowed is refused with. -/
def denial? : Request → Option BoardError
  | takeTurn => some .turnNotAllowed
  | shout => some .shoutNotAllowed
  | setTileCapacity tiles => some (.invalidTileCapacity ⟨tiles, 122⟩)
  | _ => none

/-- Why a request is not allowed, if it is not. -/
def check (b : Board) : Request → Except BoardError Unit
  | takeTurn => b.checkTurn
  | shout => b.checkShout
  | setTileCapacity tiles => Board.checkTileCapacity tiles
  | _ => .ok ()

variable {q : Request} {msg : ClientMessage}

theorem check_eq_ok_iff (q : Request) (b : Board) : q.check b = .ok () ↔ q.IsAllowed b := by
  cases q with
  | takeTurn =>
      unfold check Board.checkTurn IsAllowed
      cases b.canTakeTurn <;> simp
  | shout =>
      unfold check Board.checkShout IsAllowed
      cases b.canShout <;> simp
  | setTileCapacity tiles =>
      show (if 1 ≤ tiles ∧ tiles ≤ Board.maxTiles then _ else _) = Except.ok () ↔
        1 ≤ tiles ∧ tiles ≤ Board.maxTiles
      split <;> simp_all
  | _ => simp [check, IsAllowed]

theorem denial?_of_check {b : Board} {e : BoardError} (h : q.check b = .error e) :
    q.denial? = some e := by
  have hdenied {p : Prop} [Decidable p] {denial : BoardError}
      (h : (if p then .ok () else .error denial) = Except.error e) : denial = e := by
    split at h
    · cases h
    · exact Except.error.inj h
  cases q with
  | takeTurn => exact congrArg some (hdenied h)
  | shout => exact congrArg some (hdenied h)
  | setTileCapacity tiles => exact congrArg some (hdenied h)
  | _ => cases h

theorem capacity_cases (tiles : UInt8) :
    (Board.checkTileCapacity tiles = .ok () ∧
      Request.admit (setTileCapacity tiles) = .ok (setTileCapacity tiles)) ∨
    ∃ e, Board.checkTileCapacity tiles = .error e ∧
      Request.admit (setTileCapacity tiles) = .error (.board e) := by
  unfold Request.admit
  cases hcheck : Board.checkTileCapacity tiles with
  | error e => exact .inr ⟨e, rfl, by simp only [hcheck]⟩
  | ok _ => exact .inl ⟨rfl, by simp only [hcheck]⟩

/-- A request for a message reaches the client as it is, unless it is refused before. -/
theorem admit_cases (hq : q.message? = some msg) (b : Board) :
    q.admit = .ok q ∨ ∃ e, q.check b = .error e ∧ q.admit = .error (.board e) := by
  cases q with
  | takeTurn => exact .inl rfl
  | shout => exact .inl rfl
  | setTileCapacity tiles => exact (capacity_cases tiles).imp And.right id
  | _ => cases hq

/-- What is admitted as a request for a message has been made as it is. -/
theorem eq_of_admitted {q₀ : Request} (hadmitted : q₀.admit = .ok q) (hq : q.message? = some msg) :
    q₀ = q := by
  cases q₀ with
  | sendMessage text =>
      -- a chat may be cut, and stays a chat
      unfold Request.admit at hadmitted
      cases hnul : Wire.hasNul text with
      | true => simp [hnul] at hadmitted
      | false =>
          simp only [hnul, Bool.false_eq_true, if_false] at hadmitted
          cases hadmitted
          cases hq
  | setTileCapacity tiles =>
      rcases capacity_cases tiles with ⟨_, hok⟩ | ⟨e, _, herror⟩
      · exact Except.ok.inj (hok.symm.trans hadmitted)
      · cases herror.symm.trans hadmitted
  | _ => exact Except.ok.inj hadmitted

/-- No message that can be asked for has a text. -/
theorem encodes_of_message? (hq : q.message? = some msg) : msg.Encodes := by
  cases q <;> first | (cases hq; exact ClientMessage.Fits.encodes trivial) | cases hq

theorem occasion_of_message? (hq : q.message? = some msg) :
    msg.occasion? = some (.requested q) := by
  cases q <;> cases hq <;> rfl

theorem ne_leave_of_message? (hq : q.message? = some msg) : msg ≠ .leave := by
  rintro rfl
  cases q <;> cases hq

end Request

/-- What a request is to be answered with, if a message that is sent ends with `outcome`. -/
def Client.verdict (c : Client) (q : Request) (outcome : Except LinkError Unit) : Answer :=
  match q.check c.board, c.keeper.connection, outcome with
  | .error e, _, _ => .refused (.board e)
  | .ok (), none, _ => .refused .notConnected
  | .ok (), some _, .error e => .refused (.link e)
  | .ok (), some _, .ok () => .done

section Verdict

variable {c : Client} {q : Request} {outcome : Except LinkError Unit}

theorem Client.verdict_forbidden_iff :
    (∃ e, c.verdict q outcome = .refused (.board e)) ↔ ¬ q.IsAllowed c.board := by
  rw [← Request.check_eq_ok_iff]
  unfold verdict
  cases q.check c.board with
  | error e => simp
  | ok _ => cases c.keeper.connection <;> cases outcome <;> simp

/-- What the game forbids is refused with what is wrong with it. -/
theorem Client.denial?_of_verdict {e : BoardError}
    (h : c.verdict q outcome = .refused (.board e)) : q.denial? = some e := by
  unfold verdict at h
  cases hcheck : q.check c.board with
  | error e' =>
      rw [hcheck] at h
      cases h
      exact Request.denial?_of_check hcheck
  | ok _ =>
      rw [hcheck] at h
      cases hline : c.keeper.connection <;> cases outcome <;> simp [hline] at h

theorem Client.isAllowed_of_done (h : c.verdict q outcome = .done) : q.IsAllowed c.board := by
  unfold verdict at h
  cases hcheck : q.check c.board with
  | error e =>
      rw [hcheck] at h
      cases h
  | ok _ => exact (Request.check_eq_ok_iff q c.board).mp hcheck

end Verdict

namespace Run

/-! ## What the client does -/

/-- What is done about a request for `msg` that is answered with `a`. -/
inductive Serving (r : Run) (msg : ClientMessage) : Answer → Run → Prop
  | forbidden (e) : Serving r msg (.refused (.board e)) (r.answer (.refused (.board e)))
  | unconnected (h : r.keeper.connection = none) :
      Serving r msg (.refused .notConnected)
        ((r.log (.unsent msg .notConnected)).answer (.refused .notConnected))
  | lost {id} (e) (h : r.keeper.connection = some id) :
      Serving r msg (.refused (.link e))
        (((r.log (.unsent msg (.link e))).connectionLost r.machine.state).answer
          (.refused (.link e)))
  | out {id} (h : r.keeper.connection = some id) :
      Serving r msg .done ((r.sent id msg).answer .done)

section Serving

variable {r r' r₁ : Run} {q : Request} {m : Moment} {msg : ClientMessage} {a : Answer}

theorem sendIfAllowed_serving (r : Run) (q : Request) (hmsg : msg.Encodes) :
    Serving r msg (r.verdict q r.uplink.outcome) (r.sendIfAllowed msg (q.check r.board)) := by
  unfold Client.verdict
  cases q.check r.board with
  | error e => exact .forbidden e
  | ok _ =>
      show Serving r msg _ (r.sendAndAnswer msg)
      unfold sendAndAnswer
      cases hid : r.keeper.connection with
      | none =>
          have hpost : r.post msg = (.error .notConnected, r.log (.unsent msg .notConnected)) := by
            simp only [post, Keeper.send, hid]
          rw [hpost]
          exact .unconnected hid
      | some id =>
          obtain ⟨frame, hframe, _⟩ := hmsg
          rw [post_of_connection hid hframe]
          cases r.uplink.outcome with
          | error e => exact .lost e hid
          | ok _ => exact .out hid

theorem handle_requested (hq : q.message? = some msg) (hadmitted : q.admit = .ok q) :
    r.handle (.requested q) = r.sendIfAllowed msg (q.check r.board) := by
  cases q with
  | takeTurn =>
      cases hq
      rfl
  | shout =>
      cases hq
      rfl
  | setTileCapacity tiles =>
      cases hq
      -- a capacity that no game can have has not been admitted
      rcases Request.capacity_cases tiles with ⟨hcheck, _⟩ | ⟨e, _, herror⟩
      · simp only [handle, onRequest, sendIfAllowed, Request.check, hcheck]
      · cases herror.symm.trans hadmitted
  | _ => cases hq

/-- A request is served as the verdict says, and then the moment closes. -/
theorem meet_serving (hgoing : r.isFinished = false) (hm : m.stimulus = .requested q)
    (hq : q.message? = some msg) :
    ∃ r₁, Serving (r.arrive m) msg (r.verdict q m.uplink.outcome) r₁ ∧ Closing r₁ (r.meet m) := by
  rcases Request.admit_cases hq r.board with hadmitted | ⟨e, hcheck, hadmitted⟩
  · have hheard : m.heard? = some (.requested q) := by simp only [Moment.heard?, hm, hadmitted]
    have hclosing := closing_of_reached? (reached?_eq hgoing hheard rfl)
    rw [handle_requested hq hadmitted] at hclosing
    exact ⟨_, sendIfAllowed_serving (r.arrive m) q (Request.encodes_of_message? hq), hclosing⟩
  · have hmeet : r.meet m = (r.arrive m).answer (.refused (.board e)) := by
      show (r.arrive m).react m.stimulus = _
      simp only [react, hm, hadmitted]
    have hverdict : r.verdict q m.uplink.outcome = .refused (.board e) := by
      simp only [Client.verdict, hcheck]
    rw [hverdict, hmeet]
    exact ⟨_, .forbidden e, .going hgoing⟩

/-- Only a connection that is lost can end the session. -/
theorem Serving.eq_of_closing (h : Serving r msg a r₁) (hclosing : Closing r₁ r')
    (hgoing : r.isFinished = false) (ha : ∀ e, a ≠ .refused (.link e)) : r' = r₁ := by
  refine hclosing.eq_of_going (hclosing.isFinished_eq.trans ?_)
  cases h with
  | lost e _ => exact absurd rfl (ha e)
  | _ => exact hgoing

theorem Serving.trace_eq_of_closing (h : Serving r msg a r₁) (hclosing : Closing r₁ r')
    (hgoing : r.isFinished = false) : r'.trace = r₁.trace := by
  cases h with
  | lost e _ => exact hclosing.trace_eq (connectionLost_gone _ _)
  | _ => rw [hclosing.eq_of_going (hclosing.isFinished_eq.trans hgoing)]

end Serving

end Run

/-! ## What is done before the answer -/

/-- The answer that an effect gives. -/
def Effect.answer? : Effect → Option Answer
  | .answered a => some a
  | _ => none

/-- The deadline that an effect sets. -/
def Effect.armed? : Effect → Option (Timer × Instant)
  | .armed timer due => some (timer, due)
  | _ => none

/-- The deadlines that are set for a request that is answered with `a` at `now`: something has gone
out, or the connection is lost. -/
def Client.deadlinesFor (c : Client) (now : Instant) : Answer → List (Timer × Instant)
  | .done => [(.keepAlive, now + c.keeper.interval.nanos)]
  | .refused (.link _) => ((c.machine.connectionLost.1.due? now).map (.reconnect, ·)).toList
  | _ => []

namespace Run

/-- `r'` came from `r` at the same time and without an answer, and the deadlines `ts` were set. -/
structure Arms (r r' : Run) (ts : List (Timer × Instant)) : Prop where
  now : r'.now = r.now
  trace : ∃ es, r'.trace = r.trace ++ es ∧ (∀ x ∈ es, x.2.answer? = none) ∧
    es.filterMap (·.2.armed?) = ts

section Arms

variable {r r' r₁ r₂ r₃ : Run} {ts us : List (Timer × Instant)} {msg : ClientMessage} {a : Answer}

theorem Arms.of_trace_eq (htrace : r'.trace = r.trace) (hnow : r'.now = r.now) : Arms r r' [] :=
  ⟨hnow, [], by simp [htrace], by simp, rfl⟩

theorem Arms.refl (r : Run) : Arms r r [] :=
  .of_trace_eq rfl rfl

theorem Arms.trans (h : Arms r₁ r₂ ts) (h' : Arms r₂ r₃ us) : Arms r₁ r₃ (ts ++ us) := by
  obtain ⟨es, htrace, hes, hts⟩ := h.trace
  obtain ⟨fs, htrace', hfs, hus⟩ := h'.trace
  refine ⟨h'.now.trans h.now, es ++ fs, ?_, ?_, ?_⟩
  · rw [htrace', htrace, List.append_assoc]
  · intro x hx
    exact (List.mem_append.mp hx).elim (hes x) (hfs x)
  · rw [List.filterMap_append, hts, hus]

/-- No deadline was set first. -/
theorem Arms.after (h : Arms r₁ r₂ []) (h' : Arms r₂ r₃ ts) : Arms r₁ r₃ ts :=
  h.trans h'

/-- No deadline was set last. -/
theorem Arms.before (h : Arms r₁ r₂ ts) (h' : Arms r₂ r₃ []) : Arms r₁ r₃ ts := by
  simpa using h.trans h'

theorem log_arms_nil (r : Run) {e : Effect} (he : e.answer? = none) (harmed : e.armed? = none) :
    Arms r (r.log e) [] :=
  ⟨rfl, [(r.now, e)], rfl, by simpa using he, by simp [harmed]⟩

theorem log_arms (r : Run) (timer : Timer) (due : Instant) :
    Arms r (r.log (.armed timer due)) [(timer, due)] :=
  ⟨rfl, [(r.now, .armed timer due)], rfl, by simp [Effect.answer?], rfl⟩

theorem release_arms (r : Run) : Arms r r.release [] := by
  unfold release
  cases r.keeper.connection with
  | none => exact .of_trace_eq rfl rfl
  | some id =>
      have hreleased : Arms r { r with keeper := r.keeper.release } [] := .of_trace_eq rfl rfl
      exact hreleased.before (log_arms_nil _ rfl rfl)

theorem reportState_arms (r : Run) (before : SessionState) : Arms r (r.reportState before) [] := by
  unfold reportState
  split
  · exact .refl r
  · dsimp only
    split
    · exact (r.log_arms_nil rfl rfl).before (log_arms_nil _ rfl rfl)
    · exact r.log_arms_nil rfl rfl

theorem sent_arms (r : Run) (id : ConnectionId) (m : ClientMessage) :
    Arms r (r.sent id m) [(.keepAlive, r.now + r.keeper.interval.nanos)] := by
  have hspent : Arms r { r with
      keeper := { r.keeper with keepAlive := r.keeper.keepAlive.arm r.now r.keeper.interval }
      uplink := r.uplink.spend } [] := .of_trace_eq rfl rfl
  have hsent := hspent.before (log_arms_nil _ (e := .sentOn id m) rfl rfl)
  exact hsent.after (log_arms _ _ _)

/-- A lost connection has the deadline for another attempt set, if there is to be one. -/
theorem connectionLost_arms (r : Run) (before : SessionState) :
    Arms r (r.connectionLost before)
      ((r.machine.connectionLost.1.due? r.now).map (.reconnect, ·)).toList := by
  have hmachine : r.release.machine = r.machine := by rw [release_toClient]
  let lost : Run := { r.release with
    flushRetry := r.release.flushRetry.cancel
    typing := r.release.typing.connectionLost
    machine := r.machine.connectionLost.2 }
  have hlost : Arms r lost [] := r.release_arms.before (.of_trace_eq rfl rfl)
  unfold connectionLost
  dsimp only
  rw [hmachine]
  refine .before (.before ?_ (log_arms_nil _ rfl rfl)) (reportState_arms _ before)
  cases r.machine.connectionLost.1 with
  | after delay =>
      have hset : Arms lost { lost with reconnect := lost.reconnect.arm lost.now delay } [] :=
        .of_trace_eq rfl rfl
      rw [← release_now r]
      exact (hlost.after hset).after (log_arms _ _ _)
  | giveUp => exact hlost.before (.of_trace_eq rfl rfl)

/-- The answer is the last that is done about a request. -/
theorem Serving.arms (h : Serving r msg a r₁) :
    ∃ r₀, Arms r r₀ (r.deadlinesFor r.now a) ∧ r₁ = r₀.answer a := by
  cases h with
  | forbidden e => exact ⟨r, .refl r, rfl⟩
  | unconnected _ => exact ⟨_, r.log_arms_nil rfl rfl, rfl⟩
  | lost e _ =>
      have hunsent := r.log_arms_nil (e := .unsent msg (.link e)) rfl rfl
      exact ⟨_, hunsent.after (connectionLost_arms _ r.machine.state), rfl⟩
  | out hid => exact ⟨_, r.sent_arms _ msg, rfl⟩

/-- What is refused without trying leaves the client as it is, and nothing is told. -/
theorem Serving.unchanged (h : Serving r msg a r₁)
    (ha : (∃ e, a = .refused (.board e)) ∨ a = .refused .notConnected) :
    r₁.toClient = r.toClient ∧ r₁.events = r.events := by
  cases h with
  | forbidden e =>
      have hanswer := r.log_reports_nil (e := .answered (.refused (.board e))) rfl
      exact ⟨rfl, Eq.trans hanswer (List.append_nil _)⟩
  | unconnected _ =>
      have hunsent := r.log_reports_nil (e := .unsent msg .notConnected) rfl
      have hanswer := hunsent.before
        (log_reports_nil _ (e := .answered (.refused .notConnected)) rfl)
      exact ⟨rfl, Eq.trans hanswer (List.append_nil _)⟩
  | lost e _ => simp at ha
  | out _ => simp at ha

theorem Serving.lost_machine {e : LinkError} (h : Serving r msg (.refused (.link e)) r₁) :
    r₁.machine = r.machine.connectionLost.2 := by
  cases h
  rw [answer_toClient, connectionLost_toClient]
  rfl

/-- A request for a message has this message sent if it is done, and is refused at most once. -/
theorem Serving.deals (h : Serving r msg a r₁) (hmsg : msg ≠ .leave) :
    ∃ es, Deals r r₁ es ∧ delivered es = (if a = .done then [msg] else []) ∧
      ∀ e, a = .refused (.link e) → es.countP Effect.isRefusal = 1 := by
  cases h with
  | forbidden e => exact ⟨[], r.answer_deals _, rfl, by simp⟩
  | unconnected _ =>
      have hunsent := r.log_deals_of_isDealing (e := .unsent msg .notConnected) rfl
      exact ⟨_, hunsent.before (answer_deals _ _), rfl, by simp⟩
  | @lost id e hid =>
      have hunsent := r.log_deals_of_isDealing (e := .unsent msg (.link e)) rfl
      have hlost := hunsent.trans (connectionLost_deals _ r.machine.state)
      refine ⟨_, hlost.before (answer_deals _ _), ?_, ?_⟩
      · simp [delivered, dropping, hid, Effect.sent?]
      · simp [dropping, hid, Effect.isRefusal, ClientError.isLink, hmsg]
  | @out id hid =>
      exact ⟨_, (r.sent_deals id msg).before (answer_deals _ _), delivered_map_sentOn id [msg],
        by simp⟩

end Arms

/-! ## Moments -/

/-- What comes of a request for `msg` at a moment, if it is answered with `a`. -/
structure Answered (r : Run) (m : Moment) (msg : ClientMessage) (a : Answer) : Prop where
  /-- There is one answer, and it comes last. The deadlines are set before it. -/
  last : ∃ es, (r.meet m).trace = r.trace ++ es ++ [(r.now + m.wait, .answered a)] ∧
    (∀ x ∈ es, x.2.answer? = none) ∧
    es.filterMap (·.2.armed?) = r.deadlinesFor (r.now + m.wait) a
  /-- The message goes out if the request is done. Otherwise nothing does. -/
  sent : delivered (r.dealings m) = if a = .done then [msg] else []
  /-- What the game forbids, and what there is no connection for, changes nothing. -/
  unchanged : (∃ e, a = .refused (.board e)) ∨ a = .refused .notConnected →
    (r.meet m).toClient = r.toClient ∧ (r.meet m).events = r.events
  /-- What the connection refuses costs the connection, and the session hears of it once. -/
  lost : ∀ e, a = .refused (.link e) →
    r.losses m = 1 ∧ (r.meet m).machine = r.machine.connectionLost.2

section Moments

variable {r : Run} {q : Request} {m : Moment} {msg : ClientMessage} {id : ConnectionId}

/-- A request for a message is heard of as it was made. -/
theorem stimulus_of_heard? (h : m.heard? = some (.requested q)) (hq : q.message? = some msg) :
    m.stimulus = .requested q := by
  rcases Moment.heard?_cases h with ⟨_, hm⟩ | ⟨q₀, q', hm, hadmitted, heq⟩
  · exact hm
  · obtain rfl := Stimulus.requested.inj heq
    rw [hm, Request.eq_of_admitted hadmitted hq]

/-- Whatever comes of a request, it was no loss that was heard of. -/
theorem reached?_isLoss (hm : m.stimulus = .requested q) :
    (r.reached? m).any Stimulus.isLoss = false := by
  cases hs : r.reached? m with
  | none => rfl
  | some s =>
      rcases Moment.heard?_cases (heard?_of_reached? hs) with ⟨hother, _⟩ | ⟨_, q', _, _, rfl⟩
      · exact absurd hm (hother q)
      · rfl

theorem meet_answered (hgoing : r.isFinished = false) (hm : m.stimulus = .requested q)
    (hq : q.message? = some msg) : r.Answered m msg (r.verdict q m.uplink.outcome) := by
  obtain ⟨r₁, hserving, hclosing⟩ := meet_serving hgoing hm hq
  have hgoing' : (r.arrive m).isFinished = false := hgoing
  have htrace := hserving.trace_eq_of_closing hclosing hgoing'
  obtain ⟨es, hdeals, hsent, hrefused⟩ := hserving.deals (Request.ne_leave_of_message? hq)
  have hdealings : r.dealings m = es :=
    (((r.arrive_deals m).after hdeals).before (.of_trace_eq htrace)).dealings_eq
  refine ⟨?_, by rw [hdealings, hsent], ?_, ?_⟩
  · obtain ⟨r₀, harms, rfl⟩ := hserving.arms
    obtain ⟨fs, hfs, hsilent, hset⟩ := harms.trace
    refine ⟨fs, ?_, hsilent, hset⟩
    rw [htrace]
    show r₀.trace ++ [(r₀.now, _)] = _
    rw [hfs, harms.now]
    rfl
  · intro ha
    have hmeet := hserving.eq_of_closing hclosing hgoing' fun e he => by simp [he] at ha
    rw [hmeet]
    exact hserving.unchanged ha
  · intro e he
    rw [he] at hserving
    refine ⟨?_, hclosing.machine_eq.trans hserving.lost_machine⟩
    rw [losses, reached?_isLoss hm, hdealings, hrefused e he]
    rfl

/-- What has gone out has been asked for, and was allowed then. -/
theorem isAllowed_of_mem_dealings {frame : List UInt8} (hchats : r.HoldsChats)
    (hq : q.message? = some msg) (he : .sent id msg frame ∈ r.dealings m) :
    m.stimulus = .requested q ∧ q.IsAllowed r.board := by
  obtain ⟨hs, _⟩ := occasion_of_mem_dealings hchats he (Request.occasion_of_message? hq)
  have hm := stimulus_of_heard? (heard?_of_reached? hs) hq
  have hanswered := meet_answered (isFinished_of_mem_dealings he) hm hq
  have hsent : msg ∈ delivered (r.dealings m) := List.mem_filterMap.mpr ⟨_, he, rfl⟩
  rw [hanswered.sent] at hsent
  split at hsent
  case isTrue hdone => exact ⟨hm, Client.isAllowed_of_done hdone⟩
  case isFalse => cases hsent

/-- What a refusal by the connection comes to: one deadline for another attempt, at the time that
the policy says, or the end. -/
theorem Regular.refused {p : ReconnectPolicy} {e : LinkError} (h : r.Regular p)
    (hgoing : r.isFinished = false) (hanswered : r.Answered m msg (.refused (.link e))) :
    let N := p.validated.maxAttempts.toNat
    let due := r.now + m.wait + min (p.validated.delay.nanos * 2 ^ r.machine.session.attempts)
      p.validated.maxDelay.nanos
    (r.machine.session.attempts + 1 < N → (r.meet m).isFinished = false ∧
      (r.meet m).reconnect.due? = some due ∧
      r.deadlinesFor (r.now + m.wait) (.refused (.link e)) = [(.reconnect, due)]) ∧
    (N ≤ r.machine.session.attempts + 1 → (r.meet m).machine.state = .error ∧
      (r.meet m).machine.failure = some (.transport N) ∧
      r.deadlinesFor (r.now + m.wait) (.refused (.link e)) = []) := by
  intro N due
  have hloss := (hanswered.lost e rfl).1
  refine ⟨fun hleft => ?_, fun hlast => ?_⟩
  · obtain ⟨delay, hretry, hdelay, _⟩ := h.budget.connectionLost_retry hgoing hleft
    obtain ⟨hgoing', hset, _⟩ := h.retry hloss hleft
    refine ⟨hgoing', hset, ?_⟩
    simp [Client.deadlinesFor, hretry, Retry.due?, hdelay, due]
  · obtain ⟨heq, hstate, hfailure⟩ := h.giveUp hloss hlast
    obtain ⟨hgiveUp, _, _⟩ := h.budget.connectionLost_giveUp hgoing heq
    refine ⟨hstate, hfailure, ?_⟩
    simp [Client.deadlinesFor, hgiveUp, Retry.due?]

end Moments

end Run

/-! ## A clock that ends -/

namespace Rehearsal.ClientStage

theorem any_overflows (s : ClientStage) (trace : List (Instant × Effect)) :
    trace.any s.overflows = (trace.filterMap (·.2.armed?)).any fun d => !s.isShown d.2 := by
  rw [List.any_filterMap]
  congr 1
  funext ⟨t, e⟩
  cases e <;> rfl

theorem answered_eq (s : ClientStage) :
    s.answered = (s.record.findSome? (·.2.answer?)).getD (.refused .closed) := rfl

/-- Where nothing on record is an answer, none will come. -/
theorem answered_of_silent {s : ClientStage} (h : ∀ x ∈ s.record, x.2.answer? = none) :
    s.answered = .refused .closed := by
  rw [answered_eq, List.findSome?_eq_none_iff.mpr h]
  rfl

/-- A client that breaks off before its answer has not given it. -/
theorem breakOff_silent {s : ClientStage} {es : List (Instant × Effect)} {x : Instant × Effect}
    (held : Option ConnectionId) (htrace : s.run.trace = es ++ [x])
    (hsilent : ∀ y ∈ es, y.2.answer? = none) (hover : es.any s.overflows = true) :
    ∀ y ∈ (s.breakOff held).run.trace, y.2.answer? = none := by
  have hcut : (es ++ [x]).takeWhile (fun e => !s.overflows e) =
      es.takeWhile fun e => !s.overflows e := by
    rw [List.takeWhile_append, if_neg]
    intro hlength
    have hall := List.takeWhile_eq_self_iff.mp
      ((List.takeWhile_prefix _).eq_of_length hlength)
    obtain ⟨y, hy, hbreak⟩ := List.any_eq_true.mp hover
    simpa [hbreak] using hall y hy
  intro y hy
  obtain ⟨fs, hfs, hfsSilent, _⟩ := (Run.release_arms { s.run with
    trace := s.run.trace.takeWhile fun e => !s.overflows e
    keeper := { s.run.keeper with
      connection := heldAfter held (s.run.trace.takeWhile fun e => !s.overflows e) } }).trace
  have hy : y ∈ s.run.trace.takeWhile (fun e => !s.overflows e) ++ fs := hfs ▸ hy
  rw [htrace, hcut] at hy
  rcases List.mem_append.mp hy with hy | hy
  · exact hsilent y ((List.takeWhile_prefix _).subset hy)
  · exact hfsSilent y hy

/-- The user is given the answer of the client, unless the client breaks off before it. -/
theorem settleUp_answered {s : ClientStage} {es : List (Instant × Effect)} {t : Instant}
    {a : Answer} (held : Option ConnectionId) (hrecord : s.record = [])
    (htrace : s.run.trace = es ++ [(t, .answered a)]) (hsilent : ∀ x ∈ es, x.2.answer? = none) :
    (settleUp held s).answered =
      if (es.filterMap (·.2.armed?)).all (fun d => s.isShown d.2) then a else .refused .closed := by
  have hover : s.run.trace.any s.overflows = es.any s.overflows := by
    rw [htrace, List.any_append]
    exact Bool.or_false _
  have hshown : (es.filterMap (·.2.armed?)).all (fun d => s.isShown d.2) =
      !es.any s.overflows := by
    rw [any_overflows, List.not_any_eq_all_not]
    simp
  unfold settleUp
  rw [hover, hshown]
  cases hbreak : es.any s.overflows with
  | true =>
      have hnone := breakOff_silent held htrace hsilent hbreak
      refine answered_of_silent fun x hx => ?_
      have hx : x ∈ (s.breakOff held).run.trace.reverse ++ s.record := hx
      rw [hrecord, List.append_nil] at hx
      exact hnone x (List.mem_reverse.mp hx)
  | false =>
      rw [answered_eq]
      show Option.getD ((s.run.trace.reverse ++ s.record).findSome? _) _ = a
      rw [htrace, List.reverse_append]
      rfl

/-- Whoever makes a request on a stage gets the answer that the client owes, if the clock can show
the deadlines that are set on the way. Otherwise there is nobody left to answer. -/
theorem step_request {s : ClientStage} {q : Request} {msg : ClientMessage}
    (hq : q.message? = some msg) (hgoing : s.run.isFinished = false) (hhandle : s.handle = true)
    (hwhole : s.broken = false) (hfresh : s.run.trace = []) :
    let a := s.run.verdict q (s.moment (.requested q)).uplink.outcome
    (s.step (.request q)).1 =
      .answer (if (s.run.deadlinesFor s.run.now a).all (fun d => s.isShown d.2) then a
        else .refused .closed) := by
  intro a
  have hanswered := Run.meet_answered (m := s.moment (.requested q)) hgoing rfl hq
  obtain ⟨es, htrace, hsilent, hset⟩ := hanswered.last
  rw [hfresh, List.nil_append] at htrace
  have hstep : (s.step (.request q)).1 = .answer (settleUp s.run.keeper.connection
      { s with record := [], run := s.run.meet (s.moment (.requested q)) }).answered := by
    simp only [step, request, react, hhandle, hwhole, if_true, Bool.false_eq_true, if_false]
    rfl
  rw [hstep, settleUp_answered _ rfl htrace hsilent, hset]
  rfl

end Rehearsal.ClientStage

namespace Run

open Rehearsal (ClientStage)

/-- In every life a request to take a turn, to shout or to play with another number of tiles, made
of a client that is not finished, is answered once: that the game forbids it just if it does, and
then with the reason, else that there is no connection, else how the connection took the message.
The message goes out once if the answer is that the request is done, and nothing goes out otherwise.
What the game forbids, and what there is no connection for, leaves the client as it was, and nothing
is told. What the connection refuses is one loss, and it has led to one deadline for another attempt
or to the end before the answer. So no such message ever goes out at a moment at which it is not
allowed.

But a deadline that is set before the answer, for the next keep-alive or for another attempt, must
be one that the clock can show, whenever the clock was started. Otherwise the client breaks off, and
whoever has asked is told that it is closed. -/
theorem requests_answered (config : ClientConfig) (before : List Moment) :
    let r := play config before
    let N := config.validated.session.maxAttempts.toNat
    let delay := min (config.validated.session.delay.nanos * 2 ^ r.machine.session.attempts)
      config.validated.session.maxDelay.nanos
    (∀ q msg m, r.isFinished = false → q.message? = some msg → m.stimulus = .requested q →
      let a := r.verdict q m.uplink.outcome
      let now := r.now + m.wait
      ((∃ e, a = .refused (.board e)) ↔ ¬ q.IsAllowed r.board) ∧
      (∀ e, a = .refused (.board e) → q.denial? = some e) ∧
      r.Answered m msg a ∧
      ∀ e, a = .refused (.link e) →
        (r.machine.session.attempts + 1 < N → (r.meet m).isFinished = false ∧
          (r.meet m).reconnect.due? = some (now + delay) ∧
          r.deadlinesFor now a = [(.reconnect, now + delay)]) ∧
        (N ≤ r.machine.session.attempts + 1 → (r.meet m).machine.state = .error ∧
          (r.meet m).machine.failure = some (.transport N) ∧ r.deadlinesFor now a = [])) ∧
    (∀ t id msg frame q, (t, .sent id msg frame) ∈ r.trace → q.message? = some msg →
      ∃ earlier m later, before = earlier ++ m :: later ∧ m.stimulus = .requested q ∧
        .sent id msg frame ∈ (play config earlier).dealings m ∧
        q.IsAllowed (play config earlier).board) ∧
    (∀ (s : ClientStage) q msg, r.isFinished = false → q.message? = some msg →
      s.run.toClient = r.toClient → s.handle = true → s.broken = false → s.run.trace = [] →
      let a := r.verdict q (s.moment (.requested q)).uplink.outcome
      (s.step (.request q)).1 =
        .answer (if (r.deadlinesFor s.run.now a).all (fun d => s.isShown d.2) then a
          else .refused .closed)) := by
  intro r N delay
  have hregular : r.Regular config.validated.session := (start_regular config).follow before
  have hvalid : config.validated.session.validated = config.validated.session :=
    config.session.validated_validated
  refine ⟨?_, ?_, ?_⟩
  · intro q msg m hgoing hq hm a now
    have hanswered : r.Answered m msg a := meet_answered hgoing hm hq
    refine ⟨Client.verdict_forbidden_iff, fun e => Client.denial?_of_verdict, hanswered,
      fun e he => ?_⟩
    rw [he] at hanswered ⊢
    have hrefused := hregular.refused hgoing hanswered
    rw [hvalid] at hrefused
    exact hrefused
  · intro t id msg frame q hsent hq
    rcases dealing_of_trace rfl hsent with hstart | ⟨earlier, m, later, rfl, he⟩
    · cases hstart
    · have hchats := play_holdsChats config (isFinished_of_mem_dealings he)
      obtain ⟨hm, hallowed⟩ := isAllowed_of_mem_dealings hchats hq he
      exact ⟨earlier, m, later, rfl, hm, he, hallowed⟩
  · intro s q msg hgoing hq hsame hhandle hwhole hfresh
    have hgoing' : s.run.isFinished = false := by
      rw [hsame]
      exact hgoing
    have hstep := ClientStage.step_request hq hgoing' hhandle hwhole hfresh
    rw [hsame] at hstep
    exact hstep

/-- A capacity is asked for on a new connection: the message goes out, or it is refused and another
attempt is to follow. -/
theorem requests_answered_capacity :
    let q : Request := .setTileCapacity 5
    let opened : Moment := { stimulus := .connected }
    let asked : Moment := { stimulus := .requested q }
    let lost : Moment := { stimulus := .requested q, uplink := { accepts := some 0 } }
    let fault : Answer := .refused (.link (.sendFailed "server gone"))
    let r := play {} [opened]
    let s := ClientStage.start {} {}
    r.isFinished = false ∧ r.verdict q asked.uplink.outcome = .done ∧
      r.Answered asked (.setTileCapacity 5) .done ∧
      r.verdict q lost.uplink.outcome = fault ∧
      r.Answered lost (.setTileCapacity 5) fault ∧
      (r.meet lost).reconnect.due? = some 2_000_000_000 ∧
      (∃ earlier m later, [opened, asked] = earlier ++ m :: later ∧ m.stimulus = .requested q ∧
        .sentOn ⟨1⟩ (.setTileCapacity 5) ∈ (play {} earlier).dealings m ∧
        q.IsAllowed (play {} earlier).board) ∧
      s.run.toClient = r.toClient ∧ s.handle = true ∧ s.broken = false ∧ s.run.trace = [] ∧
      (s.step (.request q)).1 = .answer .done := by
  intro q opened asked lost fault r s
  obtain ⟨hmoment, _, hstage⟩ := requests_answered {} [opened]
  obtain ⟨_, hsent, _⟩ := requests_answered {} [opened, asked]
  have hgoing : r.isFinished = false := by decide +kernel
  have hdone : r.verdict q asked.uplink.outcome = .done := by decide +kernel
  have hfault : r.verdict q lost.uplink.outcome = fault := by decide +kernel
  obtain ⟨_, _, hasked, _⟩ := hmoment q _ asked hgoing rfl rfl
  obtain ⟨_, _, hlost, hretry⟩ := hmoment q _ lost hgoing rfl rfl
  obtain ⟨_, hset, _⟩ := (hretry _ hfault).1 (by decide +kernel)
  have hframe := hsent 0 ⟨1⟩ (.setTileCapacity 5) (Wire.layout (ClientMessage.setTileCapacity 5)) q
    (by decide +kernel) rfl
  have hsame : s.run.toClient = r.toClient := by decide +kernel
  have hhandle : s.handle = true := by decide +kernel
  have hwhole : s.broken = false := by decide +kernel
  have hfresh : s.run.trace = [] := by decide +kernel
  have hstep := hstage s q _ hgoing rfl hsame hhandle hwhole hfresh
  rw [hdone] at hasked
  rw [hfault] at hlost
  refine ⟨hgoing, hdone, hasked, hfault, hlost, ?_, hframe, hsame, hhandle, hwhole, hfresh, ?_⟩
  · rw [hset]
    decide +kernel
  · refine hstep.trans (congrArg _ ?_)
    decide +kernel

/-- A client that is to wait for the longest time before it tries again breaks off when its
connection refuses a request that is allowed. It owes the error of the connection, and whoever has
asked is told that it is closed. The drop is all that is on record of the loss, though the session
bears another. -/
theorem longest_delay_unanswered :
    let longest : Duration := .ofSecs 18446744073709551615
    let config : ClientConfig := { session := ⟨3, longest, longest⟩ }
    let q : Request := .setTileCapacity 5
    let s := ClientStage.start config { failAfter := some 1 }
    s.run.isFinished = false ∧ s.broken = false ∧ q.IsAllowed s.run.board ∧
      s.run.keeper.isConnected = true ∧
      s.run.machine.session.attempts + 1 < config.validated.session.maxAttempts.toNat ∧
      (s.moment (.requested q)).uplink.outcome = .error (.sendFailed "server gone") ∧
      s.run.verdict q (s.moment (.requested q)).uplink.outcome =
        .refused (.link (.sendFailed "server gone")) ∧
      (s.step (.request q)).1 = .answer (.refused .closed) ∧
      (s.step (.request q)).2.broken = true ∧ (s.step (.request q)).2.isStopped = true ∧
      (s.step (.request q)).2.record.map Prod.snd =
        [.dropped ⟨1⟩, .unsent (.setTileCapacity 5) (.link (.sendFailed "server gone"))] := by
  intro longest config q s
  have hgoing : s.run.isFinished = false := by decide +kernel
  have hwhole : s.broken = false := by decide +kernel
  have hallowed : q.IsAllowed s.run.board := (q.check_eq_ok_iff _).mp rfl
  have hverdict : s.run.verdict q (s.moment (.requested q)).uplink.outcome =
      .refused (.link (.sendFailed "server gone")) := by decide +kernel
  have hstep := ClientStage.step_request (s := s) (q := q) rfl hgoing (by decide +kernel) hwhole
    (by decide +kernel)
  refine ⟨hgoing, hwhole, hallowed, by decide +kernel, by decide +kernel, by decide +kernel,
    hverdict, ?_, by decide +kernel⟩
  refine hstep.trans (congrArg _ ?_)
  decide +kernel

end Run

end TileRoom
