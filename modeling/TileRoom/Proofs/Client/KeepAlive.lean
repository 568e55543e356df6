import TileRoom.Proofs.Client.Manners
import TileRoom.Proofs.Client.Talking

/-!
# When a connection is kept alive

A keeper sets its deadline at every send that succeeds and takes it back with the connection, so
the deadline counts from the last send on the connection at hand (`Keeper.Keeps`). A client has the
deadline set whenever it has a connection between two moments (`Run.Paced`): the hello sets it
first, and a send that fails costs the connection. `kept_alive` says both, and that a keep-alive is
sent when nothing else has been for the whole interval, and not before.
-/

namespace TileRoom

namespace Keeper

/-! ## Keepers -/

/-- What can be done with a keeper. Whether a send succeeds is up to the connection. -/
inductive Operation
  | attempt
  | attach (id : ConnectionId)
  | send (m : ClientMessage) (outcome : Except LinkError Unit)
  | sendKeepAlive (outcome : Except LinkError Unit)
  | disconnect
  | close

/-- Sends a message if that can be done. -/
def mail (k : Keeper) (now : Instant) (outcome : Except LinkError Unit) (m : ClientMessage) :
    Except ClientError Unit × Keeper :=
  match k.send now outcome m with
  | .error e => (.error e, k)
  | .ok (_, _, k) => (.ok (), k)

/-- The keeper as it is when an operation has a message sent. The deadline for a keep-alive has been
heard by then. -/
def mailing (k : Keeper) : Operation → Keeper
  | .sendKeepAlive _ => k.heard
  | _ => k

/-- What an operation leads to. -/
def operate (k : Keeper) (now : Instant) (op : Operation) : Except ClientError Unit × Keeper :=
  match op with
  | .attempt | .disconnect | .close => (.ok (), k.release)
  | .attach id => (.ok (), k.attach id)
  | .send m outcome => (k.mailing op).mail now outcome m
  | .sendKeepAlive outcome => (k.mailing op).mail now outcome .keepAlive

def operateAll (k : Keeper) (ops : List (Instant × Operation)) : Keeper :=
  ops.foldl (fun k x => (k.operate x.1 x.2).2) k

/-- Whether an operation sends something. -/
def Operation.isSend : Operation → Bool
  | send .. | sendKeepAlive _ => true
  | _ => false

/-- When something last went out on the connection at hand, if that was at `last` before an
operation. -/
def lastSend (k : Keeper) (last : Option Instant) (now : Instant) (op : Operation) :
    Option Instant :=
  if op.isSend then
    match (k.operate now op).1 with
    | .ok () => some now
    | .error _ => last
  else none

def lastSendOver (k : Keeper) (last : Option Instant) : List (Instant × Operation) → Option Instant
  | [] => last
  | (now, op) :: ops => (k.operate now op).2.lastSendOver (k.lastSend last now op) ops

/-- The deadline is set on a connection only, and counts from the last send on it. -/
structure Keeps (k : Keeper) (interval : Duration) (last : Option Instant) : Prop where
  fixed : k.interval = interval
  connected : k.keepAlive.isArmed = true → k.isConnected = true
  counts : ∀ due, k.keepAlive.due? = some due →
    ∃ t, last = some t ∧ due = t + interval.nanos

section Operations

variable {k : Keeper} {now : Instant} {interval : Duration} {last : Option Instant}
  {outcome : Except LinkError Unit} {m : ClientMessage} {op : Operation} {e : ClientError}

/-- A send fails and changes nothing, or it succeeds on a connection and sets the deadline. -/
theorem mail_cases (k : Keeper) (now : Instant) (outcome : Except LinkError Unit)
    (m : ClientMessage) :
    (∃ e, k.mail now outcome m = (.error e, k)) ∨ k.isConnected = true ∧
      k.mail now outcome m = (.ok (), { k with keepAlive := k.keepAlive.arm now k.interval }) := by
  unfold mail send
  cases hid : k.connection with
  | none => exact .inl ⟨_, rfl⟩
  | some id =>
      cases Wire.encode m with
      | error e => exact .inl ⟨_, rfl⟩
      | ok frame =>
          cases outcome with
          | error e => exact .inl ⟨_, rfl⟩
          | ok _ => exact .inr ⟨by rw [isConnected, hid]; rfl, by simp⟩

theorem operate_eq_mail (hop : op.isSend = true) (k : Keeper) (now : Instant) :
    ∃ outcome m, k.operate now op = (k.mailing op).mail now outcome m := by
  cases op with
  | send m outcome => exact ⟨outcome, m, rfl⟩
  | sendKeepAlive outcome => exact ⟨outcome, .keepAlive, rfl⟩
  | _ => cases hop

theorem mailing_interval (k : Keeper) (op : Operation) : (k.mailing op).interval = k.interval := by
  cases op <;> rfl

/-- A send that fails leaves the keeper as it was when the message was handed over. -/
theorem operate_of_error (h : (k.operate now op).1 = .error e) :
    (k.operate now op).2 = k.mailing op := by
  cases hop : op.isSend with
  | false => cases op <;> first | cases h | cases hop
  | true =>
      obtain ⟨outcome, m, hmail⟩ := operate_eq_mail hop k now
      rw [hmail] at h ⊢
      rcases (k.mailing op).mail_cases now outcome m with ⟨_, hfailed⟩ | ⟨_, hsent⟩
      · rw [hfailed]
      · rw [hsent] at h
        cases h

theorem operate_of_ok (hop : op.isSend = true) (h : (k.operate now op).1 = .ok ()) :
    (k.operate now op).2.isConnected = true ∧
      (k.operate now op).2.keepAlive.due? = some (now + k.interval.nanos) := by
  obtain ⟨outcome, m, hmail⟩ := operate_eq_mail hop k now
  rw [hmail] at h ⊢
  rcases (k.mailing op).mail_cases now outcome m with ⟨_, hfailed⟩ | ⟨hconnected, hsent⟩
  · rw [hfailed] at h
    cases h
  · rw [hsent, ← k.mailing_interval op]
    exact ⟨hconnected, rfl⟩

theorem Keeps.mailing (h : k.Keeps interval last) (op : Operation) :
    (k.mailing op).Keeps interval last := by
  cases op with
  | sendKeepAlive outcome =>
      refine ⟨h.fixed, ?_, ?_⟩
      · intro harmed
        cases harmed
      · intro due hdue
        cases hdue
  | _ => exact h

theorem operate_interval (k : Keeper) (now : Instant) (op : Operation) :
    (k.operate now op).2.interval = k.interval := by
  cases hop : op.isSend with
  | false => cases op <;> first | rfl | cases hop
  | true =>
      obtain ⟨outcome, m, hmail⟩ := operate_eq_mail hop k now
      rw [hmail, ← k.mailing_interval op]
      rcases (k.mailing op).mail_cases now outcome m with ⟨_, hfailed⟩ | ⟨_, hsent⟩
      · rw [hfailed]
      · rw [hsent]

theorem Keeps.operate (h : k.Keeps interval last) (now : Instant) (op : Operation) :
    (k.operate now op).2.Keeps interval (k.lastSend last now op) := by
  unfold lastSend
  cases hop : op.isSend with
  | false =>
      -- without a send the connection is let go of or replaced, and the deadline taken back
      have hidle : (k.operate now op).2.keepAlive.due? = none := by
        cases op <;> first | rfl | cases hop
      refine ⟨(k.operate_interval now op).trans h.fixed, ?_, ?_⟩
      · rw [Deadline.isArmed, hidle]
        intro harmed
        cases harmed
      · intro due hdue
        cases hidle.symm.trans hdue
  | true =>
      rw [if_pos rfl]
      cases hresult : (k.operate now op).1 with
      | error e =>
          rw [operate_of_error hresult]
          exact h.mailing op
      | ok _ =>
          obtain ⟨hconnected, hset⟩ := operate_of_ok hop hresult
          refine ⟨(k.operate_interval now op).trans h.fixed, fun _ => hconnected, ?_⟩
          intro due hdue
          refine ⟨now, rfl, ?_⟩
          rw [← h.fixed]
          exact (Option.some.inj (hset.symm.trans hdue)).symm

theorem Keeps.operateAll (h : k.Keeps interval last) (ops : List (Instant × Operation)) :
    (k.operateAll ops).Keeps interval (k.lastSendOver last ops) := by
  induction ops generalizing k last with
  | nil => exact h
  | cons x ops ih => exact ih (h.operate x.1 x.2)

end Operations

end Keeper

/-! ## Clients -/

/-- When something last went out on the connection that was opened last, and which one that is, if
it was `last` before an effect. -/
def noteSend (last : Option (Instant × ConnectionId)) :
    Instant × Effect → Option (Instant × ConnectionId)
  | (_, .opened _) => none
  | (t, .sent id ..) => some (t, id)
  | _ => last

namespace Run

/-- When something last went out on the connection that was opened last, and which one that is. -/
def lastSend (r : Run) : Option (Instant × ConnectionId) :=
  r.trace.foldl noteSend none

/-- On a connection the deadline for a keep-alive is set for the interval after the last send. -/
structure Paced (config : ClientConfig) (r : Run) : Prop where
  interval : r.keeper.interval = config.validated.keepAliveInterval
  pace : ∀ id, r.keeper.connection = some id → ∃ t, r.lastSend = some (t, id) ∧
    r.keeper.keepAlive.due? = some (t + config.validated.keepAliveInterval.nanos)

section Stretches

variable {r r' : Run} {m : Moment} {s : Stimulus} {config : ClientConfig} {id : ConnectionId}
  {P : ClientMessage → Prop} {es : List Effect}

theorem foldl_noteSend (last : Option (Instant × ConnectionId)) {added : List (Instant × Effect)}
    (h : ∀ x ∈ added, x.2.isIdle = true) : added.foldl noteSend last = last := by
  induction added with
  | nil => rfl
  | cons x added ih =>
      have hx := h x List.mem_cons_self
      have hkept : noteSend last x = last := by
        obtain ⟨t, e⟩ := x
        cases e <;> first | rfl | cases hx
      rw [List.foldl_cons, hkept]
      exact ih fun y hy => h y (List.mem_cons_of_mem _ hy)

/-- Where nothing goes out the last send stays what it was. -/
theorem Deals.lastSend_eq (h : Deals r r' es) (hes : ∀ e ∈ es, e.isIdle = true) :
    r'.lastSend = r.lastSend := by
  obtain ⟨added, htrace, rfl⟩ := h
  unfold lastSend
  rw [htrace, List.foldl_append]
  refine foldl_noteSend _ fun x hx => ?_
  cases hdealing : x.2.isDealing with
  | true => exact hes _ (List.mem_filter.mpr ⟨List.mem_map_of_mem hx, hdealing⟩)
  | false =>
      -- what is idle or not can be seen from the dealings alone
      cases he : x.2 <;> rw [he] at hdealing <;> first | rfl | cases hdealing

theorem sent_lastSend (r : Run) (id : ConnectionId) (m : ClientMessage) :
    (r.sent id m).lastSend = some (r.now, id) := by
  simp [lastSend, sent, log, noteSend, Effect.sentOn]

theorem paced_of_gone (interval : r.keeper.interval = config.validated.keepAliveInterval)
    (hgone : r.keeper.connection = none) : r.Paced config :=
  ⟨interval, fun id hid => by cases hgone.symm.trans hid⟩

/-- A stretch that leaves the keeper alone and over which nothing goes out. -/
theorem Paced.after (h : r.Paced config) (hdeals : Deals r r' es)
    (hes : ∀ e ∈ es, e.isIdle = true) (hkeeper : r'.keeper = r.keeper) : r'.Paced config := by
  refine ⟨by rw [hkeeper]; exact h.interval, ?_⟩
  rw [hkeeper, hdeals.lastSend_eq hes]
  exact h.pace

/-- Whatever was the case before, a send sets the deadline. -/
theorem paced_of_sent (interval : r.keeper.interval = config.validated.keepAliveInterval)
    (hid : r.keeper.connection = some id) (m : ClientMessage) : (r.sent id m).Paced config := by
  refine ⟨interval, fun id' hid' => ⟨r.now, ?_, ?_⟩⟩
  · obtain rfl := Option.some.inj (hid.symm.trans hid')
    exact r.sent_lastSend id m
  · rw [← interval]
    rfl

theorem connectionLost_paced (interval : r.keeper.interval = config.validated.keepAliveInterval)
    (before : SessionState) : (r.connectionLost before).Paced config := by
  refine paced_of_gone ?_ (r.connectionLost_gone before)
  rw [connectionLost_toClient]
  exact interval

theorem Talks.paced (h : Talks P r r') (hr : r.Paced config) : r'.Paced config := by
  induction h with
  | silent => exact hr
  | said _ hid _ ih => exact paced_of_sent ih.interval hid _
  | noted _ he ih => exact ih.after (log_deals _ _) (Effect.isIdle_of_isNote he) rfl
  | lost _ before ih => exact connectionLost_paced ih.interval before
  | putOff _ ih =>
      refine ih.after (armFlushRetry_deals _) (by simp) ?_
      rw [armFlushRetry_toClient]
  | packed _ outbox ih => exact ih.after (.of_trace_eq rfl) (by simp) rfl

/-- The hello sets the deadline for the first time. -/
theorem resumed_paced (interval : r.keeper.interval = config.validated.keepAliveInterval) :
    r.resumed.Paced config := by
  have hid : r.attached.keeper.connection = some r.nextId := by simp [Keeper.attach]
  have hinterval : r.attached.keeper.interval = config.validated.keepAliveInterval := by
    rw [attached_toClient]
    exact interval
  let greeted := r.attached.sent r.nextId r.machine.hello
  have hgreeted : greeted.Paced config := paced_of_sent hinterval hid r.machine.hello
  have hsynced : Run.Paced config { greeted with typing := greeted.typing.sync.2 } :=
    hgreeted.after (.of_trace_eq rfl) (by simp) rfl
  have htold := told_talks (r := greeted) hid
  exact htold.paced hsynced

/-- The deadline is taken back before the keep-alive is sent. If that fails, the connection is
lost. -/
theorem Sending.paced {ok : Bool}
    (h : Sending { r with keeper := r.keeper.heard } .keepAlive (ok, r'))
    (interval : r.keeper.interval = config.validated.keepAliveInterval) : r'.Paced config := by
  cases h with
  | out hid => exact paced_of_sent interval hid _
  | unconnected hnone => exact paced_of_gone interval hnone
  | unwritable he =>
      obtain ⟨frame, hframe, _⟩ := ClientMessage.Fits.encodes (m := .keepAlive) trivial
      cases he.symm.trans hframe
  | @lost _ e _ =>
      have hnoted : (Run.log { r with keeper := r.keeper.heard }
          (.unsent .keepAlive (.link e))).keeper.interval =
            config.validated.keepAliveInterval := interval
      exact connectionLost_paced hnoted _

theorem Reacting.paced (h : Reacting r s r') (hs : s ≠ .due .keepAlive) (hr : r.Paced config) :
    r'.isFinished = true ∨ r'.Paced config := by
  have hnoted := hr.after (.of_trace_eq (r.noting_trace s)) (by simp) (r.noting_keeper hs)
  cases h with
  | talked _ htalks => exact .inr (htalks.paced hnoted)
  | opened _ ho =>
      rcases ho.talks (P := fun _ => True) (by simp) (by simp) with hgone | htalks
      · have hinterval := ho.unmoved.interval.trans hnoted.interval
        exact hgone.imp id (paced_of_gone hinterval)
      · exact .inr (htalks.paced (resumed_paced hnoted.interval))
  | @forwarded _ m machine _ _ _ heq =>
      have hheard : Deals r { r with machine } [] := .of_trace_eq rfl
      have happlied := hheard.after (applyMessage_deals _ m)
      rw [heq]
      refine .inr (hr.after (happlied.before (reportState_deals _ _)) (by simp) ?_)
      rw [reportState_toClient, applyMessage_toClient]
  | reconnecting _ heq =>
      rw [heq]
      refine .inr (paced_of_gone ?_ ?_)
      · rw [connect_toClient]
        exact hr.interval
      · rw [connect_toClient]
        rfl
  | quietened _ heq =>
      have hcleared : Deals r
          { r with shoutClear := r.shoutClear.cancel, board := r.board.clearShout.1 } [] :=
        .of_trace_eq rfl
      rw [heq]
      refine .inr (hr.after (hcleared.after (reportBoard_deals _ _)) (by simp) ?_)
      rw [reportBoard_toClient]
  | ended _ hdone _ _ => exact .inl hdone

theorem Handling.paced (h : Handling r s r') (hr : r.Paced config) :
    r'.isFinished = true ∨ r'.Paced config := by
  by_cases hs : s = .due .keepAlive
  · subst hs
    cases h with
    | cutOff _ hinbound _ => cases hinbound
    | keptAlive hsend => exact .inr (hsend.paced hr.interval)
  · exact h.reacting.paced hs hr

end Stretches

/-! ## Lives -/

section Lives

variable {r : Run} {m : Moment} {config : ClientConfig} {ms : List Moment} {id : ConnectionId}

theorem start_paced (config : ClientConfig) : (start config).Paced config := by
  refine paced_of_gone ?_ ?_
  · rw [start, connect_toClient]
    rfl
  · rw [start, connect_toClient]
    rfl

theorem meet_paced (hgoing : (r.meet m).isFinished = false) (hr : r.Paced config) :
    (r.meet m).Paced config := by
  have harrived : (r.arrive m).Paced config := hr.after (r.arrive_deals m) (by simp) rfl
  have hcases := going_cases hgoing
  generalize r.meet m = r' at hgoing hcases ⊢
  cases hcases with
  | refused reason _ => exact harrived.after (answer_deals _ _) (by simp) rfl
  | unheard _ _ => exact harrived
  | handled _ _ hhandle =>
      refine (hhandle.paced harrived).resolve_left fun hdone => ?_
      cases hdone.symm.trans hgoing

theorem play_paced (hgoing : (play config ms).isFinished = false) :
    (play config ms).Paced config :=
  follow_induction (fun _ _ hgoing hr => meet_paced hgoing hr) hgoing (start_paced config)

/-- A deadline for which nothing is heard yet. -/
theorem meet_of_early (hm : m.stimulus = .due .keepAlive)
    (hearly : r.keeper.keepAlive.isDue (r.now + m.wait) = false) :
    (r.meet m).toClient = r.toClient ∧ r.dealings m = [] := by
  have hnone := unreached_of_early hm hearly
  rcases r.meet_reached m with ⟨_, hsame, hdeals⟩ | ⟨s, _, hs, _⟩
  · exact ⟨hsame, hdeals.dealings_eq⟩
  · cases hnone.symm.trans hs

/-- When the deadline is due a keep-alive goes out, or the connection is lost over it. -/
theorem dealings_of_keepAlive (hgoing : r.isFinished = false) (hm : m.stimulus = .due .keepAlive)
    (hid : r.keeper.connection = some id)
    (hdue : r.keeper.keepAlive.isDue (r.now + m.wait) = true) :
    r.dealings m = match m.uplink.outcome with
      | .ok () => [.sentOn id .keepAlive]
      | .error e => [.unsent .keepAlive (.link e), .dropped id] := by
  have hs := reached?_eq hgoing (heard?_eq_due_iff.mpr hm) hdue
  have hclosing := closing_of_reached? hs
  let waiting : Run := { r.arrive m with keeper := r.keeper.heard }
  have hwaiting : Deals r waiting [] := (r.arrive_deals m).before (.of_trace_eq rfl)
  have hline : waiting.keeper.connection = some id := hid
  obtain ⟨frame, hframe, _⟩ := ClientMessage.Fits.encodes (m := .keepAlive) trivial
  have hsend : (r.arrive m).handle (.due .keepAlive) = match m.uplink.outcome with
      | .ok () => waiting.sent id .keepAlive
      | .error e => (waiting.log (.unsent .keepAlive (.link e))).connectionLost
          waiting.machine.state := by
    show (waiting.send .keepAlive).2 = _
    rw [send, post_of_connection hline hframe]
    show _ = match waiting.uplink.outcome with
      | .ok () => _
      | .error e => _
    cases waiting.uplink.outcome <;> rfl
  rw [hsend] at hclosing
  cases houtcome : m.uplink.outcome with
  | ok _ =>
      rw [houtcome] at hclosing
      -- a client that could send is still under way
      have hmeet := hclosing.eq_of_going (hclosing.isFinished_eq.trans hgoing)
      rw [Deals.dealings_eq]
      rw [hmeet]
      exact hwaiting.after (sent_deals _ _ _)
  | error e =>
      rw [houtcome] at hclosing
      have hclosed : Deals _ (r.meet m) [] :=
        .of_trace_eq (hclosing.trace_eq (connectionLost_gone _ _))
      have hunsent := waiting.log_deals_of_isDealing (e := .unsent .keepAlive (.link e)) rfl
      have hlost := hunsent.trans (connectionLost_deals _ waiting.machine.state)
      rw [((hwaiting.after hlost).before hclosed).dealings_eq]
      simp [dropping, hline]

/-- Nothing but the deadline for it has a keep-alive sent. -/
theorem keepAlive_of_mem_dealings {frame : List UInt8} (htidy : r.Tidy)
    (he : .sent id .keepAlive frame ∈ r.dealings m) :
    m.stimulus = .due .keepAlive ∧ r.keeper.connection = some id ∧
      r.keeper.keepAlive.isDue (r.now + m.wait) = true := by
  obtain ⟨hs, hline⟩ := occasion_of_mem_dealings htidy.chats he rfl
  have hm := heard?_eq_due_iff.mp (heard?_of_reached? hs)
  exact ⟨hm, hline, (isEnabled_of_reached? hs).2⟩

end Lives

/-- Whatever is done with a keeper, it has its deadline set on a connection only, and for the
interval after the last send that succeeded on the connection at hand. A send that fails leaves the
keeper as it was when the message was handed to it.

In every life, between any two moments, a client that is not finished has the deadline set just as
long as it has a connection, for the interval after it last sent something on that very connection.
Before it is due nothing comes of it, and when it is due a keep-alive goes out, or the connection is
lost over it. Every keep-alive that goes out is such a one. -/
theorem kept_alive (interval : Duration) (ops : List (Instant × Keeper.Operation))
    (config : ClientConfig) (ms : List Moment) :
    (({ interval } : Keeper).operateAll ops).Keeps interval
      (({ interval } : Keeper).lastSendOver none ops) ∧
    (∀ now op e, ((({ interval } : Keeper).operateAll ops).operate now op).1 = .error e →
      ((({ interval } : Keeper).operateAll ops).operate now op).2 =
        (({ interval } : Keeper).operateAll ops).mailing op) ∧
    ((play config ms).isFinished = false →
      ((play config ms).keeper.keepAlive.isArmed = true ↔
        (play config ms).keeper.isConnected = true) ∧
      ∀ id, (play config ms).keeper.connection = some id →
        ∃ t, (play config ms).lastSend = some (t, id) ∧
          (play config ms).keeper.keepAlive.due? =
            some (t + config.validated.keepAliveInterval.nanos) ∧
          ∀ m, m.stimulus = .due .keepAlive →
            ((play config ms).now + m.wait < t + config.validated.keepAliveInterval.nanos →
              ((play config ms).meet m).toClient = (play config ms).toClient ∧
                (play config ms).dealings m = []) ∧
            (t + config.validated.keepAliveInterval.nanos ≤ (play config ms).now + m.wait →
              (play config ms).dealings m = match m.uplink.outcome with
                | .ok () => [.sentOn id .keepAlive]
                | .error e => [.unsent .keepAlive (.link e), .dropped id])) ∧
    (∀ m id frame, .sent id .keepAlive frame ∈ (play config ms).dealings m →
      m.stimulus = .due .keepAlive ∧ (play config ms).keeper.connection = some id ∧
        ∃ t, (play config ms).lastSend = some (t, id) ∧
          t + config.validated.keepAliveInterval.nanos ≤ (play config ms).now + m.wait) := by
  have hfresh : ({ interval } : Keeper).Keeps interval none := by
    refine ⟨rfl, ?_, ?_⟩
    · intro harmed
      cases harmed
    · intro due hdue
      cases hdue
  refine ⟨hfresh.operateAll ops, fun now op e => Keeper.operate_of_error, ?_, ?_⟩
  · intro hgoing
    have hpaced := play_paced hgoing
    obtain ⟨p, hp⟩ := play_sound config ms hgoing
    refine ⟨⟨fun harmed => hp.installed.mpr (hp.keepAlive harmed), ?_⟩, ?_⟩
    · intro hline
      obtain ⟨id, hid⟩ := exists_connection hline
      obtain ⟨t, _, hset⟩ := hpaced.pace id hid
      rw [Deadline.isArmed, hset]
      rfl
    · intro id hid
      obtain ⟨t, hlast, hset⟩ := hpaced.pace id hid
      refine ⟨t, hlast, hset, fun m hm => ⟨fun hearly => ?_, fun hdue => ?_⟩⟩
      · exact meet_of_early hm (by simpa [Deadline.isDue, hset] using hearly)
      · exact dealings_of_keepAlive hgoing hm hid (Deadline.isDue_of_le hset hdue)
  · intro m id frame he
    have hgoing := isFinished_of_mem_dealings he
    obtain ⟨hm, hid, hdue⟩ := keepAlive_of_mem_dealings (play_tidy hgoing) he
    obtain ⟨t, hlast, hset⟩ := (play_paced hgoing).pace id hid
    refine ⟨hm, hid, t, hlast, ?_⟩
    simpa [Deadline.isDue, hset] using hdue

/-- A keeper whose last send is refused, and a client that says nothing after its hello. -/
theorem kept_alive_idle :
    let ops : List (Instant × Keeper.Operation) :=
      [(5, .attach ⟨1⟩), (7, .send .startTyping (.ok ()))]
    let refused : Keeper.Operation := .send .stopTyping (.error (.sendFailed "server gone"))
    let tick : Moment := { wait := 150_000_000_000, stimulus := .due .keepAlive }
    ((({ interval := .ofSecs 1 } : Keeper).operateAll ops).operate 9 refused).1 =
      .error (.link (.sendFailed "server gone")) ∧
    ((({ interval := .ofSecs 1 } : Keeper).operateAll ops).operate 9 refused).2.keepAlive.due? =
      some 1_000_000_007 ∧
    (play {} [{ stimulus := .connected }]).isFinished = false ∧
    (play {} [{ stimulus := .connected }]).keeper.connection = some ⟨1⟩ ∧
    (play {} [{ stimulus := .connected }]).lastSend = some (0, ⟨1⟩) ∧
    (play {} [{ stimulus := .connected }]).dealings tick = [.sentOn ⟨1⟩ .keepAlive] ∧
    ∃ t, (play {} [{ stimulus := .connected }]).lastSend = some (t, ⟨1⟩) ∧
      t + (ClientConfig.validated {}).keepAliveInterval.nanos ≤
        (play {} [{ stimulus := .connected }]).now + tick.wait := by
  intro ops refused tick
  obtain ⟨_, hrefused, hgoing, hsent⟩ :=
    kept_alive (.ofSecs 1) ops {} [{ stimulus := .connected }]
  have hid : (play {} [{ stimulus := .connected }]).keeper.connection = some ⟨1⟩ := by
    decide +kernel
  have hlast : (play {} [{ stimulus := .connected }]).lastSend = some (0, ⟨1⟩) := by
    decide +kernel
  have herror : ((({ interval := .ofSecs 1 } : Keeper).operateAll ops).operate 9 refused).1 =
      .error (.link (.sendFailed "server gone")) := rfl
  obtain ⟨_, hpace⟩ := hgoing (by decide +kernel)
  obtain ⟨t, hlast', _, hticks⟩ := hpace _ hid
  obtain ⟨rfl, _⟩ := Prod.mk.inj (Option.some.inj (hlast.symm.trans hlast'))
  have hticked := (hticks tick rfl).2 (by decide +kernel)
  obtain ⟨_, _, hidle⟩ := hsent tick ⟨1⟩ _ (by rw [hticked]; exact List.mem_singleton.mpr rfl)
  refine ⟨herror, ?_, by decide +kernel, hid, hlast, hticked, hidle⟩
  rw [hrefused 9 refused _ herror]
  decide +kernel

end Run

end TileRoom
