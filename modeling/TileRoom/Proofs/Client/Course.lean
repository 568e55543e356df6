import TileRoom.Proofs.Client.Delivery
import TileRoom.Proofs.Session.Budget

/-!
# What a moment means for the connection

A connection can be lost in many places: an attempt fails, the server goes away or breaks the
protocol, or one of the messages that a reaction sends is refused. `Handling.course` says that
every reaction that meets with a loss reports it to the session exactly once and does nothing
more, and `meet_passing` says the same of a whole moment. What the session goes through otherwise
is given as a list of operations.
-/

namespace TileRoom

/-- Whether a message was refused by its connection. The farewell is none: when it is said the
session is over. -/
def Effect.isRefusal : Effect → Bool
  | .unsent m e => m ≠ .leave && e.isLink
  | _ => false

theorem ClientMessage.IsTyping.ne_leave {m : ClientMessage} (h : m.IsTyping) : m ≠ .leave := by
  rcases h with rfl | rfl
  · decide
  · decide

theorem Machine.hello_ne_leave (m : Machine) : m.hello ≠ .leave := by
  unfold Machine.hello
  split <;> simp

/-- When to try again if a connection is lost at `now`. -/
def Retry.due? (now : Instant) : Retry → Option Instant
  | .after delay => some (now + delay.nanos)
  | .giveUp => none

namespace Run

/-! ## Steady stretches -/

/-- `r'` came from `r` without an attempt to connect, and `n` messages were refused. -/
def Refuses (n : Nat) (r r' : Run) : Prop :=
  ∃ es, Deals r r' es ∧ es.countP Effect.isRefusal = n ∧ .attempted ∉ es

section Refuses

variable {r r' r₁ r₂ r₃ : Run} {a b : Nat}

theorem Refuses.trans (h : Refuses a r₁ r₂) (h' : Refuses b r₂ r₃) : Refuses (a + b) r₁ r₃ := by
  obtain ⟨es, hdeals, hes, hquiet⟩ := h
  obtain ⟨fs, hdeals', hfs, hquiet'⟩ := h'
  refine ⟨es ++ fs, hdeals.trans hdeals', ?_, ?_⟩
  · rw [List.countP_append, hes, hfs]
  · intro he
    rcases List.mem_append.mp he with he | he
    · exact hquiet he
    · exact hquiet' he

/-- Where no message was to be sent none was refused. -/
theorem Utters.refuses {c : Option ConnectionId} (h : Utters c (fun _ => False) r r') :
    Refuses 0 r r' := by
  obtain ⟨es, hdeals, hes⟩ := h
  refine ⟨es, hdeals, ?_, ?_⟩
  · rw [List.countP_eq_zero]
    intro e he hrefusal
    cases e with
    | unsent m reason => exact (hes _ he).utters m rfl
    | _ => cases hrefusal
  · intro he
    cases (hes _ he).quiet

theorem Deals.refuses (h : Deals r r' []) : Refuses 0 r r' :=
  (h.utters (c := none)).refuses

@[simp] theorem countP_dropping (r : Run) : r.dropping.countP Effect.isRefusal = 0 := by
  simp [dropping, List.countP_eq_zero, Effect.isRefusal]

@[simp] theorem count_dropping (r : Run) : r.dropping.count .attempted = 0 := by
  simp [dropping, List.count_eq_zero]

theorem log_refuses (r : Run) {e : Effect} (he : e.isDealing = true) (hstart : e.isStart = false) :
    Refuses (if e.isRefusal then 1 else 0) r (r.log e) := by
  refine ⟨[e], r.log_deals_of_isDealing he, by simp [List.countP_cons], ?_⟩
  intro hmem
  rw [← List.mem_singleton.mp hmem] at hstart
  cases hstart

end Refuses

/-- Between `r` and `r'` no connection was lost and no attempt was started, and the session went
through `ops`. -/
structure Steady (ops : List Machine.Operation) (r r' : Run) : Prop where
  machine : r'.machine = r.machine.operateAll ops
  reconnect : r'.reconnect = r.reconnect
  now : r'.now = r.now
  refuses : Refuses 0 r r'

section Steady

variable {r r' r₁ r₂ r₃ : Run} {ops ops' : List Machine.Operation}

theorem Steady.trans (h : Steady ops r₁ r₂) (h' : Steady ops' r₂ r₃) :
    Steady (ops ++ ops') r₁ r₃ where
  machine := by
    rw [h'.machine, h.machine]
    exact List.foldl_append.symm
  reconnect := h'.reconnect.trans h.reconnect
  now := h'.now.trans h.now
  refuses := h.refuses.trans h'.refuses

theorem Steady.after (h : Steady [] r₁ r₂) (h' : Steady ops r₂ r₃) : Steady ops r₁ r₃ :=
  h.trans h'

theorem Steady.before (h : Steady ops r₁ r₂) (h' : Steady [] r₂ r₃) : Steady ops r₁ r₃ := by
  simpa using h.trans h'

/-- A stretch that is no dealing of the client with the server. -/
theorem Deals.steady (h : Deals r r' []) (machine : r'.machine = r.machine.operateAll ops)
    (reconnect : r'.reconnect = r.reconnect) (now : r'.now = r.now) : Steady ops r r' :=
  ⟨machine, reconnect, now, h.refuses⟩

/-- A change of what has no say in connections. -/
theorem Steady.of_eq (machine : r'.machine = r.machine.operateAll ops)
    (reconnect : r'.reconnect = r.reconnect) (now : r'.now = r.now) (trace : r'.trace = r.trace) :
    Steady ops r r' :=
  (Deals.of_trace_eq trace).steady machine reconnect now

theorem Steady.refl (r : Run) : Steady [] r r :=
  .of_eq rfl rfl rfl rfl

theorem answer_steady (r : Run) (a : Answer) : Steady [] r (r.answer a) :=
  (r.answer_deals a).steady rfl rfl rfl

theorem reportState_now (r : Run) (before : SessionState) : (r.reportState before).now = r.now := by
  unfold reportState
  split
  · rfl
  · dsimp only
    split <;> rfl

theorem reportState_steady (r : Run) (before : SessionState) :
    Steady [] r (r.reportState before) := by
  refine (r.reportState_deals before).steady ?_ ?_ (r.reportState_now before)
  · rw [reportState_toClient]
    rfl
  · rw [reportState_toClient]

theorem unsent_steady (r : Run) {m : ClientMessage} {e : ClientError}
    (h : (Effect.unsent m e).isRefusal = false) : Steady [] r (r.log (.unsent m e)) := by
  have hrefuses := r.log_refuses (e := .unsent m e) rfl rfl
  rw [h] at hrefuses
  exact ⟨rfl, rfl, rfl, hrefuses⟩

theorem unsent_steady_of_isLink (r : Run) (m : ClientMessage) {e : ClientError}
    (he : e.isLink = false) : Steady [] r (r.log (.unsent m e)) :=
  r.unsent_steady (by simp [Effect.isRefusal, he])

theorem sentAll_steady (r : Run) (id : ConnectionId) (ms : List ClientMessage) :
    Steady [] r (r.sentAll id ms) := by
  refine ⟨?_, ?_, r.sentAll_now id ms, _, r.sentAll_deals id ms, ?_, ?_⟩
  · rw [sentAll_toClient]
    rfl
  · rw [sentAll_toClient]
  · simp [List.countP_eq_zero, Effect.sentOn, Effect.isRefusal]
  · simp [Effect.sentOn]

theorem sent_steady (r : Run) (id : ConnectionId) (m : ClientMessage) :
    Steady [] r (r.sent id m) :=
  r.sentAll_steady id [m]

theorem armFlushRetry_steady (r : Run) : Steady [] r r.armFlushRetry := by
  refine r.armFlushRetry_deals.steady ?_ ?_ ?_
  · rw [armFlushRetry_toClient]
    rfl
  · rw [armFlushRetry_toClient]
  · unfold armFlushRetry
    split <;> rfl

theorem attached_steady (r : Run) : Steady [.connected] r r.attached := by
  refine ⟨?_, ?_, r.attached_now, _, r.attached_deals, ?_, ?_⟩
  · rw [attached_toClient]
    rfl
  · rw [attached_toClient]
  · simp [Effect.isRefusal]
  · simp [dropping]

theorem told_steady (r : Run) (id : ConnectionId) : Steady [] r (r.told id).takeHeld := by
  have hsync : Steady [] r { r with typing := r.typing.sync.2 } := .of_eq rfl rfl rfl rfl
  have htold : Steady [] r (r.told id) := hsync.after (sentAll_steady _ id _)
  exact htold.before (.of_eq rfl rfl rfl rfl)

end Steady

/-! ## Losses -/

/-- Between `r` and `r'` a connection was lost and nothing else came of it. -/
structure Loses (n : Nat) (r r' : Run) : Prop where
  machine : r'.machine = r.machine.connectionLost.2
  due : r'.reconnect.due? = r.machine.connectionLost.1.due? r.now
  armed : ∀ due ∈ r'.reconnect.due?, (r.now, .armed .reconnect due) ∈ r'.trace
  refuses : Refuses n r r'

section Losses

variable {r r' r₁ r₂ r₃ : Run} {n : Nat} {id : ConnectionId} {ok : Bool}

theorem Refuses.mem_trace (h : Refuses n r r') {x : Instant × Effect} (hx : x ∈ r.trace) :
    x ∈ r'.trace := by
  obtain ⟨_, ⟨added, htrace, _⟩, _⟩ := h
  rw [htrace]
  exact List.mem_append_left _ hx

theorem Loses.after (h : Steady [] r₁ r₂) (h' : Loses n r₂ r₃) : Loses n r₁ r₃ where
  machine := by
    rw [h'.machine, h.machine]
    rfl
  due := by
    rw [h'.due, h.machine, h.now]
    rfl
  armed := by
    rw [← h.now]
    exact h'.armed
  refuses := by simpa using h.refuses.trans h'.refuses

theorem Loses.before (h : Loses n r₁ r₂) (h' : Steady [] r₂ r₃) : Loses n r₁ r₃ where
  machine := h'.machine.trans h.machine
  due := by rw [h'.reconnect, h.due]
  armed := by
    rw [h'.reconnect]
    intro due hdue
    exact h'.refuses.mem_trace (h.armed due hdue)
  refuses := h.refuses.trans h'.refuses

theorem connectionLost_loses (r : Run) (before : SessionState) :
    Loses 0 r (r.connectionLost before) where
  machine := by rw [connectionLost_toClient]
  due := by
    rw [connectionLost_toClient]
    cases r.machine.connectionLost.1 <;> rfl
  armed := by
    rw [connectionLost_toClient]
    intro due hdue
    unfold connectionLost
    rcases hlost : r.machine.connectionLost with ⟨retry, machine⟩
    cases retry with
    | giveUp =>
        rw [hlost] at hdue
        cases hdue
    | after delay =>
        rw [hlost] at hdue
        obtain rfl := Option.some.inj hdue
        simp only [release_toClient, hlost]
        -- what is reported after the deadline is set stands behind it in the trace
        refine ((reportConnection_deals _).before (reportState_deals _ _)).refuses.mem_trace ?_
        simp [armReconnect, log]
  refuses := (connectionLost_utters (c := none) r before).refuses

/-- A refused message costs the connection. -/
theorem refused_loses (r : Run) {m : ClientMessage} (hm : m ≠ .leave) (e : LinkError)
    (before : SessionState) :
    Loses 1 r ((r.log (.unsent m (.link e))).connectionLost before) := by
  have hrefusal : (Effect.unsent m (.link e)).isRefusal = true := by
    simp [Effect.isRefusal, ClientError.isLink, hm]
  have hlog := r.log_refuses (e := .unsent m (.link e)) rfl rfl
  rw [hrefusal] at hlog
  have hlost := connectionLost_loses (r.log (.unsent m (.link e))) before
  exact ⟨hlost.machine, hlost.due, hlost.armed, hlog.trans hlost.refuses⟩

/-- What sending can cost. -/
inductive Toll (r r' : Run) : Prop
  | free (h : Steady [] r r')
  | connection (h : Loses 1 r r')

theorem Toll.after (h : Steady [] r₁ r₂) (h' : Toll r₂ r₃) : Toll r₁ r₃ := by
  cases h' with
  | free h' => exact .free (h.after h')
  | connection h' => exact .connection (.after h h')

theorem Sending.toll {m : ClientMessage} (h : Sending r m (ok, r')) (hm : m ≠ .leave) :
    Toll r r' := by
  cases h with
  | out _ => exact .free (r.sent_steady _ m)
  | unconnected _ => exact .free (r.unsent_steady_of_isLink m rfl)
  | unwritable _ => exact .free (r.unsent_steady_of_isLink m rfl)
  | lost _ => exact .connection (r.refused_loses hm _ _)

theorem Bursting.toll {ms : List ClientMessage} (h : Bursting r id ms (ok, r'))
    (hms : ∀ m ∈ ms, m ≠ .leave) : Toll r r' := by
  cases h with
  | out => exact .free (r.sentAll_steady id ms)
  | kept before m rest e heq _ =>
      exact .free ((r.sentAll_steady id before).before (unsent_steady_of_isLink _ m rfl))
  | lost before m rest e heq =>
      have hm : m ≠ .leave := hms m (by simp [heq])
      exact .connection (.after (r.sentAll_steady id before) (refused_loses _ hm e _))

theorem Flushing.toll (h : Flushing r r') : Toll r r' := by
  cases h with
  | unconnected _ => exact .free (.refl r)
  | idle _ => exact .free (.refl r)
  | deferred _ _ _ => exact .free r.armFlushRetry_steady
  | burst _ _ _ hburst =>
      have htake : Steady [] r r.takeDirty := .of_eq rfl rfl rfl rfl
      refine .after htake (hburst.toll ?_)
      intro m hm
      obtain ⟨tile, x, y, rfl, _⟩ := Outbox.mem_moves hm
      intro heq
      cases heq

theorem HoldsChats.ne_leave (h : r.HoldsChats) : ∀ m ∈ r.outbox.held, m ≠ .leave := by
  rintro m hm rfl
  exact absurd (h _ hm) (by decide)

theorem Resuming.toll (h : Resuming r id r') (hheld : ∀ m ∈ r.outbox.held, m ≠ .leave) :
    Toll r r' := by
  cases h with
  | untold hburst =>
      have hsync : Steady [] r { r with typing := r.typing.sync.2 } := .of_eq rfl rfl rfl rfl
      exact .after hsync (hburst.toll fun m hm => (Typing.sync_isTyping m hm).ne_leave)
  | unreplayed hburst => exact .after (r.told_steady id) (hburst.toll hheld)
  | flushed hflush =>
      exact .after (r.told_steady id) (.after (sentAll_steady _ id _) hflush.toll)

theorem Asking.toll {m : ClientMessage} {check : Except BoardError Unit}
    (h : Asking r m check r') (hm : m ≠ .leave) : Toll r r' := by
  cases h with
  | denied e => exact .free (r.answer_steady _)
  | unconnected _ =>
      exact .free ((r.unsent_steady_of_isLink m rfl).before (answer_steady _ _))
  | unwritable e _ =>
      exact .free ((r.unsent_steady_of_isLink m rfl).before (answer_steady _ _))
  | lost e _ => exact .connection ((r.refused_loses hm e _).before (answer_steady _ _))
  | out _ => exact .free ((r.sent_steady _ m).before (answer_steady _ _))

theorem Leaving.steady (h : Leaving r r') : Steady [.leave] r r' := by
  have hleft : Steady [.leave] r r.left := .of_eq rfl rfl rfl rfl
  cases h with
  | silent _ => exact hleft.before (reportState_steady _ _)
  | unsaid _ e _ =>
      have hunsent := r.left.unsent_steady (m := .leave) (e := e) rfl
      exact (hleft.before hunsent).before (reportState_steady _ _)
  | said _ _ => exact (hleft.before (sent_steady _ _ _)).before (reportState_steady _ _)

end Losses

/-! ## Stimuli -/

/-- Whether a stimulus brings an identity that the session accepts. -/
def accepts (r : Run) : Stimulus → Bool
  | .received frame =>
    match Wire.decode ServerMessage frame with
    | .ok m => r.machine.accepts m
    | .error _ => false
  | _ => false

/-- What the session can go through at a stimulus that brings no loss. -/
inductive Operating (r : Run) : Stimulus → List Machine.Operation → Prop
  | idle {s} (haccepts : r.accepts s = false) : Operating r s []
  | heard {frame m} (hdecode : Wire.decode ServerMessage frame = .ok m) :
      Operating r (.received frame) [.handle m]
  | connected : Operating r .connected [.connected]
  | rejected {e} (he : Wire.encode r.machine.hello = .error e) :
      Operating r .connected [.connected, .helloRejected e]
  | left {s} (hs : s = .requested .leave ∨ s = .abandoned) : Operating r s [.leave]

/-- What a reaction to a stimulus comes to: no loss, one loss, or an attempt to connect. -/
inductive Course (r : Run) (s : Stimulus) (r' : Run) : Prop
  | steady {ops} (h : Steady ops r r') (hloss : s.isLoss = false) (hops : r.Operating s ops)
  /-- The stimulus tells of the loss, or else a message was refused. -/
  | lost {n} (h : Loses n r r') (hn : s.isLoss.toNat + n = 1) (haccepts : r.accepts s = false)
  | attempted (hs : s = .due .reconnect) (machine : r'.machine = r.machine.connecting)
      (armed : r.reconnect.isArmed = true) (due : r'.reconnect.due? = none)
      (hdeals : Deals r r' (r.dropping ++ [.attempted]))

section Stimuli

variable {r r' r₁ : Run} {s : Stimulus}

/-- Only an identity that is accepted has a say in the count of losses. -/
theorem Operating.tallyAll {ops : List Machine.Operation} (h : r.Operating s ops) (k : Nat) :
    r.machine.tallyAll k ops = if r.accepts s then 0 else k := by
  cases h with
  | idle haccepts =>
      rw [haccepts]
      rfl
  | heard hdecode =>
      simp only [accepts, hdecode]
      rfl
  | connected => rfl
  | rejected _ => rfl
  | left hs => rcases hs with rfl | rfl <;> rfl

theorem Toll.course (h : Toll r r') (hloss : s.isLoss = false) (haccepts : r.accepts s = false) :
    Course r s r' := by
  cases h with
  | free h => exact .steady h hloss (.idle haccepts)
  | connection h => exact .lost h (by rw [hloss]; rfl) haccepts

theorem Steady.course (h : Steady [] r r') (hloss : s.isLoss = false)
    (haccepts : r.accepts s = false) : Course r s r' :=
  (Toll.free h).course hloss haccepts

/-- A message of the server, whatever the session makes of it. -/
theorem Steady.course_of_decode {frame : List UInt8} {m : ServerMessage}
    (h : Steady [.handle m] r r') (hdecode : Wire.decode ServerMessage frame = .ok m) :
    Course r (.received frame) r' := by
  refine .steady h ?_ (.heard hdecode)
  simp only [Stimulus.isLoss, hdecode]

/-- A stimulus that tells of a loss brings no identity. -/
theorem accepts_of_isLoss (r : Run) (h : s.isLoss = true) : r.accepts s = false := by
  cases s with
  | received frame =>
      cases hdecode : Wire.decode ServerMessage frame with
      | ok m =>
          simp only [Stimulus.isLoss, hdecode] at h
          cases h
      | error e => simp only [accepts, hdecode]
  | _ => rfl

theorem applyMessage_steady (r : Run) (m : ServerMessage) : Steady [] r (r.applyMessage m) := by
  refine (r.applyMessage_deals m).steady ?_ ?_ ?_
  · rw [applyMessage_toClient]
    rfl
  · rw [applyMessage_toClient]
  · unfold applyMessage
    simp only [reportBoard_eq]
    split <;> split <;> rfl

/-- That there was a connection for a moment does not matter to its loss. -/
theorem Loses.of_connected {n : Nat} (h : Steady [.connected] r r₁) (h' : Loses n r₁ r') :
    Loses n r r' where
  machine := by
    rw [h'.machine, h.machine]
    rfl
  due := by
    rw [h'.due, h.machine, h.now]
    rfl
  armed := by
    rw [← h.now]
    exact h'.armed
  refuses := by simpa using h.refuses.trans h'.refuses

/-- A new connection is lost at once, or it stays, or the hello could not be written. -/
theorem Opening.toll (h : Opening r r') (hheld : ∀ m ∈ r.outbox.held, m ≠ .leave) :
    (∃ ops, Steady ops r r' ∧ r.Operating .connected ops) ∨ Loses 1 r r' := by
  have hmachine : r.attached.machine = r.machine.connected := by rw [attached_toClient]
  cases h with
  | rejected e he =>
      have hunsent := r.attached_steady.before
        (unsent_steady_of_isLink _ r.machine.hello (e := .wire e) rfl)
      have hrejected : Steady [.helloRejected e]
          (r.attached.log (.unsent r.machine.hello (.wire e)))
          { r.attached.log (.unsent r.machine.hello (.wire e)) with
            machine := (r.machine.connected.helloRejected e).2 } := by
        refine .of_eq ?_ rfl rfl rfl
        rw [log_toClient, hmachine]
        rfl
      exact .inl ⟨_, (hunsent.trans hrejected).before (reportState_steady _ _), .rejected he⟩
  | lost e =>
      have hlost := r.attached.refused_loses r.machine.hello_ne_leave e r.machine.state
      exact .inr (.of_connected r.attached_steady hlost)
  | resumed hresume =>
      have hgreeted := r.attached_steady.before (sent_steady _ r.nextId r.machine.hello)
      have htoll := hresume.toll (by
        rw [sent_toClient, attached_toClient]
        exact hheld)
      cases htoll with
      | free h => exact .inl ⟨_, hgreeted.before h, .connected⟩
      | connection h => exact .inr (.of_connected hgreeted h)

theorem Handling.course (h : Handling r s r') (hchats : r.HoldsChats) : Course r s r' := by
  cases h with
  | opened _ ho =>
      have hset : Steady [] r { r with attempting := false } := .of_eq rfl rfl rfl rfl
      rcases ho.toll hchats.ne_leave with ⟨ops, hsteady, hops⟩ | hloses
      · refine .steady (hset.after hsteady) rfl ?_
        cases hops with
        | idle haccepts => exact .idle haccepts
        | connected => exact .connected
        | rejected he => exact .rejected he
        | left hs => rcases hs with hs | hs <;> cases hs
      · exact .lost (.after hset hloses) rfl rfl
  | unopened _ =>
      have hset : Steady [] r { r with attempting := false } := .of_eq rfl rfl rfl rfl
      exact .lost (.after hset (connectionLost_loses _ _)) rfl rfl
  | @forwarded frame m machine hdecode hhandle =>
      have hmachine : machine = (r.machine.handle m).2 := by rw [hhandle]
      have hheard : Steady [.handle m] r { r with machine } := .of_eq hmachine rfl rfl rfl
      have happlied := hheard.before (applyMessage_steady _ m)
      exact (happlied.before (reportState_steady _ _)).course_of_decode hdecode
  | @ignored frame hloss hidle =>
      -- the session was shown the message and made nothing of it, or it was not shown the frame
      cases hdecode : Wire.decode ServerMessage frame with
      | ok m =>
          have hmachine : r.machine = (r.machine.handle m).2 := by rw [hidle m hdecode]
          have hheard : Steady [.handle m] r r := .of_eq hmachine rfl rfl rfl
          exact hheard.course_of_decode hdecode
      | error e =>
          refine (Steady.refl r).course hloss ?_
          simp only [accepts, hdecode]
  | @stopped frame m reason hdecode hhandle =>
      have hmachine : (r.machine.fail reason).2 = (r.machine.handle m).2 := by rw [hhandle]
      have hheard : Steady [.handle m] r { r with machine := (r.machine.fail reason).2 } :=
        .of_eq hmachine rfl rfl rfl
      exact (hheard.before (reportState_steady _ _)).course_of_decode hdecode
  | cutOff _ hinbound hloss =>
      refine .lost (r.connectionLost_loses _) ?_ (r.accepts_of_isLoss hloss)
      rw [hloss]
      rfl
  | chat _ hsend =>
      exact Toll.course (.after (r.answer_steady _) (hsend.toll (by simp))) rfl rfl
  | held _ => exact Steady.course ((r.answer_steady .done).before (.of_eq rfl rfl rfl rfl)) rfl rfl
  | @typing value _ _ _ _ hburst =>
      have hset : Steady [] r
          { r.answer .done with typing := (r.typing.set value true).2 } :=
        (r.answer_steady .done).before (.of_eq rfl rfl rfl rfl)
      have htoll := hburst.toll fun m hm => (Typing.set_isTyping m hm).ne_leave
      exact (Toll.after hset htoll).course rfl rfl
  | untold _ =>
      exact Steady.course ((r.answer_steady .done).before (.of_eq rfl rfl rfl rfl)) rfl rfl
  | @moved tile x y _ hflush =>
      have hmarked : Steady [] r
          { r.answer .done with outbox := r.outbox.markDirty tile x y } :=
        (r.answer_steady .done).before (.of_eq rfl rfl rfl rfl)
      exact (Toll.after hmarked hflush.toll).course rfl rfl
  | turn hask => exact (hask.toll (by simp)).course rfl rfl
  | shout hask => exact (hask.toll (by simp)).course rfl rfl
  | capacity hask => exact (hask.toll (by simp)).course rfl rfl
  | snapshot => exact (r.answer_steady _).course rfl rfl
  | left hleave => exact .steady (hleave.steady.before (answer_steady _ _)) rfl (.left (.inl rfl))
  | abandoned hleave => exact .steady hleave.steady rfl (.left (.inr rfl))
  | keptAlive hsend =>
      have hheard : Steady [] r { r with keeper := r.keeper.heard } := .of_eq rfl rfl rfl rfl
      exact (Toll.after hheard (hsend.toll (by simp))).course rfl rfl
  | reconnecting harmed =>
      have hcancel : Deals r { r with reconnect := r.reconnect.cancel } [] := .of_trace_eq rfl
      refine .attempted rfl ?_ harmed ?_ (hcancel.after (connect_deals _))
      · rw [connect_toClient]
      · rw [connect_toClient]
        rfl
  | flushed hflush =>
      have hheard : Steady [] r { r with flushRetry := r.flushRetry.cancel } :=
        .of_eq rfl rfl rfl rfl
      exact (Toll.after hheard hflush.toll).course rfl rfl
  | quietened =>
      have hcleared : Steady [] r
          { r with shoutClear := r.shoutClear.cancel, board := r.board.clearShout.1 } :=
        .of_eq rfl rfl rfl rfl
      have hreport := hcleared.before ((reportBoard_deals _ r.board.clearShout.2).steady
        (by rw [reportBoard_toClient]; rfl) (by rw [reportBoard_toClient]) (by rw [reportBoard_eq]))
      exact hreport.course rfl rfl

end Stimuli

/-! ## Moments -/

/-- What reaches an unfinished client at a moment. -/
def reached? (r : Run) (m : Moment) : Option Stimulus :=
  if r.isFinished then none else m.heard?.filter (r.arrive m).isEnabled

/-- How many losses a moment brings to an unfinished session: what reaches the client tells of one,
or a message is refused. -/
def losses (r : Run) (m : Moment) : Nat :=
  ((r.reached? m).any Stimulus.isLoss).toNat + (r.dealings m).countP Effect.isRefusal

/-- Whether a moment brings an identity that the session accepts. -/
def identifies (r : Run) (m : Moment) : Bool :=
  (r.reached? m).any r.accepts

/-- How many attempts to connect have been started. -/
def tries (r : Run) : Nat :=
  r.trace.countP fun e => e.2 = .attempted

/-- Whether another attempt is to come, as a number. -/
def pending (r : Run) : Nat :=
  r.reconnect.isArmed.toNat

/-- What the session can go through at a moment that brings no loss. -/
def OperatingAt (r : Run) (m : Moment) (ops : List Machine.Operation) : Prop :=
  match r.reached? m with
  | none => ops = []
  | some s => (r.arrive m).Operating s ops

/-- What a moment comes to: no loss, one loss, or an attempt to connect. -/
inductive Passing (r : Run) (m : Moment) : Prop
  | steady (ops) (machine : (r.meet m).machine = r.machine.operateAll ops)
      (hops : r.OperatingAt m ops)
      (hlosses : r.losses m = 0) (htries : (r.meet m).tries = r.tries)
      (hpending : (r.meet m).pending ≤ r.pending)
  | lost (machine : (r.meet m).machine = r.machine.connectionLost.2)
      (due : (r.meet m).reconnect.due? =
        if (r.meet m).isFinished then none
        else r.machine.connectionLost.1.due? (r.now + m.wait))
      (armed : ∀ due ∈ (r.meet m).reconnect.due?,
        (r.now + m.wait, .armed .reconnect due) ∈ (r.meet m).trace)
      (hgoing : r.isFinished = false) (hidentifies : r.identifies m = false)
      (hlosses : r.losses m = 1) (htries : (r.meet m).tries = r.tries)
  | attempted (machine : (r.meet m).machine = r.machine.connecting)
      (hidentifies : r.identifies m = false) (hlosses : r.losses m = 0)
      (htries : (r.meet m).tries = r.tries + 1) (hbefore : r.pending = 1)
      (hafter : (r.meet m).pending = 0)

section Moments

variable {r r' : Run} {m : Moment}

theorem Deals.tries_eq {es : List Effect} (h : Deals r r' es) :
    r'.tries = r.tries + es.count .attempted := by
  obtain ⟨added, htrace, hes⟩ := h
  unfold tries
  rw [htrace, List.countP_append, ← hes, List.count_filter rfl, List.count, List.countP_map]
  rfl

theorem Refuses.tries_eq {n : Nat} (h : Refuses n r r') : r'.tries = r.tries := by
  obtain ⟨es, hdeals, _, hquiet⟩ := h
  rw [hdeals.tries_eq, List.count_eq_zero_of_not_mem hquiet, Nat.add_zero]

theorem Refuses.countP_dealings {n : Nat} (h : Refuses n r (r.meet m)) :
    (r.dealings m).countP Effect.isRefusal = n := by
  obtain ⟨es, hdeals, hes, _⟩ := h
  rw [hdeals.dealings_eq, hes]

theorem reached?_eq {s : Stimulus} (hgoing : r.isFinished = false) (hs : m.heard? = some s)
    (enabled : (r.arrive m).isEnabled s = true) : r.reached? m = some s := by
  unfold reached?
  rw [hgoing, hs]
  simp [enabled]

theorem isEnabled_of_reached? {s : Stimulus} (hs : r.reached? m = some s) :
    r.isFinished = false ∧ (r.arrive m).isEnabled s = true := by
  unfold reached? at hs
  cases hdone : r.isFinished with
  | true =>
      rw [hdone] at hs
      cases hs
  | false =>
      rw [hdone] at hs
      exact ⟨rfl, (Option.filter_eq_some_iff.mp hs).2⟩

theorem OperatingAt.tallyAll {ops : List Machine.Operation} (h : r.OperatingAt m ops) (k : Nat) :
    r.machine.tallyAll k ops = if r.identifies m then 0 else k := by
  unfold OperatingAt at h
  unfold identifies
  cases hs : r.reached? m with
  | none =>
      rw [hs] at h
      rw [h]
      rfl
  | some s =>
      rw [hs] at h
      exact Operating.tallyAll h k

/-- A moment at which nothing reaches the client. -/
theorem passing_of_deals (hnone : r.reached? m = none) (hdeals : Deals r (r.meet m) [])
    (hsame : (r.meet m).toClient = r.toClient) : r.Passing m := by
  refine .steady [] (by rw [hsame]; rfl) ?_ ?_ hdeals.refuses.tries_eq ?_
  · simp [OperatingAt, hnone]
  · simp [losses, hnone, hdeals.refuses.countP_dealings]
  · show (r.meet m).reconnect.isArmed.toNat ≤ r.reconnect.isArmed.toNat
    exact Nat.le_of_eq (by rw [hsame])

/-- What is left of a reaction: a finished client lets go of the deadline to try again. -/
structure Settles (r r' : Run) : Prop where
  machine : r'.machine = r.machine
  due : r'.reconnect.due? = if r'.isFinished then none else r.reconnect.due?
  refuses : Refuses 0 r r'

theorem settles_of_going (hgoing : r.isFinished = false) : Settles r r where
  machine := rfl
  due := by simp [hgoing]
  refuses := (Deals.refl r).refuses

theorem tearDown_settles (hdone : r.isFinished = true) : Settles r r.tearDown where
  machine := by rw [tearDown_toClient]
  due := by
    have hdone' : r.tearDown.isFinished = true := by
      rw [Client.isFinished, tearDown_toClient]
      exact hdone
    rw [hdone', tearDown_toClient]
    rfl
  refuses := (tearDown_utters (c := none) r).refuses

theorem Course.passing {s : Stimulus} (h : Course (r.arrive m) s r') (hgoing : r.isFinished = false)
    (hs : r.reached? m = some s) (hsettles : Settles r' (r.meet m)) : r.Passing m := by
  have harrive : Refuses 0 r (r.arrive m) := (r.arrive_deals m).refuses
  have hidentifies : r.identifies m = r.accepts s := by simp [identifies, hs]
  -- neither coming to the moment nor letting go after it refuses a message or starts an attempt
  have hlosses {n : Nat} (hrefuses : Refuses n (r.arrive m) r') :
      r.losses m = s.isLoss.toNat + n ∧ (r.meet m).tries = r.tries := by
    have hall := (harrive.trans hrefuses).trans hsettles.refuses
    rw [Nat.zero_add, Nat.add_zero] at hall
    refine ⟨?_, hall.tries_eq⟩
    simp [losses, hs, hall.countP_dealings]
  cases h with
  | steady hsteady hloss hops =>
      obtain ⟨hcount, htries⟩ := hlosses hsteady.refuses
      refine .steady _ (hsettles.machine.trans hsteady.machine) ?_ ?_ htries ?_
      · rw [OperatingAt, hs]
        exact hops
      · rw [hcount, hloss]
        rfl
      · unfold pending Deadline.isArmed
        rw [hsettles.due, hsteady.reconnect]
        split
        · exact Nat.zero_le _
        · exact Nat.le_refl _
  | lost hlost hn haccepts =>
      obtain ⟨hcount, htries⟩ := hlosses hlost.refuses
      refine .lost (hsettles.machine.trans hlost.machine) ?_ ?_ hgoing
        (hidentifies.trans haccepts) (hcount.trans hn) htries
      · rw [hsettles.due, hlost.due]
        rfl
      · rw [hsettles.due]
        intro due hdue
        split at hdue
        · cases hdue
        · exact hsettles.refuses.mem_trace (hlost.armed due hdue)
  | attempted heq hmachine harmed hdue hdeals =>
      obtain ⟨fs, hend, hfs, hquiet⟩ := hsettles.refuses
      have hall := ((r.arrive_deals m).after hdeals).trans hend
      refine .attempted (hsettles.machine.trans hmachine) ?_ ?_ ?_ ?_ ?_
      · rw [hidentifies, heq]
        rfl
      · simp [losses, hs, heq, Stimulus.isLoss, hall.dealings_eq, hfs, Effect.isRefusal]
      · rw [hall.tries_eq]
        simp [List.count_eq_zero_of_not_mem hquiet]
      · have harmed' : r.reconnect.isArmed = true := harmed
        rw [pending, harmed']
        rfl
      · unfold pending Deadline.isArmed
        rw [hsettles.due, hdue]
        split <;> rfl

theorem meet_passing (hchats : r.isFinished = false → r.HoldsChats) (m : Moment) :
    r.Passing m := by
  cases hdone : r.isFinished with
  | true =>
      obtain ⟨hsame, hdeals⟩ := meet_of_isFinished hdone m
      exact passing_of_deals (by simp [reached?, hdone]) hdeals hsame
  | false =>
      have hcases := meet_cases hdone m
      have harrive := r.arrive_deals m
      have hreached {s} := reached?_eq (s := s) (m := m) hdone
      have hpassing {s r'} (hr : Handling (r.arrive m) s r') := hr.course (hchats hdone)
      generalize hmeet : r.meet m = r' at hcases
      cases hcases with
      | refused reason h =>
          refine passing_of_deals ?_ ?_ ?_
          · simp [reached?, hdone, h]
          · rw [hmeet]
            exact harrive.before (answer_deals _ _)
          · rw [hmeet]
            rfl
      | unheard h hs =>
          refine passing_of_deals ?_ ?_ ?_
          · simp [reached?, hdone, h, hs]
          · rw [hmeet]
            exact harrive
          · rw [hmeet]
            rfl
      | handled h hs hr hgoing =>
          refine (hpassing hr).passing hdone (hreached h hs) ?_
          rw [hmeet]
          exact settles_of_going hgoing
      | torn h hs hr hend =>
          refine (hpassing hr).passing hdone (hreached h hs) ?_
          rw [hmeet]
          exact tearDown_settles hend

end Moments

end Run

end TileRoom
