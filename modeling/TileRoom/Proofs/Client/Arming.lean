import TileRoom.Proofs.Client.Requests
import TileRoom.Proofs.Client.Talking

/-!
# For how long deadlines are set

A client sets each of its four deadlines for a term that its settings name: three of them as they
stand there, and the delay before another attempt by its schedule (`ClientConfig.IsTerm`).
`Run.Sets` says this of a stretch of a reaction, and that whatever goes out sets the deadline for a
keep-alive; `Run.meet_sets` puts the stretches of a moment together.

Nothing bounds these terms, but a clock ends. On a stage a client breaks off just if it sets a
deadline that the clock cannot show (`ClientStage.react_broken_iff`). So it comes through every
rehearsal at the end of which the clock can still show each term (`unbroken_while_terms_shown`).
-/

namespace TileRoom

/-! ## Terms -/

/-- For how long a timer can be set with these settings. The delay before another attempt has
doubled with each of the losses before, up to its ceiling, and after the last loss there is none. -/
def ClientConfig.IsTerm (c : ClientConfig) : Timer → Nat → Prop
  | .keepAlive, term => term = c.keepAliveInterval.nanos
  | .flushRetry, term => term = c.flushRetryInterval.nanos
  | .shoutClear, term => term = c.shoutDuration.nanos
  | .reconnect, term => ∃ k, k + 1 < c.session.maxAttempts.toNat ∧
      term = min (c.session.delay.nanos * 2 ^ k) c.session.maxDelay.nanos

/-- Deadlines that are set at `now` are set for their terms, and whatever goes out sets the one for
a keep-alive. -/
structure ClientConfig.Timely (c : ClientConfig) (now : Instant) (es : List Effect) : Prop where
  term : ∀ timer due, .armed timer due ∈ es → ∃ term, c.IsTerm timer term ∧ due = now + term
  spoken : ∀ id m frame, .sent id m frame ∈ es →
    .armed .keepAlive (now + c.keepAliveInterval.nanos) ∈ es

/-- A client keeps the settings that it was given, and its session the policy in them. -/
structure Client.SetUp (config : ClientConfig) (c : Client) : Prop where
  settings : c.config = config.validated
  interval : c.keeper.interval = config.validated.keepAliveInterval
  budget : c.machine.Budgeted config.validated.session

section Terms

variable {c config : ClientConfig} {now : Instant} {es fs : List Effect} {e : Effect}
  {timer : Timer} {term : Nat} {m : Machine} {delay : Duration}

theorem ClientConfig.Timely.nil : c.Timely now [] :=
  ⟨by simp, by simp⟩

theorem ClientConfig.Timely.append (h : c.Timely now es) (h' : c.Timely now fs) :
    c.Timely now (es ++ fs) where
  term timer due he :=
    (List.mem_append.mp he).elim (h.term timer due) (h'.term timer due)
  spoken id m frame he := (List.mem_append.mp he).elim
    (fun he => List.mem_append_left fs (h.spoken id m frame he))
    (fun he => List.mem_append_right es (h'.spoken id m frame he))

theorem ClientConfig.timely_of_quiet (harmed : e.armed? = none) (hsent : e.sent? = none) :
    c.Timely now [e] where
  term timer due he := by
    rw [← List.mem_singleton.mp he] at harmed
    cases harmed
  spoken id m frame he := by
    rw [← List.mem_singleton.mp he] at hsent
    cases hsent

theorem ClientConfig.IsTerm.timely (h : c.IsTerm timer term) :
    c.Timely now [.armed timer (now + term)] where
  term timer' due he := by
    obtain ⟨rfl, rfl⟩ := Effect.armed.inj (List.mem_singleton.mp he)
    exact ⟨term, h, rfl⟩
  spoken id m frame he := by cases List.mem_singleton.mp he

theorem ClientConfig.timely_sent (id : ConnectionId) (m : ClientMessage) :
    c.Timely now [.sentOn id m, .armed .keepAlive (now + c.keepAliveInterval.nanos)] where
  term timer due he := by
    rcases List.mem_cons.mp he with he | he
    · cases he
    · obtain ⟨rfl, rfl⟩ := Effect.armed.inj (List.mem_singleton.mp he)
      exact ⟨_, rfl, rfl⟩
  spoken _ _ _ _ := List.mem_cons_of_mem _ (List.mem_singleton.mpr rfl)

/-- A session that is to try again waits for as long as its schedule says. -/
theorem Machine.Budgeted.isTerm (h : m.Budgeted config.validated.session)
    (hretry : m.connectionLost.1 = .after delay) :
    config.validated.IsTerm .reconnect delay.nanos := by
  have hvalid : config.validated.session.validated = config.validated.session :=
    config.session.validated_validated
  cases hgoing : m.isFinished with
  | true =>
      rw [Machine.connectionLost_of_isFinished hgoing] at hretry
      cases hretry
  | false =>
      have hlt := h.attempts_lt hgoing
      rcases Nat.lt_or_eq_of_le hlt with hleft | hlast
      · obtain ⟨delay', hretry', hdelay, _⟩ := h.connectionLost_retry hgoing hleft
        obtain rfl := Retry.after.inj (hretry.symm.trans hretry')
        rw [hvalid] at hleft hdelay
        exact ⟨m.session.attempts, hleft, hdelay⟩
      · cases hretry.symm.trans (h.connectionLost_giveUp hgoing hlast).1

end Terms

namespace Run

/-! ## Stretches -/

/-- `r'` came from `r` at the same time, and all deadlines that were set on the way were set for
their terms. -/
structure Sets (config : ClientConfig) (r r' : Run) : Prop where
  now : r'.now = r.now
  setUp : r'.toClient.SetUp config
  trace : ∃ es : List Effect, r'.trace = r.trace ++ es.map (r.now, ·) ∧
    config.validated.Timely r.now es

section Stretches

variable {config : ClientConfig} {P : ClientMessage → Prop} {r r' r₁ r₂ r₃ : Run} {e : Effect}
  {id : ConnectionId} {msg : ClientMessage} {s : Stimulus}

theorem Sets.refl (h : r.toClient.SetUp config) : Sets config r r :=
  ⟨rfl, h, [], by simp, .nil⟩

theorem Sets.trans (h : Sets config r₁ r₂) (h' : Sets config r₂ r₃) : Sets config r₁ r₃ := by
  obtain ⟨es, htrace, hes⟩ := h.trace
  obtain ⟨fs, htrace', hfs⟩ := h'.trace
  rw [h.now] at htrace' hfs
  refine ⟨h'.now.trans h.now, h'.setUp, es ++ fs, ?_, hes.append hfs⟩
  rw [htrace', htrace, List.append_assoc, List.map_append]

/-- A change of what is neither in the trace nor in the settings. -/
theorem Sets.alter (h : Sets config r r₁) (trace : r₂.trace = r₁.trace) (now : r₂.now = r₁.now)
    (settings : r₂.config = r₁.config) (interval : r₂.keeper.interval = r₁.keeper.interval)
    (budget : r₂.machine.Budgeted config.validated.session) : Sets config r r₂ := by
  have hkept := h.setUp
  exact h.trans ⟨now, ⟨settings.trans hkept.settings, interval.trans hkept.interval, budget⟩, [],
    by simp [trace], .nil⟩

theorem Sets.log (h : Sets config r r₁) (harmed : e.armed? = none) (hsent : e.sent? = none) :
    Sets config r (r₁.log e) :=
  h.trans ⟨rfl, h.setUp, [e], rfl, ClientConfig.timely_of_quiet harmed hsent⟩

theorem Sets.report (h : Sets config r r₁) (news : ClientEvent) : Sets config r (r₁.report news) :=
  h.log rfl rfl

theorem Sets.arm (h : Sets config r r₁) {timer : Timer} {after : Duration}
    (hterm : config.validated.IsTerm timer after.nanos) :
    Sets config r (r₁.log (.armed timer (r₁.now + after.nanos))) :=
  h.trans ⟨rfl, h.setUp, [_], rfl, hterm.timely⟩

theorem Sets.reportState (h : Sets config r r₁) (before : SessionState) :
    Sets config r (r₁.reportState before) := by
  unfold Run.reportState
  split
  · exact h
  · have hstate := h.report (.stateChanged r₁.machine.state)
    dsimp only
    split
    · exact hstate.report _
    · exact hstate

theorem Sets.reportBoard (h : Sets config r r₁) (es : List BoardEvent) :
    Sets config r (r₁.reportBoard es) := by
  induction es generalizing r₁ with
  | nil => exact h
  | cons e es ih => exact ih (h.report (.board e))

theorem Sets.release (h : Sets config r r₁) : Sets config r r₁.release := by
  have hreleased : Sets config r { r₁ with keeper := r₁.keeper.release } :=
    h.alter rfl rfl rfl rfl h.setUp.budget
  unfold Run.release
  cases r₁.keeper.connection with
  | none => exact hreleased
  | some id => exact hreleased.log rfl rfl

theorem Sets.sent (h : Sets config r r₁) (id : ConnectionId) (msg : ClientMessage) :
    Sets config r (r₁.sent id msg) := by
  have hkept := h.setUp
  refine h.trans ⟨rfl, ⟨hkept.settings, hkept.interval, hkept.budget⟩, _, ?_,
    ClientConfig.timely_sent id msg⟩
  rw [← hkept.interval]
  exact List.append_assoc _ _ _

theorem Sets.armReconnect (h : Sets config r r₁) {after : Duration}
    (hterm : config.validated.IsTerm .reconnect after.nanos) :
    Sets config r (r₁.armReconnect after) := by
  have hset : Sets config r { r₁ with reconnect := r₁.reconnect.arm r₁.now after } :=
    h.alter rfl rfl rfl rfl h.setUp.budget
  exact hset.arm hterm

theorem Sets.armFlushRetry (h : Sets config r r₁) : Sets config r r₁.armFlushRetry := by
  have hset (flushRetry : Deadline) : Sets config r { r₁ with flushRetry } :=
    h.alter rfl rfl rfl rfl h.setUp.budget
  have hterm : config.validated.IsTerm .flushRetry r₁.config.flushRetryInterval.nanos := by
    rw [h.setUp.settings]
    rfl
  unfold Run.armFlushRetry
  split
  · exact h
  · exact (hset _).arm hterm

theorem Sets.armShoutClear (h : Sets config r r₁) : Sets config r r₁.armShoutClear := by
  have hset (shoutClear : Deadline) : Sets config r { r₁ with shoutClear } :=
    h.alter rfl rfl rfl rfl h.setUp.budget
  have hterm : config.validated.IsTerm .shoutClear r₁.config.shoutDuration.nanos := by
    rw [h.setUp.settings]
    rfl
  exact (hset _).arm hterm

theorem Sets.connectionLost (h : Sets config r r₁) (before : SessionState) :
    Sets config r (r₁.connectionLost before) := by
  have hreleased := h.release
  have hbudget := hreleased.setUp.budget
  let lost : Run := { r₁.release with
    flushRetry := r₁.release.flushRetry.cancel
    typing := r₁.release.typing.connectionLost
    machine := r₁.release.machine.connectionLost.2 }
  have hlost : Sets config r lost := hreleased.alter rfl rfl rfl rfl hbudget.connectionLost
  unfold Run.connectionLost
  dsimp only
  refine Sets.reportState (Sets.report ?_ _) before
  cases hretry : r₁.release.machine.connectionLost.1 with
  | after delay => exact hlost.armReconnect (hbudget.isTerm hretry)
  | giveUp => exact hlost.alter rfl rfl rfl rfl hlost.setUp.budget

theorem Sets.connect (h : Sets config r r₁) : Sets config r r₁.connect := by
  have hconnecting : Sets config r { r₁ with machine := r₁.machine.connecting } :=
    h.alter rfl rfl rfl rfl (h.setUp.budget.operate .connecting)
  have hreleased := (hconnecting.report (.connectionChanged .connecting)).release
  unfold Run.connect
  refine .log ?_ rfl rfl
  exact hreleased.alter rfl rfl rfl rfl hreleased.setUp.budget

theorem Sets.applyMessage (h : Sets config r r₁) (msg : ServerMessage) :
    Sets config r (r₁.applyMessage msg) := by
  have hshow {r₀ : Run} (h : Sets config r r₀) (board : Board) (es : List BoardEvent) :
      Sets config r ((if es.any BoardEvent.isShout then { r₀ with board }.armShoutClear
        else { r₀ with board }).reportBoard es) := by
    have hset : Sets config r { r₀ with board } := h.alter rfl rfl rfl rfl h.setUp.budget
    refine .reportBoard ?_ es
    split
    · exact hset.armShoutClear
    · exact hset
  cases msg with
  | conversationId id => exact hshow (h.report (.conversation id)) _ _
  | _ => exact hshow h _ _

theorem Talks.sets (h : Talks P r r') (hr : r.toClient.SetUp config) : Sets config r r' := by
  induction h with
  | silent => exact .refl hr
  | said _ _ _ ih => exact ih.sent _ _
  | @noted _ e _ he ih => cases e <;> first | exact ih.log rfl rfl | cases he
  | lost _ before ih => exact ih.connectionLost before
  | putOff _ ih => exact ih.armFlushRetry
  | packed _ outbox ih => exact ih.alter rfl rfl rfl rfl ih.setUp.budget

theorem Resuming.sets (h : Resuming r id r') (hid : r.keeper.connection = some id)
    (hr : r.toClient.SetUp config) : Sets config r r' := by
  have hsynced : Sets config r { r with typing := r.typing.sync.2 } :=
    (Sets.refl hr).alter rfl rfl rfl rfl hr.budget
  rcases h.talks (P := fun _ => True) hid (by simp) (by simp) with ⟨_, htalks⟩ | htalks
  · exact hsynced.trans (htalks.sets hsynced.setUp)
  · have htold := hsynced.trans ((told_talks hid).sets hsynced.setUp)
    exact htold.trans (htalks.sets htold.setUp)

theorem Opening.sets (h : Opening r r') (hr : r.toClient.SetUp config) : Sets config r r' := by
  have hreleased := (Sets.refl hr).release
  have hnumbered : Sets config r { r.release with opened := r.nextId.value } :=
    hreleased.alter rfl rfl rfl rfl hreleased.setUp.budget
  have hopened := hnumbered.log (e := .opened r.nextId) rfl rfl
  have hattached : Sets config r r.attached := by
    refine .report ?_ _
    exact hopened.alter rfl rfl rfl rfl (hopened.setUp.budget.operate .connected)
  cases h with
  | rejected e _ =>
      have hunsent := hattached.log (e := .unsent r.machine.hello (.wire e)) rfl rfl
      have hmachine := (hr.budget.operate .connected).operate (.helloRejected e)
      refine .reportState ?_ _
      exact hunsent.alter rfl rfl rfl rfl hmachine
  | lost e => exact (hattached.log rfl rfl).connectionLost _
  | resumed hresume =>
      have hgreeted := hattached.sent r.nextId r.machine.hello
      exact hgreeted.trans (hresume.sets (by simp [Keeper.attach]) hgreeted.setUp)

theorem Leaving.sets (h : Leaving r r') (hr : r.toClient.SetUp config) : Sets config r r' := by
  have hleft : Sets config r r.left :=
    (Sets.refl hr).alter rfl rfl rfl rfl (hr.budget.operate .leave)
  cases h with
  | silent _ => exact hleft.reportState _
  | unsaid _ e _ => exact (hleft.log rfl rfl).reportState _
  | said _ _ => exact (hleft.sent _ .leave).reportState _

theorem noting_sets (hr : r.toClient.SetUp config) (s : Stimulus) :
    Sets config r (r.noting s) := by
  unfold noting
  split <;> exact (Sets.refl hr).alter rfl rfl rfl rfl hr.budget

theorem handled_sets (hr : r.toClient.SetUp config) {msg : ServerMessage} {dispatch : Dispatch}
    {machine : Machine} (hhandle : r.machine.handle msg = (dispatch, machine)) :
    Sets config r { r with machine } := by
  have hmachine := hr.budget.handle msg
  rw [hhandle] at hmachine
  exact (Sets.refl hr).alter rfl rfl rfl rfl hmachine

theorem Handling.sets (h : Handling r s r') (hr : r.toClient.SetUp config) : Sets config r r' := by
  have hnoted := noting_sets hr s
  have hcancelled (reconnect shoutClear : Deadline) (board : Board) :
      Sets config r { r with reconnect, shoutClear, board } :=
    (Sets.refl hr).alter rfl rfl rfl rfl hr.budget
  cases h.reacting with
  | talked _ htalks => exact hnoted.trans (htalks.sets hnoted.setUp)
  | opened _ hopening => exact hnoted.trans (hopening.sets hnoted.setUp)
  | forwarded _ _ hhandle heq =>
      rw [heq]
      exact ((handled_sets hr hhandle).applyMessage _).reportState _
  | reconnecting _ heq =>
      rw [heq]
      exact (hcancelled _ r.shoutClear r.board).connect
  | quietened _ heq =>
      rw [heq]
      exact (hcancelled r.reconnect _ _).reportBoard _
  | ended hs _ _ _ =>
      cases h with
      | forwarded _ hhandle => exact ((handled_sets hr hhandle).applyMessage _).reportState _
      | ignored _ _ => exact .refl hr
      | stopped _ _ hhandle => exact (handled_sets hr hhandle).reportState _
      | cutOff _ _ _ => exact (Sets.refl hr).connectionLost _
      | left hleave => exact (hleave.sets hr).log rfl rfl
      | abandoned hleave => exact hleave.sets hr
      -- nothing else ends a session
      | _ => cases hs

/-! ## Moments -/

theorem Sets.tearDown (h : Sets config r r₁) : Sets config r r₁.tearDown := by
  have hidle : Sets config r r₁.standDown := h.alter rfl rfl rfl rfl h.setUp.budget
  rcases r₁.tearDown_cases with ⟨_, heq⟩ | ⟨id, _, heq⟩
  · rw [heq]
    exact hidle
  · rw [heq]
    unfold Run.close
    split
    · exact hidle.release
    · exact (hidle.log rfl rfl).release

theorem advance_sets (hr : r.toClient.SetUp config) (hgoing : r.isFinished = false)
    (s : Stimulus) : Sets config r (r.advance s) := by
  unfold advance
  split
  case isTrue henabled =>
    have hhandled := (handle_cases hgoing henabled).sets hr
    dsimp only
    split
    · exact hhandled.tearDown
    · exact hhandled
  case isFalse => exact .refl hr

/-- Whatever a client does about a stimulus, its deadlines are set for their terms. -/
theorem react_sets (hr : r.toClient.SetUp config) (s : Stimulus) :
    Sets config r (r.react s) := by
  have hanswer (a : Answer) : Sets config r (r.answer a) := (Sets.refl hr).log rfl rfl
  have hheard (s : Stimulus) :
      Sets config r (if r.isFinished then r else r.advance s) := by
    cases hdone : r.isFinished with
    | true => exact .refl hr
    | false => exact advance_sets hr hdone s
  cases s with
  | requested q =>
      cases hadmit : q.admit with
      | error e =>
          simp only [react, hadmit]
          exact hanswer _
      | ok q' =>
          simp only [react, hadmit]
          cases hdone : r.isFinished with
          | true => exact hanswer _
          | false => exact advance_sets hr hdone (.requested q')
  | _ => exact hheard _

theorem meet_sets (hr : r.toClient.SetUp config) (m : Moment) :
    Sets config (r.arrive m) (r.meet m) :=
  react_sets (r := r.arrive m) hr m.stimulus

theorem new_setUp (config : ClientConfig) : (Client.new config).SetUp config :=
  ⟨rfl, rfl, Machine.Budgeted.new _ _ _⟩

theorem start_sets (config : ClientConfig) :
    Sets config { toClient := .new config } (start config) := by
  exact (Sets.refl (r := { toClient := .new config }) (new_setUp config)).connect

/-! ## Lives -/

/-- A client that is set up, and that has set all its deadlines for their terms so far. -/
structure OnTerm (config : ClientConfig) (r : Run) : Prop where
  setUp : r.toClient.SetUp config
  term : ∀ t timer due, (t, .armed timer due) ∈ r.trace →
    ∃ term, config.validated.IsTerm timer term ∧ due = t + term
  spoken : ∀ t id msg frame, (t, .sent id msg frame) ∈ r.trace →
    (t, .armed .keepAlive (t + config.validated.keepAliveInterval.nanos)) ∈ r.trace

theorem OnTerm.of_trace_eq_nil (setUp : r.toClient.SetUp config) (trace : r.trace = []) :
    r.OnTerm config :=
  ⟨setUp, by simp [trace], by simp [trace]⟩

theorem Sets.onTerm (h : Sets config r r') (hr : r.OnTerm config) : r'.OnTerm config := by
  obtain ⟨es, htrace, hes⟩ := h.trace
  refine ⟨h.setUp, ?_, ?_⟩
  · intro t timer due hmem
    rw [htrace] at hmem
    rcases List.mem_append.mp hmem with hold | hnew
    · exact hr.term t timer due hold
    · obtain ⟨e, he, heq⟩ := List.mem_map.mp hnew
      obtain ⟨rfl, rfl⟩ := Prod.mk.inj heq
      exact hes.term timer due he
  · intro t id msg frame hmem
    rw [htrace] at hmem ⊢
    rcases List.mem_append.mp hmem with hold | hnew
    · exact List.mem_append_left _ (hr.spoken t id msg frame hold)
    · obtain ⟨e, he, heq⟩ := List.mem_map.mp hnew
      obtain ⟨rfl, rfl⟩ := Prod.mk.inj heq
      exact List.mem_append_right _ (List.mem_map_of_mem (hes.spoken id msg frame he))

theorem OnTerm.meet (hr : r.OnTerm config) (m : Moment) : (r.meet m).OnTerm config :=
  (meet_sets hr.setUp m).onTerm ⟨hr.setUp, hr.term, hr.spoken⟩

theorem play_onTerm (config : ClientConfig) (ms : List Moment) :
    (play config ms).OnTerm config := by
  have hstart : (start config).OnTerm config :=
    (start_sets config).onTerm (.of_trace_eq_nil (new_setUp config) rfl)
  rw [play_eq]
  generalize start config = r at hstart
  induction ms generalizing r with
  | nil => exact hstart
  | cons m ms ih => exact ih (r.meet m) (hstart.meet m)

end Stretches

end Run

/-! ## A clock that ends -/

namespace Rehearsal.ClientStage

/-- Whether the clock can show each term of a client from now on. -/
def ShowsTerms (s : ClientStage) (config : ClientConfig) : Prop :=
  ∀ timer term, config.validated.IsTerm timer term → s.isShown (s.run.now + term) = true

/-- As long as a client has not broken off it is set up, and all that it has done is on record. -/
def Orderly (config : ClientConfig) (s : ClientStage) : Prop :=
  s.broken = false → s.run.toClient.SetUp config ∧ s.run.trace = []

/-- How a stage goes on from `s` to `s'`. The client comes through if the clock can still show its
terms at the end. -/
structure Goes (config : ClientConfig) (s s' : ClientStage) : Prop where
  later : s.run.now ≤ s'.run.now
  /-- The clock has not been started anew. -/
  headStart : s'.headStart = s.headStart
  orderly : s'.Orderly config
  unbroken : s'.ShowsTerms config → s.broken = false → s'.broken = false

/-- A client that is started on a network, with a clock that has been running for some time, and
taken through some steps. -/
def rehearse (config : ClientConfig) (plan : Plan) (headStart : Nat) (steps : List ClientStep) :
    ClientStage :=
  steps.foldl (fun s x => (s.step x).2) (start config plan headStart)

section Stages

variable {config : ClientConfig} {s s' s₁ s₂ s₃ : ClientStage} {x : Stimulus} {t : Instant}

theorem isShown_of_le {t t' : Instant} (h : s'.isShown t' = true)
    (hsame : s'.headStart = s.headStart) (hle : t ≤ t') : s.isShown t = true := by
  have hlast : s'.headStart + t' ≤ Instant.last := of_decide_eq_true h
  rw [hsame] at hlast
  exact decide_eq_true (Nat.le_trans (Nat.add_le_add_left hle s.headStart) hlast)

/-- What the clock can show later it can show now. -/
theorem ShowsTerms.earlier (h : s'.ShowsTerms config) (hsame : s'.headStart = s.headStart)
    (hle : s.run.now ≤ s'.run.now) : s.ShowsTerms config :=
  fun timer term hterm => isShown_of_le (h timer term hterm) hsame (Nat.add_le_add_right hle term)

theorem overflows_iff {trace : List (Instant × Effect)} :
    trace.any s.overflows = true ↔
      ∃ t timer due, (t, .armed timer due) ∈ trace ∧ s.isShown due = false := by
  rw [List.any_eq_true]
  constructor
  · rintro ⟨⟨t, e⟩, hmem, hover⟩
    cases e with
    | armed timer due => exact ⟨t, timer, due, hmem, by simpa [overflows] using hover⟩
    | _ => cases hover
  · rintro ⟨t, timer, due, hmem, hshown⟩
    exact ⟨_, hmem, by simp [overflows, hshown]⟩

theorem settleUp_now (held : Option ConnectionId) (s : ClientStage) :
    (settleUp held s).run.now = s.run.now := by
  unfold settleUp
  split
  · exact Run.release_now _
  · rfl

theorem settleUp_headStart (held : Option ConnectionId) (s : ClientStage) :
    (settleUp held s).headStart = s.headStart := by
  unfold settleUp
  split <;> rfl

/-- As long as the clock can show the deadlines that are set, a client goes on as it is. -/
theorem settleUp_of_shown (held : Option ConnectionId) (h : s.run.trace.any s.overflows = false) :
    (settleUp held s).broken = s.broken ∧ (settleUp held s).run = { s.run with trace := [] } := by
  unfold settleUp
  rw [h]
  exact ⟨rfl, rfl⟩

theorem settleUp_broken_iff (held : Option ConnectionId) (hwhole : s.broken = false) :
    (settleUp held s).broken = true ↔ s.run.trace.any s.overflows = true := by
  cases hover : s.run.trace.any s.overflows with
  | true => simp [settleUp_broken held hover]
  | false => simp [(settleUp_of_shown held hover).1, hwhole]

theorem react_eq (hwhole : s.broken = false) (x : Stimulus) :
    s.react x = settleUp s.run.keeper.connection { s with run := s.run.meet (s.moment x) } := by
  unfold react
  rw [hwhole]
  rfl

/-- A client breaks off just if it sets a deadline that the clock cannot show. -/
theorem react_broken_iff (hwhole : s.broken = false) (x : Stimulus) :
    (s.react x).broken = true ↔ ∃ t timer due,
      (t, .armed timer due) ∈ (s.run.meet (s.moment x)).trace ∧ s.isShown due = false := by
  rw [react_eq hwhole, ← overflows_iff]
  exact settleUp_broken_iff _ hwhole

/-! ### Steps -/

/-- A change of the surroundings. -/
theorem Goes.of_eq (h : s.Orderly config) (run : s'.run = s.run)
    (headStart : s'.headStart = s.headStart) (broken : s'.broken = s.broken) : Goes config s s' where
  later := by rw [run]
  headStart := headStart
  orderly := by
    rw [Orderly, broken, run]
    exact h
  unbroken _ hwhole := broken.trans hwhole

theorem Goes.refl (h : s.Orderly config) : Goes config s s :=
  .of_eq h rfl rfl rfl

theorem Goes.trans (h : Goes config s₁ s₂) (h' : Goes config s₂ s₃) : Goes config s₁ s₃ where
  later := Nat.le_trans h.later h'.later
  headStart := h'.headStart.trans h.headStart
  orderly := h'.orderly
  unbroken hshows hwhole :=
    h'.unbroken hshows (h.unbroken (hshows.earlier h'.headStart h'.later) hwhole)

theorem settleUp_orderly (held : Option ConnectionId)
    (hkept : s.run.toClient.SetUp config) : (settleUp held s).Orderly config := by
  cases hover : s.run.trace.any s.overflows with
  | true =>
      intro hgoing
      cases hgoing.symm.trans (settleUp_broken held hover)
  | false =>
      obtain ⟨_, hrun⟩ := settleUp_of_shown held hover
      rw [Orderly, hrun]
      exact fun _ => ⟨hkept, rfl⟩

/-- Where the clock can show all terms, it can show the deadlines that are set for them. -/
theorem settleUp_unbroken (held : Option ConnectionId) (hwhole : s.broken = false)
    (hshows : s.ShowsTerms config) {es : List Effect} (htrace : s.run.trace = es.map (s.run.now, ·))
    (hes : config.validated.Timely s.run.now es) : (settleUp held s).broken = false := by
  rw [← Bool.not_eq_true, settleUp_broken_iff held hwhole, htrace, overflows_iff]
  rintro ⟨_, timer, due, hmem, hshown⟩
  obtain ⟨e, he, heq⟩ := List.mem_map.mp hmem
  obtain ⟨rfl, rfl⟩ := Prod.mk.inj heq
  obtain ⟨term, hterm, rfl⟩ := hes.term timer due he
  cases (hshows timer term hterm).symm.trans hshown

theorem react_of_broken (hbroken : s.broken = true) (x : Stimulus) : s.react x = s := by
  unfold react
  rw [if_pos hbroken]

theorem react_now (h : s.Orderly config) (x : Stimulus) : (s.react x).run.now = s.run.now := by
  cases hbroken : s.broken with
  | true => rw [react_of_broken hbroken]
  | false =>
      rw [react_eq hbroken, settleUp_now]
      exact (Run.meet_sets (h hbroken).1 (s.moment x)).now

theorem react_headStart (s : ClientStage) (x : Stimulus) :
    (s.react x).headStart = s.headStart := by
  unfold react
  split
  · rfl
  · exact settleUp_headStart _ _

theorem react_goes (h : s.Orderly config) (x : Stimulus) : Goes config s (s.react x) := by
  have hnow := react_now h x
  cases hbroken : s.broken with
  | true =>
      rw [react_of_broken hbroken]
      exact .refl h
  | false =>
      obtain ⟨hkept, hfresh⟩ := h hbroken
      have hsets := Run.meet_sets hkept (s.moment x)
      obtain ⟨es, htrace, hes⟩ := hsets.trace
      have hbefore : (s.run.arrive (s.moment x)).trace = [] := hfresh
      rw [hbefore, List.nil_append] at htrace
      refine ⟨Nat.le_of_eq hnow.symm, s.react_headStart x, ?_, fun hshows _ => ?_⟩
      · rw [react_eq hbroken]
        exact settleUp_orderly _ hsets.setUp
      · have hshows := hshows.earlier (s.react_headStart x) (Nat.le_of_eq hnow.symm)
        rw [react_eq hbroken]
        rw [← hsets.now] at htrace hes
        exact settleUp_unbroken _ hbroken (hshows.earlier rfl (Nat.le_of_eq hsets.now)) htrace hes

/-- What comes next is taken from the surroundings. -/
theorem next?_eq_some (hnext : s.next? = some (x, s')) :
    s'.run = s.run ∧ s'.headStart = s.headStart ∧ s'.broken = s.broken := by
  unfold next? at hnext
  split at hnext
  · cases hnext
  · split at hnext
    · dsimp only at hnext
      split at hnext <;> cases hnext <;> exact ⟨rfl, rfl, rfl⟩
    · split at hnext
      · dsimp only at hnext
        split at hnext <;> cases hnext <;> exact ⟨rfl, rfl, rfl⟩
      · obtain ⟨_, _, heq⟩ := Option.map_eq_some_iff.mp hnext
        cases heq
        exact ⟨rfl, rfl, rfl⟩

theorem settle_goes (h : s.Orderly config) (patience : Nat) :
    Goes config s (s.settle patience) := by
  induction patience generalizing s with
  | zero => exact .refl h
  | succ patience ih =>
      unfold settle
      cases hnext : s.next? with
      | none => exact .refl h
      | some next =>
          obtain ⟨hrun, hstart, hbroken⟩ := next?_eq_some hnext
          have hheard := Goes.of_eq h hrun hstart hbroken
          have hreacted := hheard.trans (react_goes hheard.orderly next.1)
          exact hreacted.trans (ih hreacted.orderly)

/-- All of that takes no time. -/
theorem settle_now (h : s.Orderly config) (patience : Nat) :
    (s.settle patience).run.now = s.run.now := by
  induction patience generalizing s with
  | zero => rfl
  | succ patience ih =>
      unfold settle
      cases hnext : s.next? with
      | none => rfl
      | some next =>
          obtain ⟨hrun, hstart, hbroken⟩ := next?_eq_some hnext
          have hheard := (Goes.of_eq h hrun hstart hbroken).orderly
          show ((next.2.react next.1).settle patience).run.now = s.run.now
          rw [ih (react_goes hheard next.1).orderly, react_now hheard, hrun]

theorem setClock_goes (h : s.Orderly config) (hle : s.run.now ≤ t) :
    Goes config s (s.setClock t) :=
  ⟨hle, rfl, h, fun _ hwhole => hwhole⟩

/-- A stage moves on only to instants that lie ahead. -/
theorem lt_of_nextInstant? (h : s.nextInstant? = some t) : s.run.now < t := by
  unfold nextInstant? at h
  split at h
  · cases h
  · have hmem := List.min?_mem h
    exact of_decide_eq_true (List.mem_filter.mp hmem).2

theorem passUntil_goes (h : s.Orderly config) {target : Instant} (hle : s.run.now ≤ target)
    (patience : Nat) : Goes config s (s.passUntil target patience) := by
  induction patience generalizing s with
  | zero => exact .refl h
  | succ patience ih =>
      unfold passUntil
      split
      · exact setClock_goes h hle
      · rename_i t hnext
        obtain ⟨hsome, hbefore⟩ := Option.filter_eq_some_iff.mp hnext
        have hset := setClock_goes h (Nat.le_of_lt (lt_of_nextInstant? hsome))
        have hsettled := hset.trans (settle_goes hset.orderly (patience + 1))
        refine hsettled.trans (ih hsettled.orderly ?_)
        rw [settle_now hset.orderly]
        exact of_decide_eq_true hbefore

theorem request_goes (h : s.Orderly config) (q : Request) : Goes config s (s.request q).2 := by
  unfold request
  split
  · split <;> exact .refl h
  · have hreacted := react_goes h (.requested q)
    exact hreacted.trans (settle_goes hreacted.orderly patience)

theorem step_goes (h : s.Orderly config) (x : ClientStep) : Goes config s (s.step x).2 := by
  have hfresh : Goes config s { s with record := [] } := .of_eq h rfl rfl rfl
  have hrequest (q : Request) := hfresh.trans (request_goes hfresh.orderly q)
  unfold step
  cases x with
  | network n =>
      have hchanged : Goes config s
          { s with record := [], network := ({ s with record := [] }.network.step n).2 } :=
        .of_eq h rfl rfl rfl
      exact hchanged.trans (settle_goes hchanged.orderly patience)
  | advance nanos =>
      exact hfresh.trans (passUntil_goes hfresh.orderly (Nat.le_add_right _ nanos) patience)
  | request q =>
      dsimp only
      split
      · exact hrequest q
      · exact hfresh
  | isRunning =>
      dsimp only
      split <;> exact hfresh
  | leave =>
      dsimp only
      split
      · exact (hrequest .leave).trans (.of_eq (hrequest .leave).orderly rfl rfl rfl)
      · exact hfresh
  | abandon =>
      dsimp only
      split
      · have hlet : Goes config s { s with record := [], handle := false } :=
          .of_eq h rfl rfl rfl
        have hreacted := hlet.trans (react_goes hlet.orderly .abandoned)
        exact hreacted.trans (settle_goes hreacted.orderly patience)
      · exact hfresh

theorem steps_go (h : s.Orderly config) (steps : List ClientStep) :
    Goes config s (steps.foldl (fun s x => (s.step x).2) s) := by
  induction steps generalizing s with
  | nil => exact .refl h
  | cons x steps ih =>
      have hstep := step_goes h x
      exact hstep.trans (ih hstep.orderly)

theorem start_goes (config : ClientConfig) (plan : Plan) (headStart : Nat) :
    (start config plan headStart).Orderly config ∧
      ((start config plan headStart).ShowsTerms config →
        (start config plan headStart).broken = false) := by
  let fresh : ClientStage := { run := .start config, headStart, network := { plan } }
  have hsets := Run.start_sets config
  obtain ⟨es, htrace, hes⟩ := hsets.trace
  rw [List.nil_append] at htrace
  have horderly : (settleUp none fresh).Orderly config := settleUp_orderly none hsets.setUp
  have hsettled := settle_goes horderly patience
  refine ⟨hsettled.orderly, fun hshows => hsettled.unbroken hshows ?_⟩
  have hfresh : fresh.ShowsTerms config := by
    refine hshows.earlier (hsettled.headStart.trans (settleUp_headStart none fresh)) ?_
    rw [← settleUp_now none fresh]
    exact hsettled.later
  rw [← hsets.now] at htrace hes
  exact settleUp_unbroken none rfl hfresh htrace hes

theorem rehearse_goes (config : ClientConfig) (plan : Plan) (headStart : Nat)
    (steps : List ClientStep) :
    (rehearse config plan headStart steps).Orderly config ∧
      ((rehearse config plan headStart steps).ShowsTerms config →
        (rehearse config plan headStart steps).broken = false) := by
  obtain ⟨horderly, hstart⟩ := start_goes config plan headStart
  have hsteps := steps_go horderly steps
  refine ⟨hsteps.orderly, fun hshows => hsteps.unbroken hshows ?_⟩
  exact hstart (hshows.earlier hsteps.headStart hsteps.later)

end Stages

end Rehearsal.ClientStage

namespace Run

open Rehearsal (ClientStage)

/-- In every life each deadline is set for a term that the settings name: the keep-alive interval,
the flush-retry interval, the time that a shout is shown, or the delay before another attempt after
some number of doublings. Nothing keeps such a term below what is left of the clock.

So a client breaks off just when it sets a deadline that the clock cannot show. That does not happen
in a rehearsal at the end of which the clock can still show each term, whatever the network and the
user do and however long the clock has been running before. But with a keep-alive interval that it
cannot show, the first message that goes out is the last. -/
theorem unbroken_while_terms_shown (config : ClientConfig) :
    (∀ ms t timer due, (t, .armed timer due) ∈ (play config ms).trace →
      ∃ term, config.validated.IsTerm timer term ∧ due = t + term) ∧
    (∀ (s : ClientStage) x, s.broken = false →
      ((s.react x).broken = true ↔ ∃ t timer due,
        (t, .armed timer due) ∈ (s.run.meet (s.moment x)).trace ∧ s.isShown due = false)) ∧
    (∀ plan headStart steps,
      let s := ClientStage.rehearse config plan headStart steps
      (s.ShowsTerms config → s.broken = false) ∧
      (s.broken = false → ∀ x t id msg frame,
        (t, .sent id msg frame) ∈ (s.run.meet (s.moment x)).trace →
        s.isShown (t + config.validated.keepAliveInterval.nanos) = false →
        (s.react x).broken = true)) := by
  refine ⟨fun ms => (play_onTerm config ms).term, fun s x => (ClientStage.react_broken_iff · x), ?_⟩
  intro plan headStart steps s
  obtain ⟨horderly, hunbroken⟩ := ClientStage.rehearse_goes config plan headStart steps
  refine ⟨hunbroken, ?_⟩
  intro hwhole x t id msg frame hsent hshown
  obtain ⟨hkept, hfresh⟩ := horderly hwhole
  have hmet := (OnTerm.of_trace_eq_nil hkept hfresh).meet (s.moment x)
  have hset := hmet.spoken t id msg frame hsent
  exact (ClientStage.react_broken_iff hwhole x).mpr ⟨t, .keepAlive, _, hset, hshown⟩

/-- The longest keep-alive interval is kept as it is. A client with it breaks off at its hello,
while its session goes on: the deadline for the keep-alive comes after the last instant. -/
theorem longest_interval_breaks :
    let longest : Duration := .ofNanos (18_446_744_073_709_551_616 * 1_000_000_000)
    let config : ClientConfig := { keepAliveInterval := longest }
    let hello : ClientMessage := .newPlayer "default" ""
    let s := ClientStage.start config {}
    config.validated.keepAliveInterval = longest ∧
      (0, .armed .keepAlive longest.nanos) ∈ (play config [{ stimulus := .connected }]).trace ∧
      Instant.last < longest.nanos ∧ s.run.isFinished = false ∧ s.broken = true ∧
      s.isStopped = true ∧
      s.trace.map Prod.snd = [.reported (.connectionChanged .connecting), .attempted,
        .opened ⟨1⟩, .reported (.connectionChanged .connected), .sentOn ⟨1⟩ hello,
        .dropped ⟨1⟩] := by
  decide +kernel

end Run

end TileRoom
