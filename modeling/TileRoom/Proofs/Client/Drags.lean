import TileRoom.Proofs.Client.Looking
import TileRoom.Proofs.Client.Losses
import TileRoom.Proofs.Client.Manners
import TileRoom.Proofs.Client.Writing

/-!
# When dragged tiles go out

A client can send the dragged tiles when it looks at them on a connection that takes what comes
before them (`Run.flushes`). If something is still to be written they are put off, and the deadline
for another look is set unless it is set already. So it is the first time that counts
(`Run.putOffSince`), and dragging on does not postpone it: `drags_flushed`. The invariant is
`Awaiting`.
-/

namespace TileRoom

theorem Deadline.armIfIdle_due? (d : Deadline) (now : Instant) (after : Duration) :
    (d.armIfIdle now after).due? = d.due?.or (some (now + after.nanos)) := by
  obtain ⟨due⟩ := d
  cases due <;> rfl

namespace Run

/-! ## Moments -/

/-- Whether the client looks at the dragged tiles at a moment at which it could send them. On a new
connection that is so if nothing that comes before them has failed to go out. -/
def flushes (r : Run) (m : Moment) : Bool :=
  match r.reached? m with
  | none => false
  | some .connected => (undelivered (r.dealings m)).all ClientMessage.isMove
  | some s => s.looks && r.keeper.isConnected

/-- Whether tiles wait when the client looks at them, and must go on waiting because something is
still to be written. -/
def putsOff (r : Run) (m : Moment) : Bool :=
  r.flushes m && (r.heardOutbox m).hasDirty && decide (0 < m.uplink.buffered)

/-- What a moment makes of the time at which the tiles were put off first. The deadline for another
look is cancelled when it is due, and when the connection is lost. -/
def stillPutOff (r : Run) (since : Option Instant) (m : Moment) : Option Instant :=
  if (r.meet m).keeper.isConnected then
    let since := if r.reached? m = some (.due .flushRetry) then none else since
    if r.putsOff m then since.or (some (r.arrive m).now) else since
  else none

/-- When the tiles were put off first since the deadline for another look was cancelled last. -/
def putOffSince (r : Run) (since : Option Instant) : List Moment → Option Instant
  | [] => since
  | m :: ms => (r.meet m).putOffSince (r.stillPutOff since m) ms

section Moments

variable {r : Run} {m : Moment} {s : Stimulus} {config : ClientConfig} {since : Option Instant}

theorem flushes_of_reached? (hs : r.reached? m = some s) (hne : s ≠ .connected) :
    r.flushes m = (s.looks && r.keeper.isConnected) := by
  unfold flushes
  rw [hs]
  cases s with
  | connected => exact absurd rfl hne
  | _ => rfl

theorem flushes_of_connected (hs : r.reached? m = some .connected) :
    r.flushes m = (undelivered (r.dealings m)).all ClientMessage.isMove := by
  unfold flushes
  rw [hs]

theorem reached_of_flushes (h : r.flushes m = true) : ∃ s, r.reached? m = some s := by
  cases hs : r.reached? m with
  | none =>
      rw [flushes, hs] at h
      cases h
  | some s => exact ⟨s, rfl⟩

theorem heardOutbox_of_reached? (hs : r.reached? m = some s) :
    r.heardOutbox m = r.outbox.marked s := by
  rw [heardOutbox, heard?_of_reached? hs]

/-- The deadline for another look is set for the time at which the tiles were put off first, and
they wait on a connection only if they were. -/
structure Awaiting (config : ClientConfig) (r : Run) (since : Option Instant) : Prop where
  settings : r.config = config.validated
  retry : r.flushRetry.due? = since.map (· + config.validated.flushRetryInterval.nanos)
  putOff : r.keeper.isConnected = true → r.outbox.dirty ≠ ∅ → since.isSome = true

/-- What is awaited can be seen from the client alone. -/
theorem Awaiting.of_eq {r' : Run} (h : r.Awaiting config since) (hsame : r'.toClient = r.toClient) :
    r'.Awaiting config since := by
  refine ⟨?_, ?_, ?_⟩ <;> rw [hsame]
  · exact h.settings
  · exact h.retry
  · exact h.putOff

theorem speaksOn_of_ne (hne : s ≠ .connected) :
    (r.arrive m).speaksOn s = r.keeper.connection := by
  cases s with
  | connected => exact absurd rfl hne
  | _ => rfl

/-- A look on a connection before which all that was said went out. -/
theorem Looks.flushes {r₀ : Run} {id : ConnectionId} (h : Looks (r.arrive m) s r₀)
    (hs : r.reached? m = some s) (hlooks : s.looks = true)
    (hid : r₀.keeper.connection = some id) (hdeals : Deals r₀ (r.meet m) []) :
    r.flushes m = true := by
  by_cases hne : s = .connected
  · subst hne
    obtain ⟨es, hbefore, hes⟩ := h.lossless
    have hall := ((r.arrive_deals m).after hbefore).before hdeals
    rw [flushes_of_connected hs, hall.dealings_eq, hes]
    rfl
  · have hline : r.keeper.connection = some id :=
      ((speaksOn_of_ne hne).symm.trans h.connection.symm).trans hid
    rw [flushes_of_reached? hs hne, hlooks, isConnected_of_connection hline]
    rfl

theorem Awaiting.looked {r' r₀ : Run} (h : r.Awaiting config since) (hs : r.reached? m = some s)
    (hlooks : s.looks = true) (h₀ : Looks (r.arrive m) s r₀) (hflush : Flushing r₀ r')
    (hmeet : r.meet m = r') (hline : r'.keeper.isConnected = true) :
    r'.Awaiting config (r.stillPutOff since m) := by
  have hsettings : r₀.config = config.validated := h₀.config.trans h.settings
  -- what is left of the time of the first look put off, once the stimulus is heard
  generalize hleft : (if s = .due .flushRetry then none else since) = left
  have hretry : r₀.flushRetry.due? = left.map (· + config.validated.flushRetryInterval.nanos) := by
    rw [h₀.retry, ← hleft]
    split
    · rfl
    · exact h.retry
  have hstill : r.stillPutOff since m =
      if r.putsOff m then left.or (some r₀.now) else left := by
    rw [stillPutOff, hmeet, if_pos hline, hs, h₀.now, ← hleft]
    simp only [Option.some.injEq]
  have hwaits : (r.heardOutbox m).hasDirty = true ↔ r₀.outbox.dirty ≠ ∅ := by
    rw [Outbox.hasDirty_iff, heardOutbox_of_reached? hs, h₀.dirty]
    rfl
  have hbuffered : r₀.uplink.buffered = m.uplink.buffered := h₀.buffered
  rw [hstill]
  cases hflush with
  | unconnected hnone =>
      rw [isConnected_eq_false hnone] at hline
      cases hline
  | idle hempty =>
      have hclean : r.putsOff m = false := by
        have hnot : (r.heardOutbox m).hasDirty = false :=
          Bool.eq_false_iff.mpr fun hdirty => hwaits.mp hdirty hempty
        rw [putsOff, hnot, Bool.and_false, Bool.false_and]
      rw [hclean]
      exact ⟨hsettings, hretry, fun _ hdirty => absurd hempty hdirty⟩
  | deferred hid hdirty hwriting =>
      have hputOff : r.putsOff m = true := by
        have hflushes := h₀.flushes hs hlooks hid (hmeet ▸ armFlushRetry_deals r₀)
        rw [putsOff, hflushes, hwaits.mpr hdirty, ← hbuffered, decide_eq_true hwriting]
        rfl
      -- a deadline that is set stays, as does the time that it was set for
      rw [hputOff, if_pos rfl]
      refine ⟨?_, ?_, fun _ _ => by cases left <;> rfl⟩
      · rw [armFlushRetry_toClient]
        exact hsettings
      · rw [armFlushRetry_toClient]
        show (r₀.flushRetry.armIfIdle r₀.now r₀.config.flushRetryInterval).due? = _
        rw [Deadline.armIfIdle_due?, hretry, hsettings]
        cases left <;> rfl
  | burst hid hdirty hidle hburst =>
      have hclean : r.putsOff m = false := by
        rw [putsOff, ← hbuffered, hidle]
        simp
      rw [hclean]
      refine ⟨?_, ?_, ?_⟩
      · rw [hburst.abides.config]
        exact hsettings
      · rcases hburst.spares.retry with hnone | hsame
        · rw [isConnected_eq_false hnone] at hline
          cases hline
        · rw [hsame]
          exact hretry
      · -- the tiles were taken out before the first move was sent
        intro _ hdirty'
        rw [hburst.outbox_eq] at hdirty'
        exact absurd rfl hdirty'

/-- Where the client does not look at the tiles they wait as before. -/
theorem Awaiting.spared {r' : Run} (h : r.Awaiting config since) (hs : r.reached? m = some s)
    (hlooks : s.looks = false) (hspares : Spares (r.arrive m) r')
    (habides : Abides ((r.arrive m).minded s) r')
    (hmeet : r.meet m = r') (hline : r'.keeper.isConnected = true) :
    r'.Awaiting config (r.stillPutOff since m) := by
  have hsame : r.stillPutOff since m = since := by
    have hne : s ≠ .connected := by
      rintro rfl
      cases hlooks
    have hdue : some s ≠ some (.due .flushRetry) := by
      rintro ⟨⟩
      cases hlooks
    rw [stillPutOff, hmeet, if_pos hline, hs, if_neg hdue, putsOff, flushes_of_reached? hs hne,
      hlooks]
    rfl
  rw [hsame]
  refine ⟨habides.config.trans h.settings, ?_, ?_⟩
  · rcases hspares.retry with hnone | hretry
    · rw [isConnected_eq_false hnone] at hline
      cases hline
    · rw [hretry]
      exact h.retry
  · intro _ hdirty
    rw [hspares.dirty] at hdirty
    refine h.putOff ?_ hdirty
    rcases habides.connection with hconnection | hnone
    · rw [Keeper.isConnected, hconnection] at hline
      exact hline
    · rw [isConnected_eq_false hnone] at hline
      cases hline

/-- What a stimulus that leaves the client going and its connection up makes of the tiles. -/
theorem Awaiting.handled {r' : Run} (h : r.Awaiting config since)
    (hheld : ∀ m ∈ r.outbox.held, m.Encodes) (hs : r.reached? m = some s)
    (hhandle : Handling (r.arrive m) s r') (hmeet : r.meet m = r')
    (hend : r'.isFinished = false) (hline : r'.keeper.isConnected = true) :
    r'.Awaiting config (r.stillPutOff since m) := by
  cases hhandle.looking hheld with
  | spared hlooks hspares =>
      have hne : s ≠ .connected := by
        rintro rfl
        cases hlooks
      exact h.spared hs hlooks hspares (hhandle.abides hne) hmeet hline
  | gone _ hgone =>
      rcases hgone with hdone | hnone
      · exact absurd (hdone.symm.trans hend) (by decide)
      · rw [isConnected_eq_false hnone] at hline
        cases hline
  | flushed hlooks h₀ hflush => exact h.looked hs hlooks h₀ hflush hmeet hline

/-- Without a connection nothing is awaited. -/
theorem awaiting_of_unconnected {p : Phase} (hr : r.Sound p)
    (settings : r.config = config.validated) (hline : r.keeper.isConnected = false) :
    r.Awaiting config none := by
  refine ⟨settings, ?_, fun hconnected => ?_⟩
  · cases hdue : r.flushRetry.due? with
    | none => rfl
    | some due =>
        have hp := hr.flushRetry (by rw [Deadline.isArmed, hdue]; rfl)
        exact absurd (hline.symm.trans (hr.installed.mpr hp)) (by decide)
  · exact absurd (hline.symm.trans hconnected) (by decide)

theorem Awaiting.meet (h : r.Awaiting config since) (htidy : r.Tidy)
    (hheld : ∀ m ∈ r.outbox.held, m.Encodes) (hend : (r.meet m).isFinished = false) :
    (r.meet m).Awaiting config (r.stillPutOff since m) := by
  rcases r.meet_reached m with ⟨hnone, hsame, _⟩ | ⟨s, r₁, hs, hhandle, hclosing⟩
  · have hstill : r.stillPutOff since m = if r.keeper.isConnected then since else none := by
      rw [stillPutOff, hsame, putsOff, flushes, hnone]
      rfl
    rw [hstill]
    refine Awaiting.of_eq ?_ hsame
    cases hline : r.keeper.isConnected with
    | true => exact h
    | false =>
        obtain ⟨p, hp⟩ := htidy.sound
        exact awaiting_of_unconnected hp h.settings hline
  · generalize hmeet : r.meet m = r' at hclosing hend
    cases hclosing with
    | torn hdone =>
        rw [Client.isFinished, tearDown_toClient] at hend
        exact absurd (hdone.symm.trans hend) (by decide)
    | going _ =>
        have hsettings : r₁.config = config.validated := hhandle.config_eq.trans h.settings
        cases hline : r₁.keeper.isConnected with
        | false =>
            obtain ⟨p, hp⟩ := htidy.sound
            obtain ⟨q, hq⟩ := meet_sound hp (hmeet ▸ hend)
            rw [hmeet] at hq
            rw [stillPutOff, hmeet, hline]
            exact awaiting_of_unconnected hq hsettings hline
        | true => exact h.handled hheld hs hhandle hmeet hend hline

/-- A client that is finished lets go of its connection. -/
theorem isFinished_of_isConnected (hgoing : r.isFinished = false)
    (hline : (r.meet m).keeper.isConnected = true) : (r.meet m).isFinished = false := by
  rcases r.meet_reached m with ⟨_, hsame, _⟩ | ⟨_, r₁, _, _, hclosing⟩
  · rw [hsame]
    exact hgoing
  · refine Bool.eq_false_iff.mpr fun hdone => ?_
    have hnone := hclosing.gone (.inl (hclosing.isFinished_eq.symm.trans hdone))
    rw [isConnected_eq_false hnone] at hline
    cases hline

/-- Nothing puts the look off once more. -/
theorem Awaiting.due?_of_meet {due : Instant} (h : r.Awaiting config since) (htidy : r.Tidy)
    (hheld : ∀ m ∈ r.outbox.held, m.Encodes) (hend : (r.meet m).isFinished = false)
    (hset : r.flushRetry.due? = some due) (hearly : r.reached? m ≠ some (.due .flushRetry))
    (hline : (r.meet m).keeper.isConnected = true) :
    (r.meet m).flushRetry.due? = some due := by
  have hretry := h.retry.symm.trans hset
  obtain ⟨first, rfl, _⟩ := Option.map_eq_some_iff.mp hretry
  have hstill : r.stillPutOff (some first) m = some first := by
    rw [stillPutOff, if_pos hline, if_neg hearly]
    exact ite_self _
  rw [(h.meet htidy hheld hend).retry, hstill]
  exact hretry

/-! ## What is said of the tiles -/

/-- What is said when the client looks at the tiles on a connection: what comes before them, and
then the moves, if nothing is still to be written. -/
theorem meet_recital (htidy : r.Tidy) (hheld : ∀ m ∈ r.outbox.held, m.Encodes)
    (hs : r.reached? m = some s) (hlooks : s.looks = true)
    (hline : s ≠ .connected → r.keeper.isConnected = true) :
    ∃ before, (∀ msg ∈ before, msg.isMove = false) ∧ (s ≠ .connected → before = []) ∧
      Burst (fun _ => true)
        (before ++ if m.uplink.buffered = 0 then (r.heardOutbox m).moves else [])
        (r.dealings m) := by
  by_cases hne : s = .connected
  · subst hne
    obtain ⟨es, hgreets⟩ := meet_connected htidy hs
    refine ⟨r.machine.hello :: ((if r.typing.desired then [.startTyping] else []) ++
      r.outbox.held), ?_, fun h => absurd rfl h, ?_⟩
    · intro msg hmsg
      rcases List.mem_cons.mp hmsg with rfl | hmsg
      · exact waits_isMove.hello r.machine
      · rcases List.mem_append.mp hmsg with hmsg | hmsg
        · split at hmsg
          · exact waits_isMove.typing msg (.inl (List.mem_singleton.mp hmsg))
          · cases hmsg
        · exact ClientMessage.isMove_of_isChat (htidy.chats msg hmsg)
    · rw [hgreets.dealings, heardOutbox_of_reached? hs]
      have hopened : Silent (fun _ => true) [Effect.opened r.nextId] := by
        intro e he msg hmsg
        rw [List.mem_singleton.mp he] at hmsg
        cases hmsg
      exact Burst.after hopened hgreets.burst
  · obtain ⟨r₁, hhandle, hclosing⟩ := handling_of_reached? hs
    refine ⟨[], by simp, fun _ => rfl, ?_⟩
    cases hhandle.looking hheld with
    | spared hblind _ => exact absurd (hlooks.symm.trans hblind) (by decide)
    | gone hconnected _ => exact absurd hconnected hne
    | @flushed r₀ _ h₀ hflush =>
        obtain ⟨id, hid⟩ := exists_connection (hline hne)
        have hid₀ : r₀.keeper.connection = some id :=
          (h₀.connection.trans (speaksOn_of_ne hne)).trans hid
        have hmoves : r₀.outbox.moves = (r.heardOutbox m).moves := by
          rw [Outbox.moves, h₀.dirty, heardOutbox_of_reached? hs]
          rfl
        have hrecites := hflush.recites hid₀
        rw [h₀.buffered, hmoves] at hrecites
        have hbefore := (r.arrive_deals m).after (h₀.quiet hne)
        obtain ⟨es, hdeals, hes⟩ :=
          (Recites.after hbefore hrecites).before (hclosing.utters (c := none)).hushes
        rw [hdeals.dealings_eq]
        exact hes

/-- A move is said only over a stimulus that makes the client look at the tiles, and only on a
connection. -/
theorem looks_of_move {e : Effect} {msg : ClientMessage}
    (hheld : ∀ m ∈ r.outbox.held, m.Encodes) (hs : r.reached? m = some s)
    (he : e ∈ r.dealings m) (hmsg : e.message? = some msg) (hmove : msg.isMove = true) :
    s.looks = true ∧ (s ≠ .connected → r.keeper.isConnected = true) := by
  by_cases hne : s = .connected
  · subst hne
    exact ⟨rfl, fun h => absurd rfl h⟩
  · obtain ⟨r₁, hhandle, hclosing⟩ := handling_of_reached? hs
    have htouched : r₁.outbox.dirty ≠ (r.outbox.marked s).dirty := by
      intro hdirty
      obtain ⟨es, hdeals, hsilent⟩ :=
        ((r.arrive_deals m).hushes.trans (hhandle.hushes_moves hne hdirty)).trans
          (hclosing.utters (c := none)).hushes
      rw [hdeals.dealings_eq] at he
      exact absurd (hmove.symm.trans (hsilent e he msg hmsg)) (by decide)
    cases hhandle.looking hheld with
    | spared hblind hspares =>
        refine absurd (hspares.dirty.trans ?_) htouched
        rw [Outbox.marked_of_blind hblind]
        rfl
    | gone hconnected _ => exact absurd hconnected hne
    | flushed hlooks h₀ hflush =>
        refine ⟨hlooks, fun _ => ?_⟩
        cases hid : r.keeper.connection with
        | some id => exact isConnected_of_connection hid
        | none =>
            have hnone := (h₀.connection.trans (speaksOn_of_ne hne)).trans hid
            rw [hflush.eq_of_unconnected hnone] at htouched
            exact absurd h₀.dirty htouched

/-- A move is said only by a flush that finds everything written. -/
theorem flushes_of_move {e : Effect} {msg : ClientMessage} (htidy : r.Tidy)
    (hheld : ∀ m ∈ r.outbox.held, m.Encodes) (he : e ∈ r.dealings m)
    (hmsg : e.message? = some msg) (hmove : msg.isMove = true) :
    r.flushes m = true ∧ m.uplink.buffered = 0 := by
  obtain ⟨s, hs, _⟩ := doing_of_mem_dealings he
  obtain ⟨hlooks, hline⟩ := looks_of_move hheld hs he hmsg hmove
  obtain ⟨before, hbefore, _, hburst⟩ := meet_recital htidy hheld hs hlooks hline
  constructor
  · by_cases hne : s = .connected
    · subst hne
      rw [flushes_of_connected hs, List.all_eq_true]
      refine hburst.brokenAmong hbefore ?_ he hmsg hmove
      intro msg' hmsg'
      split at hmsg'
      · exact Outbox.moves_isMove msg' hmsg'
      · cases hmsg'
    · rw [flushes_of_reached? hs hne, hlooks, hline hne]
      rfl
  · rcases List.mem_append.mp (hburst.subset he hmsg) with hmem | hmem
    · exact absurd (hmove.symm.trans (hbefore msg hmem)) (by decide)
    · split at hmem
      · assumption
      · cases hmem

/-- A flush that finds everything written is a burst of a move for each dragged tile. -/
theorem burst_of_flushes (htidy : r.Tidy) (hheld : ∀ m ∈ r.outbox.held, m.Encodes)
    (hflushes : r.flushes m = true) (hwritten : m.uplink.buffered = 0) :
    Burst ClientMessage.isMove (r.heardOutbox m).moves (r.dealings m) := by
  obtain ⟨s, hs⟩ := reached_of_flushes hflushes
  have hlooks : s.looks = true ∧ (s ≠ .connected → r.keeper.isConnected = true) := by
    by_cases hne : s = .connected
    · subst hne
      exact ⟨rfl, fun h => absurd rfl h⟩
    · rw [flushes_of_reached? hs hne, Bool.and_eq_true] at hflushes
      exact ⟨hflushes.1, fun _ => hflushes.2⟩
  obtain ⟨before, hbefore, hnothing, hburst⟩ := meet_recital htidy hheld hs hlooks.1 hlooks.2
  rw [if_pos hwritten] at hburst
  have hmoves : (before ++ (r.heardOutbox m).moves).filter ClientMessage.isMove =
      (r.heardOutbox m).moves := by
    have hnone : before.filter ClientMessage.isMove = [] :=
      List.filter_eq_nil_iff.mpr fun msg hmsg => by simp [hbefore msg hmsg]
    rw [List.filter_append, hnone, List.filter_eq_self.mpr Outbox.moves_isMove, List.nil_append]
  rw [← hmoves]
  refine hburst.ofKind ?_
  intro msg hmsg
  by_cases hne : s = .connected
  · subst hne
    rw [flushes_of_connected hs, List.all_eq_true] at hflushes
    exact hflushes msg hmsg
  · -- there is nothing but moves to break off at
    obtain ⟨e, he, hunsent⟩ := List.mem_filterMap.mp hmsg
    rw [hnothing hne, List.nil_append] at hburst
    exact Outbox.moves_isMove msg (hburst.subset he (Effect.message?_of_unsent? hunsent))

end Moments

/-! ## Lives -/

theorem play_held_encodes (config : ClientConfig) (ms : List Moment) :
    ∀ m ∈ (play config ms).outbox.held, m.Encodes :=
  fun m hm => (play_held_fits config ms m hm).encodes

theorem start_awaiting (config : ClientConfig) : (start config).Awaiting config none := by
  refine awaiting_of_unconnected (start_sound config) ?_ ?_
  · rw [start, connect_toClient]
    rfl
  · rw [start, connect_toClient]
    rfl

theorem play_awaiting {config : ClientConfig} {before ms : List Moment} {since : Option Instant}
    (h : (play config before).isFinished = false → (play config before).Awaiting config since)
    (hgoing : (play config (before ++ ms)).isFinished = false) :
    (play config (before ++ ms)).Awaiting config ((play config before).putOffSince since ms) := by
  induction ms generalizing before since with
  | nil =>
      rw [List.append_nil] at hgoing ⊢
      exact h hgoing
  | cons m ms ih =>
      have hsplit : before ++ m :: ms = before ++ [m] ++ ms := by simp
      rw [hsplit] at hgoing ⊢
      rw [putOffSince, ← play_meet]
      refine ih ?_ hgoing
      intro hend
      rw [play_meet] at hend ⊢
      have hbefore := isFinished_of_meet hend
      exact (h hbefore).meet (play_tidy hbefore) (play_held_encodes config before) hend

theorem awaiting_of_play {config : ClientConfig} {ms : List Moment}
    (hgoing : (play config ms).isFinished = false) :
    (play config ms).Awaiting config ((start config).putOffSince none ms) :=
  @play_awaiting config [] ms none (fun _ => start_awaiting config) hgoing

/-- A look that is due on a connection is taken. -/
theorem flushes_of_due {r : Run} {m : Moment} {due : Instant} (hgoing : r.isFinished = false)
    (hline : r.keeper.isConnected = true) (hset : r.flushRetry.due? = some due)
    (hm : m.stimulus = .due .flushRetry) (hdue : due ≤ r.now + m.wait) :
    r.flushes m = true := by
  have hheard : m.heard? = some (.due .flushRetry) := by
    unfold Moment.heard?
    rw [hm]
  have hs := reached?_eq hgoing hheard (Deadline.isDue_of_le hset hdue)
  rw [flushes_of_reached? hs (by decide), hline]
  rfl

/-- In every life, between any two moments, dragged tiles that wait on a connection have been put
off, and the deadline for another look is set for the flush retry interval after the first time that
they were since it was cancelled last. Nothing that happens before it is due puts it off, as long as
the connection lasts, and when it is due they are looked at. A move, whether it goes out or not, is
said only by a flush that finds everything written. Such a flush says a move for each tile that
waits, in ascending order, up to the first that does not go out, and if all goes out each of them
has been moved once, to where it was dragged last. -/
theorem drags_flushed (config : ClientConfig) (ms : List Moment) :
    ((play config ms).isFinished = false →
      (play config ms).keeper.isConnected = true →
      (play config ms).outbox.dirty ≠ ∅ →
      ∃ first, (start config).putOffSince none ms = some first ∧
        (play config ms).flushRetry.due? =
          some (first + config.validated.flushRetryInterval.nanos)) ∧
    (∀ m due, (play config ms).isFinished = false →
      (play config ms).keeper.isConnected = true →
      (play config ms).flushRetry.due? = some due →
      (m.stimulus = .due .flushRetry → due ≤ (play config ms).now + m.wait →
        (play config ms).flushes m = true) ∧
      ((play config ms).reached? m ≠ some (.due .flushRetry) →
        ((play config ms).meet m).keeper.isConnected = true →
        ((play config ms).meet m).flushRetry.due? = some due)) ∧
    (∀ t e tile x y, (t, e) ∈ (play config ms).trace → e.message? = some (.moveTile tile x y) →
      ∃ before m after, ms = before ++ m :: after ∧ e ∈ (play config before).dealings m ∧
        (play config before).flushes m = true ∧ m.uplink.buffered = 0) ∧
    (∀ m, (play config ms).flushes m = true → m.uplink.buffered = 0 →
      Burst ClientMessage.isMove ((play config ms).heardOutbox m).moves
        ((play config ms).dealings m) ∧
      (undelivered ((play config ms).dealings m) = [] → ∀ tile,
        (delivered ((play config ms).dealings m)).filterMap (ClientMessage.place? tile) =
          (((play config ms).heardOutbox m).dirty.get? tile).toList)) := by
  refine ⟨?_, ?_, ?_, ?_⟩
  · intro hgoing hline hdirty
    have h := awaiting_of_play hgoing
    obtain ⟨first, hfirst⟩ := Option.isSome_iff_exists.mp (h.putOff hline hdirty)
    refine ⟨first, hfirst, ?_⟩
    rw [h.retry, hfirst]
    rfl
  · intro m due hgoing hline hset
    refine ⟨flushes_of_due hgoing hline hset, fun hearly hstill => ?_⟩
    exact (awaiting_of_play hgoing).due?_of_meet (play_tidy hgoing) (play_held_encodes config ms)
      (isFinished_of_isConnected hgoing hstill) hset hearly hstill
  · intro t e tile x y hmem hmsg
    rcases dealing_of_trace (Effect.isDealing_of_message? hmsg) hmem with
      rfl | ⟨before, m, after, hsplit, he⟩
    · cases hmsg
    · have htidy := play_tidy (isFinished_of_mem_dealings he)
      obtain ⟨hflushes, hwritten⟩ :=
        flushes_of_move htidy (play_held_encodes config before) he hmsg rfl
      exact ⟨before, m, after, hsplit, he, hflushes, hwritten⟩
  · intro m hflushes hwritten
    obtain ⟨s, hs⟩ := reached_of_flushes hflushes
    have htidy := play_tidy (isEnabled_of_reached? hs).1
    have hburst := burst_of_flushes htidy (play_held_encodes config ms) hflushes hwritten
    exact ⟨hburst, hburst.moves_delivered⟩

/-- Two tiles that are dragged on and on while something is still to be written are put off by the
first drag, and sent when the deadline of that is due. -/
theorem drags_flushed_fast :
    let drag (wait : Nat) (tile : UInt8) (x : Int16) : Moment :=
      { wait, stimulus := .requested (.moveTile tile x 0), uplink := { buffered := 5 } }
    let life := [{ stimulus := .connected }, drag 10 1 1, drag 40_000_000 2 1, drag 40_000_000 1 2]
    let retry : Moment := { wait := 20_000_000, stimulus := .due .flushRetry }
    ((play {} life).isFinished = false ∧ (play {} life).keeper.isConnected = true ∧
      (play {} life).outbox.dirty ≠ ∅ ∧ (start {}).putOffSince none life = some 10 ∧
      (play {} life).flushRetry.due? = some 100_000_010) ∧
    ((play {} life).flushes retry = true ∧ ∀ tile,
      (delivered ((play {} life).dealings retry)).filterMap (ClientMessage.place? tile) =
        (((play {} life).heardOutbox retry).dirty.get? tile).toList) := by
  intro drag life retry
  have hgoing : (play {} life).isFinished = false := by decide +kernel
  have hline : (play {} life).keeper.isConnected = true := by decide +kernel
  have hdirty : (play {} life).outbox.dirty ≠ ∅ := by decide +kernel
  have hfirst : (start {}).putOffSince none life = some 10 := by decide +kernel
  obtain ⟨hput, hdue, _, hflush⟩ := drags_flushed {} life
  have hset : (play {} life).flushRetry.due? = some 100_000_010 := by
    obtain ⟨first, hsince, hset⟩ := hput hgoing hline hdirty
    obtain rfl := Option.some.inj (hfirst.symm.trans hsince)
    exact hset
  have hflushes := (hdue retry _ hgoing hline hset).1 rfl (by decide +kernel)
  exact ⟨⟨hgoing, hline, hdirty, hfirst, hset⟩, hflushes,
    (hflush retry hflushes rfl).2 (by decide +kernel)⟩

end Run

end TileRoom
