import TileRoom.Proofs.Client.Chats
import TileRoom.Proofs.Session.Identity
import TileRoom.Proofs.Wire.Size

/-!
# Everything that is said can be written

A client takes its texts from its settings and from the chats that it is given, and both have been
cut to size before. So every message that it has a reason to send keeps to the limits
(`Client.Saying.fits`). `everything_encodes` says what follows for a whole life: no message is
refused by the format, and no session ends because its hello cannot be written.
-/

namespace TileRoom

/-- What a client with usable settings is to enter. -/
def ClientConfig.entry (config : ClientConfig) : JoinRequest × String :=
  (config.validated.join, config.validated.playerName)

/-- Whoever the client is by now, its hello keeps to the limits. -/
theorem Machine.hello_fits {m : Machine} {config : ClientConfig} (h : m.entry = config.entry) :
    m.hello.Fits := by
  rw [hello_eq, h]
  cases m.session.person with
  | some person => trivial
  | none =>
      have hname := ClientConfig.fitName_fits config.playerName
      unfold ClientConfig.entry ClientConfig.validated
      cases config.join with
      | room name => exact ⟨ClientConfig.fitName_fits name, hname⟩
      | conversation id => exact hname

theorem Moment.fits_of_heard? {m : Moment} {text : String}
    (h : m.heard? = some (.requested (.sendMessage text))) : Text.Fits maxChat text := by
  rcases heard?_cases h with ⟨hother, hm⟩ | ⟨q, q', _, hadmitted, heq⟩
  · exact absurd hm (hother _)
  · obtain rfl := Stimulus.requested.inj heq
    exact Request.fits_of_admit hadmitted

/-- Of all reasons to send something only three give a message with a text. -/
theorem Client.Saying.fits {c : Client} {s : Stimulus} {o : Outbox} {m : ClientMessage}
    (h : c.Saying s o m) (hhello : c.machine.hello.Fits) (hheld : ∀ m ∈ c.outbox.held, m.Fits)
    (hchat : ∀ text, s = .requested (.sendMessage text) → Text.Fits maxChat text) : m.Fits := by
  cases h with
  | hello _ => exact hhello
  | held _ hm _ => exact hheld m hm
  | typing hm => rcases hm with rfl | rfl <;> trivial
  | chat hs => exact hchat _ hs
  | _ => trivial

namespace Run

section Moments

variable {r : Run} {m : Moment} {ms : List Moment}

theorem chatsGiven_fit (r : Run) (ms : List Moment) :
    ∀ text ∈ r.chatsGiven ms, Text.Fits maxChat text := by
  intro text htext
  obtain ⟨s, hs, hchat⟩ := List.mem_filterMap.mp htext
  obtain ⟨m, hheard⟩ := heard_of_mem_reachedOver hs
  cases s with
  | requested q =>
      cases q with
      | sendMessage t =>
          obtain rfl := Option.some.inj hchat
          exact Moment.fits_of_heard? hheard
      | _ => cases hchat
  | _ => cases hchat

/-- What waits in the queue is what was given, so it keeps to the limits. -/
theorem play_held_fits (config : ClientConfig) (ms : List Moment) :
    ∀ m ∈ (play config ms).outbox.held, m.Fits := by
  intro m hm
  have hgiven := (play_conveys config ms).subset (List.mem_append_right _ hm)
  obtain ⟨text, htext, rfl⟩ := List.mem_map.mp hgiven
  exact chatsGiven_fit _ _ text htext

/-- The session has come of the settings, and no hello was rejected on the way. -/
structure Presentable (config : ClientConfig) (r : Run) : Prop where
  tidy : r.isFinished = false → r.Tidy
  history : ∃ ops, r.machine = (Client.new config).machine.operateAll ops ∧
    ∀ e, .helloRejected e ∉ ops

theorem Presentable.entry {config : ClientConfig} (h : r.Presentable config) :
    r.machine.entry = config.entry := by
  obtain ⟨ops, hmachine, _⟩ := h.history
  rw [hmachine, Machine.entry_operateAll]
  rfl

/-- A hello that can be written is not rejected. -/
theorem OperatingAt.not_rejected {ops : List Machine.Operation} (h : r.OperatingAt m ops)
    (hhello : r.machine.hello.Fits) (e : WireError) : .helloRejected e ∉ ops := by
  unfold OperatingAt at h
  cases hs : r.reached? m with
  | none =>
      rw [hs] at h
      rw [h]
      exact List.not_mem_nil
  | some s =>
      rw [hs] at h
      cases h with
      | rejected he =>
          obtain ⟨frame, hframe, _⟩ := hhello.encodes
          exact absurd (he.symm.trans hframe) (by simp)
      | _ => simp

theorem Presentable.meet {config : ClientConfig} (h : r.Presentable config) (m : Moment) :
    (r.meet m).Presentable config := by
  have hops : ∃ ops, (r.meet m).machine = r.machine.operateAll ops ∧
      ∀ e, .helloRejected e ∉ ops := by
    cases meet_passing (fun hgoing => (h.tidy hgoing).chats) m with
    | steady ops machine hops =>
        exact ⟨ops, machine, hops.not_rejected (Machine.hello_fits h.entry)⟩
    | lost machine => exact ⟨[.connectionLost], machine, by simp⟩
    | attempted machine => exact ⟨[.connecting], machine, by simp⟩
  obtain ⟨ops, hmachine, hvalid⟩ := hops
  obtain ⟨ops₀, hmachine₀, hvalid₀⟩ := h.history
  refine ⟨meet_tidy h.tidy m, ops₀ ++ ops, ?_, ?_⟩
  · rw [hmachine, hmachine₀]
    exact List.foldl_append.symm
  · intro e he
    rcases List.mem_append.mp he with he | he
    · exact hvalid₀ e he
    · exact hvalid e he

theorem start_presentable (config : ClientConfig) : (start config).Presentable config where
  tidy _ := start_tidy config
  history := by
    refine ⟨[.connecting], ?_, by simp⟩
    rw [start, connect_toClient]
    rfl

theorem play_presentable (config : ClientConfig) (ms : List Moment) :
    (play config ms).Presentable config := by
  have hall (r : Run) (h : r.Presentable config) : (r.follow ms).Presentable config := by
    induction ms generalizing r with
    | nil => exact h
    | cons m ms ih => exact ih _ (h.meet m)
  exact hall _ (start_presentable config)

/-- Whatever is said or should have been said at a moment of a life keeps to the limits, and what
goes out is the frame of its message. -/
theorem dealing_fits {config : ClientConfig} {before : List Moment} {e : Effect}
    {msg : ClientMessage} (he : e ∈ (play config before).dealings m) (hm : e.message? = some msg) :
    msg.Fits ∧ ∃ c, e.Fits c := by
  have h := play_presentable config before
  obtain ⟨s, hs, hdoing⟩ := doing_of_mem_dealings he
  refine ⟨?_, _, hdoing.fits e he⟩
  have hsaying := hdoing.utters e he msg hm
  refine hsaying.fits (Machine.hello_fits h.entry) (play_held_fits config before) ?_
  rintro text rfl
  exact Moment.fits_of_heard? (heard?_of_reached? hs)

end Moments

/-- In every life, under any settings and whatever the client is asked for, each message that goes
out or should go out has a frame of at most the largest size, and the frame that goes out is this
one. No message is ever refused because it cannot be written. The hello of every session that can
come of the settings has a frame, and so has every chat that is admitted. The session is never told
that its hello was rejected, and does not end for that reason. -/
theorem everything_encodes (config : ClientConfig) (ms : List Moment) :
    (∀ t e m, (t, e) ∈ (play config ms).trace → e.message? = some m → m.Encodes) ∧
      (∀ t id m frame, (t, .sent id m frame) ∈ (play config ms).trace →
        Wire.encode m = .ok frame) ∧
      (∀ t m e, (t, .unsent m (.wire e)) ∉ (play config ms).trace) ∧
      (∀ ops, ((Client.new config).machine.operateAll ops).hello.Encodes) ∧
      (∀ given text, Request.admit (.sendMessage given) = .ok (.sendMessage text) →
        (ClientMessage.sendMessage text).Encodes) ∧
      (∃ ops, (play config ms).machine = (Client.new config).machine.operateAll ops ∧
        ∀ e, .helloRejected e ∉ ops) ∧
      (∀ e, (play config ms).machine.failure ≠ some (.invalidJoin e)) := by
  have hdealing {t : Instant} {e : Effect} {m : ClientMessage}
      (h : (t, e) ∈ (play config ms).trace) (hm : e.message? = some m) :
      m.Encodes ∧ ∃ c, e.Fits c := by
    rcases dealing_of_trace (Effect.isDealing_of_message? hm) h with rfl | ⟨_, _, _, _, he⟩
    · cases hm
    · obtain ⟨hfits, hline⟩ := dealing_fits he hm
      exact ⟨hfits.encodes, hline⟩
  have hhistory := (play_presentable config ms).history
  refine ⟨fun t e m h hm => (hdealing h hm).1, ?_, ?_, ?_, ?_, hhistory, ?_⟩
  · intro t id m frame h
    obtain ⟨⟨frame', hframe, _⟩, _, _, rfl⟩ := hdealing h rfl
    rw [hframe, ← Wire.layout_of_encode hframe]
  · intro t m e h
    obtain ⟨⟨frame, hframe, _⟩, _, herror⟩ := hdealing h rfl
    have herror : Wire.encode m = .error e := herror
    exact absurd (hframe.symm.trans herror) (by simp)
  · intro ops
    have hentry : ((Client.new config).machine.operateAll ops).entry = config.entry :=
      Machine.entry_operateAll _ ops
    exact (Machine.hello_fits hentry).encodes
  · intro given text h
    exact (ClientMessage.Fits.encodes (m := .sendMessage text) (Request.fits_of_admit h))
  · obtain ⟨ops, hmachine, hvalid⟩ := hhistory
    rw [hmachine]
    exact Machine.failure_operateAll (by simp [Client.new, Machine.new]) hvalid

end Run

end TileRoom
