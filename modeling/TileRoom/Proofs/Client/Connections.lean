import TileRoom.Proofs.Client.Stages
import TileRoom.Proofs.Client.Writing

/-!
# The state of the connection as it is told

The session records how the connection is doing, and the user is told of it by events. The two stay
abreast as long as the connection is attempted, opened and lost. They part when a client hangs up
(`Run.hangsUp`): the session ends by itself while there is an attempt or a connection, and its
record changes without a word. `connection_told_unless_hung_up` says that they part only then.
-/

namespace TileRoom

/-- The steps that a connection takes. -/
inductive ConnectionState.Step : ConnectionState → ConnectionState → Prop
  | attempted : Step .disconnected .connecting
  | opened : Step .connecting .connected
  | lost {c : ConnectionState} (h : c ≠ .disconnected) : Step c .disconnected

/-- The state of the connection that an event tells. -/
def ClientEvent.connection? : ClientEvent → Option ConnectionState
  | connectionChanged c => some c
  | _ => none

theorem Machine.connectionLost_connection (m : Machine) :
    m.connectionLost.2.session.connection = .disconnected := by
  cases hdone : m.isFinished with
  | true => rw [connectionLost_of_isFinished hdone]
  | false =>
      rcases Nat.lt_or_ge (m.session.attempts + 1) m.policy.maxAttempts.toNat with hleft | hlast
      · rw [connectionLost_of_lt hdone hleft]; rfl
      · rw [connectionLost_of_le hdone hlast]; rfl

namespace Account

variable {a : Account} {op : Machine.Operation}

/-- The states of the connection that were told. -/
def connections (a : Account) : List ConnectionState :=
  a.told.filterMap ClientEvent.connection?

/-- What was told of the connection has led to where it is. -/
def Abreast (a : Account) : Prop :=
  Path ConnectionState.Step .disconnected a.connections a.machine.session.connection

/-- Of the connection is told only as news of it. -/
theorem connections_session (a : Account) (op : Machine.Operation) :
    (a.after (.session op)).connections = a.connections ++
      (op.connectionNews (a.machine.operate op)).filterMap ClientEvent.connection? := by
  have honBoard : (op.onBoard a.machine a.board).2.filterMap ClientEvent.connection? = [] := by
    rw [List.filterMap_eq_nil_iff]
    intro e he
    rcases Machine.Operation.eq_of_mem_onBoard he with ⟨event, rfl⟩ | ⟨id, rfl⟩ <;> rfl
  have hstate : ((a.machine.operate op).stateNews a.machine.state).filterMap
      ClientEvent.connection? = [] := by
    rw [List.filterMap_eq_nil_iff]
    intro e he
    rcases Machine.eq_of_mem_stateNews he with rfl | ⟨reason, rfl⟩ <;> rfl
  unfold connections after
  dsimp only
  rw [List.filterMap_append, List.filterMap_append, List.filterMap_append, honBoard, hstate,
    List.append_nil, List.append_nil]

theorem connections_shoutOver (a : Account) :
    (a.after .shoutOver).connections = a.connections := by
  have hboard : (a.board.clearShout.2.map ClientEvent.board).filterMap ClientEvent.connection? =
      [] := by
    rw [List.filterMap_eq_nil_iff]
    intro e he
    obtain ⟨event, _, rfl⟩ := List.mem_map.mp he
    rfl
  unfold connections after
  dsimp only
  rw [List.filterMap_append, hboard, List.append_nil]

/-- A change of the connection that is told. -/
theorem Abreast.told (h : a.Abreast)
    (hstep : ConnectionState.Step a.machine.session.connection
      (a.machine.operate op).session.connection)
    (hnews : op.connectionNews (a.machine.operate op) =
      [.connectionChanged (a.machine.operate op).session.connection]) :
    (a.after (.session op)).Abreast := by
  rw [Abreast, connections_session, hnews]
  exact Path.snoc h hstep

theorem Abreast.untold (h : a.Abreast)
    (hsame : (a.machine.operate op).session.connection = a.machine.session.connection)
    (hnews : op.connectionNews (a.machine.operate op) = []) : (a.after (.session op)).Abreast := by
  rw [Abreast, connections_session, hnews]
  show Path _ _ (a.connections ++ []) (a.machine.operate op).session.connection
  rw [List.append_nil, hsame]
  exact h

theorem Abreast.lost (h : a.Abreast) (hfits : a.Fits (.session .connectionLost)) :
    (a.after (.session .connectionLost)).Abreast := by
  have hgone := a.machine.connectionLost_connection
  refine h.told ?_ rfl
  show ConnectionState.Step _ a.machine.connectionLost.2.session.connection
  rw [hgone]
  exact .lost hfits

theorem Abreast.opened (h : a.Abreast) (hfits : a.Fits (.session .connected)) :
    (a.after (.session .connected)).Abreast := by
  have hconnecting : a.machine.session.connection = .connecting := hfits
  refine h.told ?_ rfl
  rw [hconnecting]
  exact .opened

theorem Abreast.attempted (h : a.Abreast) (hfits : a.Fits (.session .connecting)) :
    (a.after (.session .connecting)).Abreast := by
  have hdisconnected : a.machine.session.connection = .disconnected := hfits
  refine h.told ?_ rfl
  rw [hdisconnected]
  exact .attempted

/-- What a session makes of a message changes its connection only if it is over then. -/
theorem Abreast.heard (h : a.Abreast) {msg : ServerMessage}
    (hgoing : a.machine.isFinished = false) (hend : (a.machine.handle msg).2.isFinished = false) :
    (a.after (.session (.handle msg))).Abreast := by
  refine h.untold ?_ rfl
  have hcases := Machine.handle_cases hgoing msg
  show (a.machine.handle msg).2.session.connection = _
  generalize a.machine.handle msg = result at hcases hend
  cases hcases with
  | forwarded _ _ hconnection => exact hconnection
  | ignored => rfl
  | stopped reason => cases hend

end Account

/-! ## Moments -/

/-- An end that does not come of a loss leaves no connection. -/
theorem Machine.connection_of_isFinished {m : Machine} (hgoing : m.isFinished = false)
    {msg : ServerMessage} (hend : (m.handle msg).2.isFinished = true) :
    (m.handle msg).2.session.connection = .disconnected := by
  have hcases := Machine.handle_cases hgoing msg
  generalize m.handle msg = result at hcases hend
  cases hcases with
  | forwarded _ hfinished _ => exact absurd (hfinished.symm.trans hend) (by decide)
  | ignored => exact absurd (hgoing.symm.trans hend) (by decide)
  | stopped reason => rfl

theorem Machine.leave_connection {m : Machine} (hgoing : m.isFinished = false) :
    m.leave.2.session.connection = .disconnected := by
  unfold leave
  rw [if_neg (by simp [hgoing])]

/-- An end that does not come of a loss is one operation, with no news of the connection. -/
theorem Machine.Plot.ending {m : Machine} {s : Stimulus} {es : List Episode} (h : m.Plot s es)
    (hgoing : m.isFinished = false) (hends : m.isEndedBy s = true) :
    ∃ op, es = [.session op] ∧ (m.operate op).isFinished = true ∧
      (m.operate op).session.connection = .disconnected ∧ ∀ m', op.connectionNews m' = [] := by
  cases h with
  | quiet hquiet => exact absurd (hquiet.symm.trans hends) (by decide)
  | lost hquiet => exact absurd (hquiet.symm.trans hends) (by decide)
  | heard hdecode =>
      rw [isEndedBy_of_decode hdecode] at hends
      exact ⟨_, rfl, hends, connection_of_isFinished hgoing hends, fun _ => rfl⟩
  | left _ => exact ⟨_, rfl, m.leave_isFinished, leave_connection hgoing, fun _ => rfl⟩
  | _ => cases hends

namespace Run

/-- Whether a moment ends the session by itself while there is a connection or an attempt: the
client leaves, or a message of the server is fatal. -/
def hangsUp (r : Run) (m : Moment) : Bool :=
  (r.reached? m).any r.machine.isEndedBy && r.machine.session.connection ≠ .disconnected

section Moments

variable {r : Run} {m : Moment} {ms : List Moment} {config : ClientConfig}

/-- A moment at which the client does not hang up. -/
theorem meet_abreast (hr : r.Presentable config) (h : r.account.Abreast)
    (hstays : r.hangsUp m = false) : (r.meet m).account.Abreast := by
  cases hs : r.reached? m with
  | none =>
      rw [meet_account_of_unreached hs]
      exact h
  | some s =>
      obtain ⟨hgoing, enabled⟩ := isEnabled_of_reached? hs
      obtain ⟨p, hp⟩ := (hr.tidy hgoing).sound
      obtain ⟨es, hplot, hadmits, htold⟩ := meet_told hs hp
      have hstays' : r.machine.isEndedBy s = true →
          r.machine.session.connection = .disconnected := by
        simpa [hangsUp, hs] using hstays
      rw [htold]
      cases hplot with
      | quiet _ => exact h
      | lost _ => exact h.lost hadmits.2.1
      | opened => exact h.opened hadmits.2.1
      | stillborn => exact (h.opened hadmits.2.1).lost hadmits.2.2.2.1
      | rejected he =>
          obtain ⟨frame, hframe, _⟩ := (Machine.hello_fits hr.entry).encodes
          exact absurd (he.symm.trans hframe) (by simp)
      | @heard frame msg hdecode =>
          refine h.heard hgoing (Bool.eq_false_iff.mpr fun hend => ?_)
          -- a frame comes over a connection
          obtain rfl := hp.installed.mp enabled
          have hgone := hstays' ((Machine.isEndedBy_of_decode hdecode).trans hend)
          rw [hp.session] at hgone
          cases hgone
      | left hleave =>
          have hgone : r.machine.session.connection = .disconnected := by
            rcases hleave with rfl | rfl <;> exact hstays' rfl
          refine h.untold ?_ rfl
          rw [show r.account.machine.session.connection = _ from hgone]
          exact Machine.leave_connection hgoing
      | attempted => exact h.attempted hadmits.2.1
      | quietened =>
          show Path _ _ (r.account.after .shoutOver).connections _
          rw [Account.connections_shoutOver]
          exact h

/-- A client that hangs up is finished and has no connection, and it was not told so. -/
theorem meet_hangsUp (hr : r.Presentable config) (h : r.hangsUp m = true) :
    (r.meet m).isFinished = true ∧ (r.meet m).machine.session.connection = .disconnected ∧
      (r.meet m).account.connections = r.account.connections ∧
      r.machine.session.connection ≠ .disconnected := by
  unfold hangsUp at h
  cases hs : r.reached? m with
  | none => simp [hs] at h
  | some s =>
      obtain ⟨hgoing, _⟩ := isEnabled_of_reached? hs
      obtain ⟨p, hp⟩ := (hr.tidy hgoing).sound
      obtain ⟨es, hplot, _, htold⟩ := meet_told hs hp
      obtain ⟨hends, hconnection⟩ : r.machine.isEndedBy s = true ∧
          r.machine.session.connection ≠ .disconnected := by simpa [hs] using h
      obtain ⟨op, rfl, hdone, hgone, hnews⟩ := hplot.ending hgoing hends
      have hmachine : (r.meet m).machine = r.machine.operate op := congrArg Account.machine htold
      refine ⟨?_, ?_, ?_, hconnection⟩
      · rw [Client.isFinished, hmachine]
        exact hdone
      · rw [hmachine]
        exact hgone
      · rw [htold]
        show (r.account.after (.session op)).connections = _
        rw [Account.connections_session, hnews, List.filterMap_nil, List.append_nil]

theorem isFinished_of_hangsUp (h : r.hangsUp m = true) : r.isFinished = false := by
  unfold hangsUp at h
  cases hs : r.reached? m with
  | none => simp [hs] at h
  | some s => exact (isEnabled_of_reached? hs).1

/-- Nothing is told to the end of a life that is over. -/
theorem follow_account_of_isFinished (hdone : r.isFinished = true) (ms : List Moment) :
    (r.follow ms).account = r.account := by
  induction ms generalizing r with
  | nil => rfl
  | cons m ms ih =>
      have hmeet := meet_account_of_isFinished hdone m
      have hdone' : (r.meet m).isFinished = true := by
        have hmachine : (r.meet m).machine = r.machine := congrArg Account.machine hmeet
        rw [Client.isFinished, hmachine]
        exact hdone
      exact (ih hdone').trans hmeet

theorem follow_abreast (hr : r.Presentable config) (h : r.account.Abreast)
    (hstays : ∀ before m after, ms = before ++ m :: after →
      (r.follow before).hangsUp m = false) : (r.follow ms).account.Abreast := by
  induction ms generalizing r with
  | nil => exact h
  | cons m ms ih =>
      refine ih (hr.meet m) (meet_abreast hr h (hstays [] m ms rfl)) ?_
      intro before m' after heq
      exact hstays (m :: before) m' after (by rw [heq]; rfl)

/-- What becomes of a client that hangs up. -/
theorem play_hungUp {before after : List Moment}
    (h : (play config before).hangsUp m = true) :
    (play config (before ++ m :: after)).isFinished = true ∧
      (play config (before ++ m :: after)).machine.session.connection = .disconnected ∧
      (play config (before ++ m :: after)).account.connections =
        (play config before).account.connections ∧
      (play config before).machine.session.connection ≠ .disconnected := by
  obtain ⟨hdone, hgone, htold, hne⟩ := meet_hangsUp (play_presentable config before) h
  have hplay : play config (before ++ m :: after) =
      ((play config before).meet m).follow after := play_append config before (m :: after)
  have hsame := follow_account_of_isFinished hdone after
  have hmachine : (play config (before ++ m :: after)).machine =
      ((play config before).meet m).machine := by
    rw [hplay]
    exact congrArg Account.machine hsame
  refine ⟨?_, ?_, ?_, hne⟩
  · rw [Client.isFinished, hmachine]
    exact hdone
  · rw [hmachine]
    exact hgone
  · rw [hplay, hsame]
    exact htold

theorem play_abreast (config : ClientConfig) {ms : List Moment}
    (hstays : ∀ before m after, ms = before ++ m :: after →
      (play config before).hangsUp m = false) : (play config ms).account.Abreast := by
  refine follow_abreast (start_presentable config) ?_ hstays
  rw [start_account]
  exact Path.snoc (.nil _) .attempted

/-- As long as the session goes on the client has not hung up. -/
theorem play_abreast_of_going (hgoing : (play config ms).isFinished = false) :
    (play config ms).account.Abreast := by
  refine play_abreast config ?_
  rintro before m after rfl
  refine Bool.eq_false_iff.mpr fun h => ?_
  exact absurd (hgoing.symm.trans (play_hungUp h).1) (by decide)

end Moments

/-- Over a whole life the states of the connection that are told take the steps of
`ConnectionState.Step`, from no connection on. The last of them is the state that the session
records, at every time and also after the end, unless the client has hung up. Then the session
records that there is no connection, and the last that was told is still the attempt or the
connection that there was. -/
theorem connection_told_unless_hung_up (config : ClientConfig) (ms : List Moment) :
    let told := ConnectionState.disconnected ::
      (play config ms).events.filterMap ClientEvent.connection?
    let recorded := (play config ms).machine.session.connection
    told.IsChain ConnectionState.Step ∧
      (told.getLast? = some recorded ↔ ∀ before m after, ms = before ++ m :: after →
        (play config before).hangsUp m = false) ∧
      ∀ before m after, ms = before ++ m :: after → (play config before).hangsUp m = true →
        (play config ms).isFinished = true ∧ recorded = .disconnected ∧
          told.getLast? = some (play config before).machine.session.connection := by
  intro told recorded
  have hhungUp {before : List Moment} {m : Moment} {after : List Moment}
      (hms : ms = before ++ m :: after) (h : (play config before).hangsUp m = true) :
      (play config ms).isFinished = true ∧ recorded = .disconnected ∧
        Path ConnectionState.Step .disconnected (play config ms).account.connections
          (play config before).machine.session.connection ∧
        (play config before).machine.session.connection ≠ .disconnected := by
    obtain ⟨hdone, hgone, hsame, hne⟩ := play_hungUp h
    rw [← hms] at hdone hgone hsame
    rw [hsame]
    exact ⟨hdone, hgone, play_abreast_of_going (isFinished_of_hangsUp h), hne⟩
  by_cases hstays : ∀ before m after, ms = before ++ m :: after →
      (play config before).hangsUp m = false
  · have h := play_abreast config hstays
    refine ⟨h.chain, ⟨fun _ => hstays, fun _ => h.last⟩, ?_⟩
    intro before m after hms hangs
    exact absurd ((hstays before m after hms).symm.trans hangs) (by decide)
  · have hparted := hstays
    push Not at hparted
    obtain ⟨before, m, after, hms, hangs⟩ := hparted
    obtain ⟨_, hgone, hpath, hne⟩ := hhungUp hms (Bool.not_eq_false _ |>.mp hangs)
    refine ⟨hpath.chain, ⟨fun hlast => ?_, fun h => absurd h hstays⟩, ?_⟩
    · -- what was told last is not that there is no connection
      have heq : recorded = (play config before).machine.session.connection :=
        Option.some.inj (hlast.symm.trans hpath.last)
      exact absurd (heq.symm.trans hgone) hne
    · intro before' m' after' hms' hangs'
      obtain ⟨hdone, hgone', hpath', _⟩ := hhungUp hms' hangs'
      exact ⟨hdone, hgone', hpath'.last⟩

/-- A client that leaves while it is connected is not told that the connection is gone. -/
theorem connection_untold_on_leaving :
    let r := play {} [{ stimulus := .connected }, { stimulus := .requested .leave }]
    r.isFinished = true ∧ r.machine.session.connection = .disconnected ∧
      (r.events.filterMap ClientEvent.connection?).getLast? = some .connected := by
  decide +kernel

end Run

end TileRoom
