import Mathlib.Data.List.Chain
import TileRoom.Proofs.Client.Account
import TileRoom.Report.Client

/-!
# The stages of a session

A session joins, falls back when its connection is lost, and ends when the client leaves or the
session fails. `SessionState.Step` lists these steps. `Faithful` says that the stages that are told
are a path of such steps to where the session is, and that nothing follows the news of its end. It
survives every episode, in whatever part of the client it comes about.
-/

namespace TileRoom

/-! ## Paths -/

/-- The steps from `first` through `stages` lead to `last`. -/
structure Path {α : Type} (step : α → α → Prop) (first : α) (stages : List α) (last : α) :
    Prop where
  chain : (first :: stages).IsChain step
  last : (first :: stages).getLast? = some last

theorem Path.nil {α : Type} {step : α → α → Prop} (first : α) : Path step first [] first :=
  ⟨List.isChain_singleton first, rfl⟩

theorem Path.snoc {α : Type} {step : α → α → Prop} {first last next : α} {stages : List α}
    (h : Path step first stages last) (hstep : step last next) :
    Path step first (stages ++ [next]) next := by
  constructor
  · rw [← List.cons_append, List.isChain_append]
    refine ⟨h.chain, List.isChain_singleton next, ?_⟩
    intro x hx y hy
    obtain rfl := Option.some.inj (h.last.symm.trans hx)
    obtain rfl := Option.some.inj hy
    exact hstep
  · rw [← List.cons_append, List.getLast?_append_of_ne_nil _ (by simp)]
    rfl

/-! ## The stages of a session -/

/-- The steps that a session takes. -/
inductive SessionState.Step : SessionState → SessionState → Prop
  | joined : Step .connecting .inProgress
  | fellBack : Step .inProgress .connecting
  | left {s : SessionState} (h : s.isFinished = false) : Step s .done
  | failed {s : SessionState} (h : s.isFinished = false) : Step s .error

theorem SessionState.Step.ne {s t : SessionState} (h : Step s t) : t ≠ s := by
  rintro rfl
  cases h with
  | left h => cases h
  | failed h => cases h

namespace Machine

variable {m : Machine}

/-- The session is where it was before, or one step on. -/
def Advances (m m' : Machine) : Prop :=
  m'.state = m.state ∨ SessionState.Step m.state m'.state

theorem fail_advances (h : m.isFinished = false) (reason : SessionFailure) :
    m.Advances (m.fail reason).2 :=
  .inr (.failed h)

theorem handle_advances (h : m.isFinished = false) (msg : ServerMessage) :
    m.Advances (m.handle msg).2 := by
  unfold handle
  rw [if_neg (by simp [h])]
  cases msg with
  | playerId person player =>
      show m.Advances (m.identify person player).2
      unfold identify
      by_cases hstate : m.session.state = .connecting
      · rw [if_pos hstate]
        have hjoined : SessionState.Step m.state .inProgress := by
          rw [state, hstate]
          exact .joined
        exact .inr hjoined
      · rw [if_neg hstate]
        exact .inl rfl
  | sessionEnd | badPlayerId | badConversationId | conversationFull => exact fail_advances h _
  | _ => exact .inl rfl

theorem connectionLost_advances (h : m.isFinished = false) :
    m.Advances m.connectionLost.2 := by
  rcases Nat.lt_or_ge (m.session.attempts + 1) m.policy.maxAttempts.toNat with hleft | hlast
  · rw [connectionLost_of_lt h hleft]
    show SessionState.connecting = m.state ∨ SessionState.Step m.state .connecting
    cases hstate : m.state with
    | connecting => exact .inl rfl
    | inProgress => exact .inr .fellBack
    | done | error =>
        rw [isFinished, ← state, hstate] at h
        cases h
  · rw [connectionLost_of_le h hlast]
    exact .inr (.failed h)

/-- No operation takes a session under way more than one step. -/
theorem operate_advances (h : m.isFinished = false) (op : Operation) :
    m.Advances (m.operate op) := by
  cases op with
  | handle msg => exact handle_advances h msg
  | connectionLost => exact connectionLost_advances h
  | helloRejected e =>
      unfold operate helloRejected
      dsimp only
      rw [if_neg (by simp [h])]
      exact fail_advances h _
  | leave =>
      unfold operate leave
      dsimp only
      rw [if_neg (by simp [h])]
      exact .inr (.left h)
  | _ => exact .inl rfl

end Machine

/-! ## What is told of them -/

namespace ClientEvent

/-- The state of the session that an event tells. -/
def state? : ClientEvent → Option SessionState
  | stateChanged s => some s
  | _ => none

/-- Whether an event tells that the session is over, or why. -/
def isEnd : ClientEvent → Bool
  | stateChanged s => s.isFinished
  | failed _ => true
  | _ => false

end ClientEvent

namespace Machine

/-- The last that is told of a session. Nothing is as long as it goes on. -/
def ending (m : Machine) : List ClientEvent :=
  match m.state with
  | .connecting | .inProgress => []
  | .done => [.stateChanged .done]
  | .error => .stateChanged .error :: m.failure.toList.map .failed

theorem stateNews_states (m : Machine) (before : SessionState) :
    (m.stateNews before).filterMap ClientEvent.state? =
      if m.state = before then [] else [m.state] := by
  unfold stateNews
  by_cases hsame : m.state = before
  · rw [if_pos hsame, if_pos hsame]
    rfl
  · rw [if_neg hsame, if_neg hsame]
    split
    · simp [ClientEvent.state?, List.filterMap_map, Function.comp_def]
    · rfl

/-- The news of a session ends with its ending. -/
theorem stateNews_ending (m : Machine) {before : SessionState} (h : before.isFinished = false) :
    ∃ es, m.stateNews before = es ++ m.ending ∧ ∀ e ∈ es, e.isEnd = false := by
  unfold stateNews ending
  by_cases hsame : m.state = before
  · rw [if_pos hsame, hsame]
    cases before with
    | connecting | inProgress => exact ⟨[], rfl, by simp⟩
    | done | error => cases h
  · rw [if_neg hsame]
    cases m.state with
    | connecting | inProgress =>
        exact ⟨_, (List.append_nil _).symm, by simp [ClientEvent.isEnd]; rfl⟩
    | done | error => exact ⟨[], rfl, by simp⟩

end Machine

/-! ## Episodes -/

/-- An event about neither the stage nor the end of a session. -/
def ClientEvent.IsAside (e : ClientEvent) : Prop :=
  e.state? = none ∧ e.isEnd = false

theorem ClientEvent.board_aside {es : List BoardEvent} :
    ∀ e ∈ es.map ClientEvent.board, e.IsAside := by
  intro e he
  obtain ⟨_, _, rfl⟩ := List.mem_map.mp he
  exact ⟨rfl, rfl⟩

/-- What is told of the connection and of the board is no news of the session. -/
theorem Machine.Operation.news_aside (op : Machine.Operation) (m m' : Machine) (b : Board) :
    ∀ e ∈ op.connectionNews m' ++ (op.onBoard m b).2, e.IsAside := by
  intro e he
  rcases List.mem_append.mp he with he | he
  · rw [Machine.Operation.eq_of_mem_connectionNews he]
    exact ⟨rfl, rfl⟩
  · rcases Machine.Operation.eq_of_mem_onBoard he with ⟨event, rfl⟩ | ⟨id, rfl⟩
    · exact ⟨rfl, rfl⟩
    · exact ⟨rfl, rfl⟩

/-- What was told of a session agrees with the session. -/
structure Account.Faithful (p : ReconnectPolicy) (a : Account) : Prop where
  budgeted : a.machine.Budgeted p
  path : Path SessionState.Step .connecting (a.told.filterMap ClientEvent.state?) a.machine.state
  /-- The end is told when it has come, and last. -/
  ending : ∃ before, a.told = before ++ a.machine.ending ∧ ∀ e ∈ before, e.isEnd = false

namespace Account.Faithful

variable {a : Account} {p : ReconnectPolicy}

theorem ending_eq_nil {m : Machine} (h : m.isFinished = false) : m.ending = [] := by
  unfold Machine.ending
  unfold Machine.isFinished at h
  cases hstate : m.session.state with
  | connecting | inProgress => simp [Machine.state, hstate]
  | done | error => rw [hstate] at h; cases h

/-- While the session goes on no end was told. -/
theorem going (h : a.Faithful p) (hgoing : a.machine.isFinished = false) :
    ∀ e ∈ a.told, e.isEnd = false := by
  obtain ⟨before, htold, hbefore⟩ := h.ending
  rw [ending_eq_nil hgoing, List.append_nil] at htold
  rw [htold]
  exact hbefore

theorem session (h : a.Faithful p) (hgoing : a.machine.isFinished = false)
    (op : Machine.Operation) : (a.after (.session op)).Faithful p := by
  have haside := op.news_aside a.machine (a.machine.operate op) a.board
  have hstates := (a.machine.operate op).stateNews_states a.machine.state
  constructor
  · exact h.budgeted.operate op
  · -- nothing but the news of the stage adds to the path
    have hnone : (op.connectionNews (a.machine.operate op) ++
        (op.onBoard a.machine a.board).2).filterMap ClientEvent.state? = [] :=
      List.filterMap_eq_nil_iff.mpr fun e he => (haside e he).1
    unfold after
    dsimp only
    rw [List.filterMap_append, List.filterMap_append, hnone, List.append_nil, hstates]
    rcases Machine.operate_advances hgoing op with hsame | hstep
    · rw [if_pos hsame, List.append_nil, hsame]
      exact h.path
    · rw [if_neg hstep.ne]
      exact h.path.snoc hstep
  · have hbefore : a.machine.state.isFinished = false := hgoing
    obtain ⟨es, hnews, hes⟩ := (a.machine.operate op).stateNews_ending hbefore
    refine ⟨a.told ++ (op.connectionNews (a.machine.operate op) ++
      (op.onBoard a.machine a.board).2) ++ es, ?_, ?_⟩
    · unfold after
      dsimp only
      rw [hnews, List.append_assoc _ es]
    · intro e he
      rcases List.mem_append.mp he with he | he
      · rcases List.mem_append.mp he with he | he
        · exact h.going hgoing e he
        · exact (haside e he).2
      · exact hes e he

theorem shoutOver (h : a.Faithful p) (hgoing : a.machine.isFinished = false) :
    (a.after .shoutOver).Faithful p := by
  have hstates : (a.board.clearShout.2.map ClientEvent.board).filterMap ClientEvent.state? = [] :=
    List.filterMap_eq_nil_iff.mpr fun e he => (ClientEvent.board_aside e he).1
  refine ⟨h.budgeted, ?_, a.told ++ a.board.clearShout.2.map .board, ?_, ?_⟩
  · unfold after
    dsimp only
    rw [List.filterMap_append, hstates, List.append_nil]
    exact h.path
  · unfold after
    dsimp only
    rw [ending_eq_nil hgoing, List.append_nil]
  · intro e he
    rcases List.mem_append.mp he with he | he
    · exact h.going hgoing e he
    · exact (ClientEvent.board_aside e he).2

/-- No episode makes what is told disagree with the session. -/
theorem after (h : a.Faithful p) (hgoing : a.machine.isFinished = false) (e : Episode) :
    (a.after e).Faithful p := by
  cases e with
  | session op => exact h.session hgoing op
  | shoutOver => exact h.shoutOver hgoing

/-- An end that is told is part of the ending. -/
theorem split (h : a.Faithful p) {before after : List ClientEvent} {e : ClientEvent}
    (he : e.isEnd = true) (htold : a.told = before ++ e :: after) :
    ∃ head l, before = head ++ l ∧ a.machine.ending = l ++ e :: after ∧
      ∀ e ∈ head, e.isEnd = false := by
  obtain ⟨head, hending, hhead⟩ := h.ending
  rw [hending] at htold
  rcases List.append_eq_append_iff.mp htold with ⟨l, hbefore, hend⟩ | ⟨l, hbefore, hend⟩
  · exact ⟨head, l, hbefore, hend, hhead⟩
  · cases l with
    | nil => exact ⟨head, [], by rw [hbefore, List.append_nil, List.append_nil], hend.symm, hhead⟩
    | cons x l =>
        obtain ⟨rfl, _⟩ := List.cons.inj hend
        have hmem : e ∈ head := by rw [hbefore]; simp
        exact absurd (he.symm.trans (hhead e hmem)) (by decide)

/-- A failure that is told is the one that the session has failed of, and it is the last news. -/
theorem failed (h : a.Faithful p) {before after : List ClientEvent} {reason : SessionFailure}
    (htold : a.told = before ++ .failed reason :: after) :
    a.machine.state = .error ∧ a.machine.failure = some reason ∧
      before.getLast? = some (.stateChanged .error) ∧ (∀ other, .failed other ∉ before) ∧
      after = [] := by
  obtain ⟨head, l, rfl, hend, hhead⟩ := h.split rfl htold
  unfold Machine.ending at hend
  cases hstate : a.machine.state with
  | connecting | inProgress => simp [hstate] at hend
  | done =>
      rw [hstate] at hend
      cases l with
      | nil => cases hend
      | cons x l => simp at hend
  | error =>
      obtain ⟨cause, hcause⟩ := Option.isSome_iff_exists.mp (h.budgeted.failure_iff.mpr hstate)
      rw [hstate, hcause] at hend
      -- the ending is two events long, and the second is the one that was told
      cases l with
      | nil => cases hend
      | cons x l =>
          cases l with
          | nil =>
              cases hend
              refine ⟨rfl, hcause, by simp, ?_, rfl⟩
              intro other hother
              rcases List.mem_append.mp hother with hmem | hmem
              · exact absurd (hhead _ hmem) (by simp [ClientEvent.isEnd])
              · cases List.mem_singleton.mp hmem
          | cons y l => simp at hend

/-- A session that has failed has told of what. -/
theorem failed_of_error (h : a.Faithful p) (hstate : a.machine.state = .error) :
    ∃ reason, .failed reason ∈ a.told := by
  obtain ⟨cause, hcause⟩ := Option.isSome_iff_exists.mp (h.budgeted.failure_iff.mpr hstate)
  obtain ⟨head, htold, _⟩ := h.ending
  refine ⟨cause, ?_⟩
  rw [htold, Machine.ending, hstate, hcause]
  simp

/-- Nothing is told once the client has left. -/
theorem done (h : a.Faithful p) {before after : List ClientEvent}
    (htold : a.told = before ++ .stateChanged .done :: after) : after = [] := by
  obtain ⟨head, l, _, hend, _⟩ := h.split rfl htold
  unfold Machine.ending at hend
  cases hstate : a.machine.state with
  | connecting | inProgress => simp [hstate] at hend
  | done =>
      rw [hstate] at hend
      cases l with
      | nil => exact (List.cons.inj hend).2.symm
      | cons x l => simp at hend
  | error =>
      obtain ⟨cause, hcause⟩ := Option.isSome_iff_exists.mp (h.budgeted.failure_iff.mpr hstate)
      rw [hstate, hcause] at hend
      have hmem : ClientEvent.stateChanged .done ∈ l ++ .stateChanged .done :: after := by simp
      rw [← hend] at hmem
      simp at hmem

end Account.Faithful

/-! ## A whole life -/

namespace Run

theorem play_faithful (config : ClientConfig) (ms : List Moment) :
    (play config ms).account.Faithful config.validated.session := by
  refine play_account_induction (P := fun a => a.Faithful config.validated.session) ?_ ?_ ms
  · rw [start_account]
    have hbudgeted := (Machine.Budgeted.new config.validated.session config.validated.join
      config.validated.playerName).operate .connecting
    exact ⟨hbudgeted, .nil _, [.connectionChanged .connecting], rfl, by simp [ClientEvent.isEnd]⟩
  · intro a e hgoing _ h
    exact h.after hgoing e

/-- At any time of any life the news of the session agree with it. Read after a first state in which
it connects, the states that were told take only the steps of `SessionState.Step`, and the last of
them is the state of the session. A failure is told if and only if the session has failed. It is
told once, right after the state of failure, and is what the session failed of, with its key and its
wording. And nothing is told after a failure, nor after the news that the client has left. -/
theorem session_told_faithfully (config : ClientConfig) (ms : List Moment) :
    let m := (play config ms).machine
    let events := (play config ms).events
    let stages := SessionState.connecting :: events.filterMap ClientEvent.state?
    stages.IsChain SessionState.Step ∧ stages.getLast? = some m.state ∧
      ((∃ reason, .failed reason ∈ events) ↔ m.state = .error) ∧
      (∀ before reason after, events = before ++ .failed reason :: after →
        m.failure = some reason ∧
          Report.clientEvent (.failed reason) = Report.event "failed"
            (.object [("key", .text reason.key), ("message", .text reason.message)]) ∧
          before.getLast? = some (.stateChanged .error) ∧
          (∀ other, .failed other ∉ before) ∧ after = []) ∧
      ∀ before after, events = before ++ .stateChanged .done :: after → after = [] := by
  intro m events stages
  have h : (play config ms).account.Faithful config.validated.session := play_faithful config ms
  refine ⟨h.path.chain, h.path.last, ⟨?_, h.failed_of_error⟩, ?_, fun _ _ => h.done⟩
  · rintro ⟨reason, hmem⟩
    obtain ⟨before, after, htold⟩ := List.append_of_mem hmem
    exact (h.failed htold).1
  · intro before reason after htold
    obtain ⟨_, hfailure, hlast, honce, hnil⟩ := h.failed htold
    exact ⟨hfailure, rfl, hlast, honce, hnil⟩

/-- A client that is turned away from a full conversation after one chat. -/
theorem session_told_faithfully_full :
    let r := play {} [{ stimulus := .connected },
      { stimulus := .received (Wire.layout (ServerMessage.message 2 "a")) },
      { stimulus := .received (Wire.layout ServerMessage.conversationFull) }]
    let before : List ClientEvent := [.connectionChanged .connecting, .connectionChanged .connected,
      .board (.chatMessage 2 "a"), .stateChanged .error]
    r.events = before ++ [.failed .conversationFull] ∧
      r.machine.failure = some .conversationFull := by
  intro r before
  have htold : r.events = before ++ [.failed .conversationFull] := by decide +kernel
  exact ⟨htold, ((session_told_faithfully _ _).2.2.2.1 before _ [] htold).1⟩

end Run

end TileRoom
