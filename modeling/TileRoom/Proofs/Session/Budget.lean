import Mathlib.Algebra.Group.Nat.Defs
import TileRoom.Proofs.Time.Backoff
import TileRoom.Session.Machine

/-!
# The budget of losses

A session counts its losses in one place and lets its delays grow in another, and an accepted
identity resets both. `Machine.Budgeted p m` is the invariant that ties them together, with what
else the records of a session owe each other. It holds of a new session and survives each of the
seven operations (`Budgeted.operate`), in whatever order they come.

`session_budget` reads off what a loss comes to: it depends on nothing but how many came before it
in a row.
-/

namespace TileRoom

/-! ## Policies -/

theorem ReconnectPolicy.validated_maxAttempts (p : ReconnectPolicy) :
    p.validated.maxAttempts.toNat = max 1 p.maxAttempts.toNat := by
  unfold validated
  simp only
  split
  case isTrue hzero =>
    rw [hzero]
    rfl
  case isFalse hpos =>
    have hne : p.maxAttempts.toNat ≠ 0 := fun h => hpos (UInt32.toNat_inj.mp h)
    omega

theorem ReconnectPolicy.validated_maxAttempts_pos (p : ReconnectPolicy) :
    0 < p.validated.maxAttempts.toNat := by
  rw [validated_maxAttempts]
  omega

theorem ReconnectPolicy.validated_delay_le (p : ReconnectPolicy) :
    p.validated.delay.nanos ≤ p.validated.maxDelay.nanos := by
  simp only [validated, Duration.longer_nanos]
  omega

theorem ReconnectPolicy.validated_validated (p : ReconnectPolicy) :
    p.validated.validated = p.validated := by
  have hpos := p.validated_maxAttempts_pos
  have hne : p.validated.maxAttempts ≠ 0 := by
    intro hzero
    rw [hzero] at hpos
    exact absurd hpos (by decide)
  have hdelay := p.validated_delay_le
  rw [validated, if_neg hne, Duration.longer, if_neg (Nat.not_lt.mpr hdelay)]

namespace Machine

/-! ## Histories -/

/-- What can happen to a session. -/
inductive Operation
  | connecting
  | connected
  | handle (msg : ServerMessage)
  | decodeError (e : WireError)
  | connectionLost
  | helloRejected (e : WireError)
  | leave
  deriving DecidableEq

def operate (m : Machine) : Operation → Machine
  | .connecting => m.connecting
  | .connected => m.connected
  | .handle msg => (m.handle msg).2
  -- what a fault means is only told
  | .decodeError _ => m
  | .connectionLost => m.connectionLost.2
  | .helloRejected e => (m.helloRejected e).2
  | .leave => m.leave.2

def operateAll (m : Machine) (ops : List Operation) : Machine :=
  ops.foldl operate m

/-- Whether a message is an identity that the session accepts: only one that is connecting does. -/
def accepts (m : Machine) : ServerMessage → Bool
  | .playerId .. => m.state = .connecting
  | _ => false

/-- How many losses there have been in a row, if there were `k` before the operation. Losses are
none of a finished session. -/
def tally (m : Machine) (k : Nat) : Operation → Nat
  | .handle msg => if m.accepts msg then 0 else k
  | .connectionLost => if m.isFinished then k else k + 1
  | _ => k

def tallyAll (m : Machine) (k : Nat) : List Operation → Nat
  | [] => k
  | op :: ops => (m.operate op).tallyAll (m.tally k op) ops

/-- The session's own count is the tally, whatever the session is like. -/
theorem attempts_operate (m : Machine) (op : Operation) :
    (m.operate op).session.attempts = m.tally m.session.attempts op := by
  cases op with
  | connecting => rfl
  | connected => rfl
  | decodeError e => rfl
  | handle msg =>
      cases hdone : m.isFinished with
      | true =>
          have hstate : m.state ≠ .connecting := by
            intro heq
            rw [isFinished, ← state, heq] at hdone
            cases hdone
          cases msg <;> simp [operate, handle, tally, accepts, hdone, hstate]
      | false =>
          cases msg with
          | playerId person player =>
              by_cases hstate : m.session.state = .connecting
              · simp [operate, handle, tally, accepts, identify, state, hdone, hstate]
              · simp [operate, handle, tally, accepts, identify, state, hdone, hstate]
          | _ => simp [operate, handle, tally, accepts, hdone, fail]
  | connectionLost =>
      cases hdone : m.isFinished with
      | true =>
          have hdone' : m.session.state.isFinished = true := hdone
          simp [operate, connectionLost, tally, isFinished, hdone']
      | false =>
          have hgoing : m.session.state.isFinished = false := hdone
          simp only [operate, connectionLost, tally, isFinished, hgoing, Bool.false_eq_true,
            if_false]
          split <;> rfl
  | helloRejected e =>
      simp only [operate, helloRejected, tally]
      split <;> rfl
  | leave =>
      simp only [operate, leave, tally]
      split <;> rfl

theorem attempts_operateAll (m : Machine) (ops : List Operation) :
    (m.operateAll ops).session.attempts = m.tallyAll m.session.attempts ops := by
  induction ops generalizing m with
  | nil => rfl
  | cons op ops ih =>
      show ((m.operate op).operateAll ops).session.attempts = _
      rw [ih, attempts_operate, tallyAll]

/-! ## The invariant -/

/-- The records of a session under policy `p` agree. -/
structure Budgeted (p : ReconnectPolicy) (m : Machine) : Prop where
  policy : m.policy = p.validated
  failure_iff : m.failure.isSome = true ↔ m.state = .error
  terminal : ∀ reason, m.failure = some reason → reason.isTerminal = true
  /-- Only the last loss that the policy allows is fatal. -/
  spent : ∀ n, m.failure = some (.transport n) → n = p.validated.maxAttempts.toNat
  identity : m.session.person.isSome = true ↔ m.session.player.isSome = true
  identified : m.state = .inProgress → m.session.person.isSome = true
  attempts_le : m.session.attempts ≤ p.validated.maxAttempts.toNat
  attempts_lt : m.isFinished = false → m.session.attempts < p.validated.maxAttempts.toNat
  fresh : m.state = .inProgress → m.session.attempts = 0
  initial : m.backoff.initial = p.validated.delay
  ceiling : m.backoff.ceiling = p.validated.maxDelay
  atStep : m.isFinished = false → m.backoff.AtStep m.session.attempts

namespace Budgeted

variable {p : ReconnectPolicy} {m m' : Machine}

theorem new (p : ReconnectPolicy) (join : JoinRequest) (playerName : String) :
    (Machine.new p join playerName).Budgeted p where
  policy := rfl
  failure_iff := by simp [Machine.new, state]
  terminal := by simp [Machine.new]
  spent := by simp [Machine.new]
  identity := by simp [Machine.new]
  identified := by simp [Machine.new, state]
  attempts_le := Nat.zero_le _
  attempts_lt _ := p.validated_maxAttempts_pos
  fresh _ := rfl
  initial := rfl
  ceiling := if_neg (Nat.not_lt.mpr p.validated_delay_le)
  atStep _ := by
    have hle := p.validated_delay_le
    simp only [Machine.new, Backoff.new, Backoff.AtStep, Duration.longer_nanos, Nat.pow_zero,
      Nat.mul_one]
    omega

/-- The connection, the conversation and the sequence of messages have no say in the budget. -/
theorem of_eq (h : m.Budgeted p) (policy : m'.policy = m.policy) (failure : m'.failure = m.failure)
    (person : m'.session.person = m.session.person)
    (player : m'.session.player = m.session.player) (state : m'.state = m.state)
    (attempts : m'.session.attempts = m.session.attempts) (backoff : m'.backoff = m.backoff) :
    m'.Budgeted p := by
  have hdone : m'.isFinished = m.isFinished := congrArg SessionState.isFinished state
  constructor
  · rw [policy, h.policy]
  · rw [failure, state, h.failure_iff]
  · rw [failure]; exact h.terminal
  · rw [failure]; exact h.spent
  · rw [person, player, h.identity]
  · rw [state, person]; exact h.identified
  · rw [attempts]; exact h.attempts_le
  · rw [hdone, attempts]; exact h.attempts_lt
  · rw [state, attempts]; exact h.fresh
  · rw [backoff, h.initial]
  · rw [backoff, h.ceiling]
  · rw [hdone, backoff, attempts]; exact h.atStep

/-- A session that fails has no more budget to keep to. -/
theorem fail {reason : SessionFailure} (policy : m.policy = p.validated)
    (identity : m.session.person.isSome = true ↔ m.session.player.isSome = true)
    (attempts_le : m.session.attempts ≤ p.validated.maxAttempts.toNat)
    (initial : m.backoff.initial = p.validated.delay)
    (ceiling : m.backoff.ceiling = p.validated.maxDelay) (hterminal : reason.isTerminal = true)
    (hspent : ∀ n, reason = .transport n → n = p.validated.maxAttempts.toNat) :
    (m.fail reason).2.Budgeted p where
  policy := policy
  failure_iff := by simp [Machine.fail, state]
  terminal reason' heq := by rw [← Option.some.inj heq]; exact hterminal
  spent n heq := hspent n (Option.some.inj heq)
  identity := identity
  identified := by simp [Machine.fail, state]
  attempts_le := attempts_le
  attempts_lt := by simp [Machine.fail, isFinished, SessionState.isFinished]
  fresh := by simp [Machine.fail, state]
  initial := initial
  ceiling := ceiling
  atStep := by simp [Machine.fail, isFinished, SessionState.isFinished]

/-- A failure that does not come of losses. -/
theorem stop (h : m.Budgeted p) {reason : SessionFailure} (hterminal : reason.isTerminal = true)
    (hloss : ∀ n, reason ≠ .transport n) : (m.fail reason).2.Budgeted p :=
  fail h.policy h.identity h.attempts_le h.initial h.ceiling hterminal
    fun n heq => absurd heq (hloss n)

theorem failure_eq_none (h : m.Budgeted p) (hgoing : m.isFinished = false) : m.failure = none := by
  rw [← Option.not_isSome_iff_eq_none, h.failure_iff]
  intro hstate
  rw [isFinished, ← state, hstate] at hgoing
  cases hgoing

/-- An accepted identity makes the budget whole again. -/
theorem identify (h : m.Budgeted p) (hgoing : m.isFinished = false) (person : PersonId)
    (player : UInt8) : (m.identify person player).2.Budgeted p := by
  unfold Machine.identify
  split
  · have hfailure := h.failure_eq_none hgoing
    constructor
    case policy => exact h.policy
    case failure_iff => simp [hfailure, state]
    case terminal => simp [hfailure]
    case spent => simp [hfailure]
    case identity => simp
    case identified => simp
    case attempts_le => exact Nat.zero_le _
    case attempts_lt => exact fun _ => p.validated_maxAttempts_pos
    case fresh => exact fun _ => rfl
    case initial => exact h.initial
    case ceiling => exact h.ceiling
    case atStep =>
      intro _
      apply Backoff.atStep_reset
      rw [h.initial, h.ceiling]
      exact p.validated_delay_le
  · exact h

theorem handle (h : m.Budgeted p) (msg : ServerMessage) : (m.handle msg).2.Budgeted p := by
  unfold Machine.handle
  cases hdone : m.isFinished with
  | true => simpa using h
  | false =>
      simp only [Bool.false_eq_true, if_false]
      cases msg with
      | playerId person player => exact h.identify hdone person player
      | message player text => exact h.of_eq rfl rfl rfl rfl rfl rfl rfl
      | conversationId id => exact h.of_eq rfl rfl rfl rfl rfl rfl rfl
      | sessionEnd => exact h.stop rfl (by simp)
      | badPlayerId => exact h.stop rfl (by simp)
      | badConversationId => exact h.stop rfl (by simp)
      | conversationFull => exact h.stop rfl (by simp)
      | _ => exact h

end Budgeted

/-! ## A loss -/

/-- The session with one loss more. -/
def spend (m : Machine) : Machine :=
  { m with session := { m.session with
      connection := .disconnected, state := .connecting, attempts := m.session.attempts + 1 } }

theorem connectionLost_of_isFinished {m : Machine} (hdone : m.isFinished = true) :
    m.connectionLost =
      (.giveUp, { m with session := { m.session with connection := .disconnected } }) := by
  have hdone' : m.session.state.isFinished = true := hdone
  unfold connectionLost
  simp only [isFinished, hdone', if_true]

theorem connectionLost_of_lt {m : Machine} (hgoing : m.isFinished = false)
    (hleft : m.session.attempts + 1 < m.policy.maxAttempts.toNat) :
    m.connectionLost =
      (.after m.backoff.current, { m.spend with backoff := m.backoff.next.2 }) := by
  have hgoing' : m.session.state.isFinished = false := hgoing
  unfold connectionLost
  simp only [isFinished, hgoing', Bool.false_eq_true, if_false, if_neg (Nat.not_le.mpr hleft)]
  rfl

theorem connectionLost_of_le {m : Machine} (hgoing : m.isFinished = false)
    (hlast : m.policy.maxAttempts.toNat ≤ m.session.attempts + 1) :
    m.connectionLost =
      (.giveUp, (m.spend.fail (.transport (m.session.attempts + 1))).2) := by
  have hgoing' : m.session.state.isFinished = false := hgoing
  unfold connectionLost
  simp only [isFinished, hgoing', Bool.false_eq_true, if_false, if_pos hlast]
  rfl

section
variable {p : ReconnectPolicy} {m : Machine}

/-- Below the ceiling a loss is followed by the delay that is next. -/
theorem Budgeted.connectionLost_retry (h : m.Budgeted p) (hgoing : m.isFinished = false)
    (hleft : m.session.attempts + 1 < p.validated.maxAttempts.toNat) :
    ∃ delay, m.connectionLost.1 = .after delay ∧
      delay.nanos =
        min (p.validated.delay.nanos * 2 ^ m.session.attempts) p.validated.maxDelay.nanos ∧
      m.connectionLost.2.isFinished = false := by
  have hdelay := h.atStep hgoing
  unfold Backoff.AtStep at hdelay
  rw [h.initial, h.ceiling] at hdelay
  rw [← h.policy] at hleft
  rw [connectionLost_of_lt hgoing hleft]
  exact ⟨_, rfl, hdelay, rfl⟩

/-- At the ceiling a loss is the end. -/
theorem Budgeted.connectionLost_giveUp (h : m.Budgeted p) (hgoing : m.isFinished = false)
    (hlast : m.session.attempts + 1 = p.validated.maxAttempts.toNat) :
    m.connectionLost.1 = .giveUp ∧ m.connectionLost.2.state = .error ∧
      m.connectionLost.2.failure = some (.transport p.validated.maxAttempts.toNat) := by
  have hle : m.policy.maxAttempts.toNat ≤ m.session.attempts + 1 := by
    rw [h.policy]
    exact Nat.le_of_eq hlast.symm
  rw [connectionLost_of_le hgoing hle, hlast]
  exact ⟨rfl, rfl, rfl⟩

theorem Budgeted.connectionLost (h : m.Budgeted p) : m.connectionLost.2.Budgeted p := by
  cases hdone : m.isFinished with
  | true =>
      rw [connectionLost_of_isFinished hdone]
      exact h.of_eq rfl rfl rfl rfl rfl rfl rfl
  | false =>
      have hlt := h.attempts_lt hdone
      rcases Nat.lt_or_ge (m.session.attempts + 1) p.validated.maxAttempts.toNat with hleft | hlast
      · rw [connectionLost_of_lt hdone (by rw [h.policy]; exact hleft)]
        have hfailure := h.failure_eq_none hdone
        constructor
        case policy => exact h.policy
        case failure_iff => simp [hfailure, state, spend]
        case terminal => exact h.terminal
        case spent => exact h.spent
        case identity => exact h.identity
        case identified => simp [state, spend]
        case attempts_le => exact hlt
        case attempts_lt => exact fun _ => hleft
        case fresh => simp [state, spend]
        case initial => exact h.initial
        case ceiling => exact h.ceiling
        case atStep => exact fun _ => (h.atStep hdone).next
      · rw [connectionLost_of_le hdone (by rw [h.policy]; exact hlast)]
        refine Budgeted.fail h.policy h.identity hlt h.initial h.ceiling rfl ?_
        rintro n ⟨⟩
        exact Nat.le_antisymm hlt hlast

theorem Budgeted.leave (h : m.Budgeted p) : m.leave.2.Budgeted p := by
  unfold Machine.leave
  cases hdone : m.isFinished with
  | true => simpa using h
  | false =>
      have hfailure := h.failure_eq_none hdone
      simp only [Bool.false_eq_true, if_false]
      constructor
      case policy => exact h.policy
      case failure_iff => simp [hfailure, state]
      case terminal => exact h.terminal
      case spent => exact h.spent
      case identity => exact h.identity
      case identified => simp [state]
      case attempts_le => exact h.attempts_le
      case attempts_lt => simp [isFinished, SessionState.isFinished]
      case fresh => simp [state]
      case initial => exact h.initial
      case ceiling => exact h.ceiling
      case atStep => simp [isFinished, SessionState.isFinished]

theorem Budgeted.helloRejected (h : m.Budgeted p) (e : WireError) :
    (m.helloRejected e).2.Budgeted p := by
  unfold Machine.helloRejected
  split
  · exact h
  · exact h.stop rfl (by simp)

/-- No operation breaks the budget. -/
theorem Budgeted.operate (h : m.Budgeted p) (op : Operation) : (m.operate op).Budgeted p := by
  cases op with
  | connecting => exact h.of_eq rfl rfl rfl rfl rfl rfl rfl
  | connected => exact h.of_eq rfl rfl rfl rfl rfl rfl rfl
  | handle msg => exact h.handle msg
  | decodeError e => exact h
  | connectionLost => exact h.connectionLost
  | helloRejected e => exact h.helloRejected e
  | leave => exact h.leave

theorem Budgeted.operateAll (h : m.Budgeted p) (ops : List Operation) :
    (m.operateAll ops).Budgeted p := by
  induction ops generalizing m with
  | nil => exact h
  | cons op ops ih => exact ih (h.operate op)

end

/-- After any history the records of a session agree. In particular a session that goes on can
count one more loss in 32 bits, and the delay it would wait next has doubled with every loss since
the last accepted identity, up to the ceiling. A loss after `k` others in a row is followed by that
delay, or by the end if it is the last that the policy allows. -/
theorem session_budget (p : ReconnectPolicy) (join : JoinRequest) (playerName : String)
    (ops : List Operation) :
    let first := Machine.new p join playerName
    let m := first.operateAll ops
    let k := first.tallyAll 0 ops
    let N := p.validated.maxAttempts.toNat
    let d := p.validated.delay.nanos
    let D := p.validated.maxDelay.nanos
    m.Budgeted p ∧
      (m.isFinished = false → m.session.attempts + 1 < 2 ^ 32 ∧
        m.backoff.next.1.nanos = min (d * 2 ^ m.session.attempts) D) ∧
      (m.isFinished = false →
        (k + 1 < N → ∃ delay, m.connectionLost.1 = .after delay ∧
          delay.nanos = min (d * 2 ^ k) D ∧ m.connectionLost.2.isFinished = false) ∧
        (N ≤ k + 1 → k + 1 = N ∧ m.connectionLost.1 = .giveUp ∧
          m.connectionLost.2.failure = some (.transport N))) := by
  intro first m k N d D
  have h : m.Budgeted p := (Budgeted.new p join playerName).operateAll ops
  have hk : m.session.attempts = k := first.attempts_operateAll ops
  refine ⟨h, ?_, ?_⟩
  · intro hgoing
    have hlt := h.attempts_lt hgoing
    have hbound := p.validated.maxAttempts.toNat_lt
    have hdelay := h.atStep hgoing
    unfold Backoff.AtStep at hdelay
    rw [h.initial, h.ceiling] at hdelay
    exact ⟨by omega, hdelay⟩
  · intro hgoing
    have hlt := h.attempts_lt hgoing
    rw [hk] at hlt
    constructor
    · intro hleft
      rw [← hk] at hleft ⊢
      exact h.connectionLost_retry hgoing hleft
    · intro hlast
      have heq : k + 1 = N := Nat.le_antisymm hlt hlast
      obtain ⟨hgiveUp, _, hfailure⟩ := h.connectionLost_giveUp hgoing (by rw [hk]; exact heq)
      exact ⟨heq, hgiveUp, hfailure⟩

end Machine

end TileRoom
