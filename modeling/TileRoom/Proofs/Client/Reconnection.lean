import TileRoom.Proofs.Client.Course
import TileRoom.Proofs.Client.Phase
import TileRoom.Rehearsal.ClientStage

/-!
# Bounded reconnection

The session's count is the number of losses since the last accepted identity, and each of them
comes to a deadline for another attempt or to the end. `Run.potential` is the number of attempts
that can still come before an identity; no moment raises it but one that brings an identity. From
that `reconnection_bounded` reads off how many attempts there can be.

Runs count time without end. A clock does not: `ClientStage.react_broken` says what becomes of a
client that would set a deadline beyond the last instant.
-/

namespace TileRoom

namespace Run

/-! ## Lives -/

/-- What a client under policy `p` keeps to. -/
structure Regular (p : ReconnectPolicy) (r : Run) : Prop where
  budget : r.machine.Budgeted p
  sound : r.isFinished = false → ∃ q, r.Sound q
  chats : r.isFinished = false → r.HoldsChats

/-- How many attempts can still be started before an identity is accepted: the one that is to come,
and one for each loss that the policy bears. -/
def potential (p : ReconnectPolicy) (r : Run) : Nat :=
  r.pending + (p.validated.maxAttempts.toNat - 1 - r.machine.session.attempts)

/-- How many losses there have been in a row after some moments, if there were `k` before. -/
def lossesInRow (r : Run) (k : Nat) : List Moment → Nat
  | [] => k
  | m :: ms => (r.meet m).lossesInRow (if r.identifies m then 0 else k + r.losses m) ms

/-- How many losses some moments bring. -/
def lossesOver (r : Run) : List Moment → Nat
  | [] => 0
  | m :: ms => r.losses m + (r.meet m).lossesOver ms

/-- Whether some moments bring an identity that the session accepts. -/
def identifiesOver (r : Run) : List Moment → Bool
  | [] => false
  | m :: ms => r.identifies m || (r.meet m).identifiesOver ms

section Lives

variable {p : ReconnectPolicy} {r r' : Run} {m : Moment}

theorem start_regular (config : ClientConfig) :
    (start config).Regular config.validated.session where
  budget := by
    rw [start, connect_toClient]
    exact (Machine.Budgeted.new _ _ _).operate .connecting
  sound _ := ⟨_, start_sound config⟩
  chats hgoing := @play_holdsChats config [] hgoing

/-- It is the client that keeps to it, whatever its surroundings. -/
theorem Regular.of_toClient_eq (h : r.Regular p) (hsame : r'.toClient = r.toClient) :
    r'.Regular p where
  budget := by
    rw [hsame]
    exact h.budget
  sound := by
    rw [hsame]
    exact h.sound
  chats hgoing := by
    rw [hsame] at hgoing
    show ∀ m ∈ r'.toClient.outbox.held, m.isChat = true
    rw [hsame]
    exact h.chats hgoing

theorem Regular.passing (h : r.Regular p) (m : Moment) : r.Passing m :=
  meet_passing h.chats m

theorem Regular.meet (h : r.Regular p) (m : Moment) : (r.meet m).Regular p where
  budget := by
    cases h.passing m with
    | steady ops machine =>
        rw [machine]
        exact h.budget.operateAll ops
    | lost machine =>
        rw [machine]
        exact h.budget.connectionLost
    | attempted machine =>
        rw [machine]
        exact h.budget.operate .connecting
  sound hend := by
    obtain ⟨q, hq⟩ := h.sound (isFinished_of_meet hend)
    exact meet_sound hq hend
  chats hend := meet_holdsChats hend (h.chats (isFinished_of_meet hend))

theorem Regular.follow (h : r.Regular p) (ms : List Moment) : (r.follow ms).Regular p := by
  induction ms generalizing r with
  | nil => exact h
  | cons m ms ih => exact ih (h.meet m)

/-! ### Losses are counted -/

theorem Regular.losses_le (h : r.Regular p) (m : Moment) : r.losses m ≤ 1 := by
  cases h.passing m with
  | steady _ _ _ hlosses => omega
  | lost _ _ _ _ _ hlosses => omega
  | attempted _ _ hlosses => omega

/-- The session counts each loss once, and starts anew with an identity. -/
theorem Regular.attempts_meet (h : r.Regular p) (m : Moment) :
    (r.meet m).machine.session.attempts =
      if r.identifies m then 0 else r.machine.session.attempts + r.losses m := by
  cases h.passing m with
  | steady ops machine hops hlosses =>
      rw [machine, Machine.attempts_operateAll, hops.tallyAll, hlosses]
      rfl
  | lost machine _ _ hgoing hidentifies hlosses =>
      have hcount := r.machine.attempts_operate .connectionLost
      have hgoing' : r.machine.isFinished = false := hgoing
      rw [machine, hidentifies, hlosses]
      simpa [Machine.operate, Machine.tally, hgoing'] using hcount
  | attempted machine hidentifies hlosses =>
      rw [machine, hidentifies, hlosses]
      rfl

theorem Regular.attempts_follow (h : r.Regular p) (ms : List Moment) :
    (r.follow ms).machine.session.attempts = r.lossesInRow r.machine.session.attempts ms := by
  induction ms generalizing r with
  | nil => rfl
  | cons m ms ih =>
      show ((r.meet m).follow ms).machine.session.attempts =
        (r.meet m).lossesInRow (if r.identifies m then 0
          else r.machine.session.attempts + r.losses m) ms
      rw [ih (h.meet m), h.attempts_meet m]

/-! ### What a loss comes to -/

/-- Below the ceiling a loss is followed by another attempt, at the time that the policy says. -/
theorem Regular.retry (h : r.Regular p) (hloss : r.losses m = 1)
    (hleft : r.machine.session.attempts + 1 < p.validated.maxAttempts.toNat) :
    let due := r.now + m.wait + min (p.validated.delay.nanos * 2 ^ r.machine.session.attempts)
      p.validated.maxDelay.nanos
    (r.meet m).isFinished = false ∧ (r.meet m).reconnect.due? = some due ∧
      (r.now + m.wait, .armed .reconnect due) ∈ (r.meet m).trace := by
  intro due
  cases h.passing m with
  | steady _ _ _ hlosses => omega
  | attempted _ _ hlosses => omega
  | lost machine hdue harmed hgoing =>
      obtain ⟨delay, hretry, hdelay, hend⟩ := h.budget.connectionLost_retry hgoing hleft
      have hgoing' : (r.meet m).isFinished = false := by
        rw [Client.isFinished, machine]
        exact hend
      have hset : (r.meet m).reconnect.due? = some due := by
        rw [hdue, hgoing', hretry]
        simp only [Bool.false_eq_true, if_false, Retry.due?, hdelay, due]
      exact ⟨hgoing', hset, harmed due hset⟩

/-- At the ceiling a loss ends the session. -/
theorem Regular.giveUp (h : r.Regular p) (hloss : r.losses m = 1)
    (hlast : p.validated.maxAttempts.toNat ≤ r.machine.session.attempts + 1) :
    r.machine.session.attempts + 1 = p.validated.maxAttempts.toNat ∧
      (r.meet m).machine.state = .error ∧
      (r.meet m).machine.failure = some (.transport p.validated.maxAttempts.toNat) := by
  cases h.passing m with
  | steady _ _ _ hlosses => omega
  | attempted _ _ hlosses => omega
  | lost machine _ _ hgoing =>
      have hlt := h.budget.attempts_lt hgoing
      have heq : r.machine.session.attempts + 1 = p.validated.maxAttempts.toNat := by omega
      obtain ⟨_, hstate, hfailure⟩ := h.budget.connectionLost_giveUp hgoing heq
      rw [machine]
      exact ⟨heq, hstate, hfailure⟩

/-! ### Attempts are bounded -/

theorem pending_le (r : Run) : r.pending ≤ 1 := by
  unfold pending
  cases r.reconnect.isArmed <;> decide

/-- Every attempt but the first comes of a loss. -/
theorem Regular.tries_meet_le (h : r.Regular p) (m : Moment) :
    (r.meet m).tries + (r.meet m).pending ≤ r.tries + r.pending + r.losses m := by
  -- an attempt takes up the deadline that was set for it, and only a loss sets one
  have hpending := (r.meet m).pending_le
  cases h.passing m with
  | steady _ _ _ hlosses htries hle => omega
  | lost _ _ _ _ _ hlosses htries => omega
  | attempted _ _ hlosses htries hbefore hafter => omega

theorem Regular.tries_follow_le (h : r.Regular p) (ms : List Moment) :
    (r.follow ms).tries + (r.follow ms).pending ≤ r.tries + r.pending + r.lossesOver ms := by
  induction ms generalizing r with
  | nil => exact Nat.le_refl _
  | cons m ms ih =>
      have hstep := h.tries_meet_le m
      have hrest := ih (h.meet m)
      rw [follow_cons, lossesOver]
      omega

/-- An identity comes over a connection, and then no attempt is to come. -/
theorem Regular.pending_of_identifies (h : r.Regular p) (hid : r.identifies m = true) :
    r.pending = 0 := by
  unfold identifies at hid
  cases hs : r.reached? m with
  | none =>
      rw [hs] at hid
      cases hid
  | some s =>
      rw [hs] at hid
      obtain ⟨hgoing, enabled⟩ := isEnabled_of_reached? hs
      cases s with
      | received frame =>
          obtain ⟨q, hq⟩ := h.sound hgoing
          obtain rfl := hq.installed.mp enabled
          have hidle : r.reconnect.isArmed = false :=
            Bool.eq_false_iff.mpr fun harmed => by cases hq.retrying.mp harmed
          rw [pending, hidle]
          rfl
      | _ => cases hid

/-- Without an identity no attempt is gained. -/
theorem Regular.potential_meet_le (h : r.Regular p) (hid : r.identifies m = false) :
    (r.meet m).tries + (r.meet m).potential p ≤ r.tries + r.potential p := by
  have hattempts := h.attempts_meet m
  rw [hid] at hattempts
  simp only [Bool.false_eq_true, if_false] at hattempts
  have hpending := (r.meet m).pending_le
  unfold potential
  cases h.passing m with
  | steady _ _ _ hlosses htries hle => omega
  | attempted _ _ hlosses htries hbefore hafter => omega
  | lost _ hdue _ _ _ hlosses htries =>
      by_cases hleft : r.machine.session.attempts + 1 < p.validated.maxAttempts.toNat
      · omega
      · -- the last loss leaves no attempt to come
        obtain ⟨_, hstate, _⟩ := h.giveUp hlosses (Nat.not_lt.mp hleft)
        have hdone : (r.meet m).isFinished = true := congrArg SessionState.isFinished hstate
        have hnone : (r.meet m).pending = 0 := by
          rw [hdone] at hdue
          simp [pending, Deadline.isArmed, hdue]
        omega

theorem Regular.potential_follow_le (h : r.Regular p) {ms : List Moment}
    (hid : r.identifiesOver ms = false) :
    (r.follow ms).tries + (r.follow ms).potential p ≤ r.tries + r.potential p := by
  induction ms generalizing r with
  | nil => exact Nat.le_refl _
  | cons m ms ih =>
      obtain ⟨hfirst, hrest⟩ := Bool.or_eq_false_iff.mp hid
      have hstep := h.potential_meet_le hfirst
      have hlater := ih (h.meet m) hrest
      rw [follow_cons]
      omega

/-- An identity brings back all attempts but the one that led to it. -/
theorem Regular.potential_of_identifies (h : r.Regular p) (hid : r.identifies m = true) :
    (r.meet m).tries = r.tries ∧ (r.meet m).potential p = p.validated.maxAttempts.toNat - 1 := by
  have hattempts := h.attempts_meet m
  rw [hid] at hattempts
  have hnone := h.pending_of_identifies hid
  cases h.passing m with
  | steady _ _ _ _ htries hle =>
      have hnone' : (r.meet m).pending = 0 := by omega
      refine ⟨htries, ?_⟩
      rw [potential, hattempts, hnone']
      simp
  | lost _ _ _ _ hidentifies => exact absurd (hid.symm.trans hidentifies) (by decide)
  | attempted _ hidentifies => exact absurd (hid.symm.trans hidentifies) (by decide)

/-- A loss starts no attempt and leaves one to come, and none comes after that without another
loss. -/
theorem Regular.tries_after_loss (h : r.Regular p) (hloss : r.losses m = 1) {after : List Moment}
    (hcalm : (r.meet m).lossesOver after = 0) :
    ((r.meet m).follow after).tries ≤ r.tries + 1 := by
  have hsame : (r.meet m).tries = r.tries := by
    cases h.passing m with
    | steady _ _ _ _ htries => exact htries
    | lost _ _ _ _ _ _ htries => exact htries
    | attempted _ _ hlosses => omega
  have hbound := (h.meet m).tries_follow_le after
  have hone := (r.meet m).pending_le
  omega

theorem Regular.tries_after_identity (h : r.Regular p) (hid : r.identifies m = true)
    {after : List Moment} (hlater : (r.meet m).identifiesOver after = false) :
    ((r.meet m).follow after).tries ≤ r.tries + (p.validated.maxAttempts.toNat - 1) := by
  obtain ⟨hsame, hfull⟩ := h.potential_of_identifies hid
  have hbound := (h.meet m).potential_follow_le hlater
  omega

theorem tries_follow_of_isFinished (hdone : r.isFinished = true) (ms : List Moment) :
    (r.follow ms).tries = r.tries :=
  (follow_of_isFinished hdone ms).2.tries_eq

theorem start_tries (config : ClientConfig) :
    (start config).tries = 1 ∧ (start config).pending = 0 ∧
      (start config).machine.session.attempts = 0 := by
  rw [start, (connect_deals _).tries_eq, pending, connect_toClient]
  exact ⟨rfl, rfl, rfl⟩

/-- The first attempt needs no loss. -/
theorem start_tries_le (config : ClientConfig) {ms : List Moment}
    (hid : (start config).identifiesOver ms = false) :
    ((start config).follow ms).tries ≤ config.validated.session.validated.maxAttempts.toNat := by
  obtain ⟨htries, hpending, hattempts⟩ := start_tries config
  have hbound := (start_regular config).potential_follow_le hid
  have hpos := config.validated.session.validated_maxAttempts_pos
  unfold potential at hbound
  omega

end Lives

end Run

/-! ## A clock that ends -/

namespace Rehearsal.ClientStage

/-- What a client on a stage hears of. -/
def moment (s : ClientStage) (x : Stimulus) : Moment :=
  { stimulus := x, uplink := (s.network.line.map Line.uplink).getD {} }

theorem settleUp_broken {s : ClientStage} (held : Option ConnectionId)
    (hover : s.run.trace.any s.overflows = true) : (settleUp held s).broken = true := by
  unfold settleUp
  rw [if_pos hover]
  rfl

/-- A client that would set a deadline that the clock cannot show breaks off. -/
theorem react_broken {s : ClientStage} {x : Stimulus} {t due : Instant} {timer : Timer}
    (hset : (t, .armed timer due) ∈ (s.run.meet (s.moment x)).trace)
    (hshown : s.isShown due = false) : (s.react x).broken = true := by
  have hover : (s.run.meet (s.moment x)).trace.any s.overflows = true := by
    refine List.any_eq_true.mpr ⟨_, hset, ?_⟩
    simp [overflows, hshown]
  unfold react
  cases hbroken : s.broken with
  | true => simpa using hbroken
  | false =>
      simp only [Bool.false_eq_true, if_false]
      exact settleUp_broken _ hover

end Rehearsal.ClientStage

namespace Run

open Rehearsal (ClientStage)

/-- At any time of any life the session has counted each of the `k` losses since the last accepted
identity once. One loss more is followed by the deadline that the policy says and by at most one
attempt, or by the end if it is the last that the policy allows. So the number of attempts is
bounded before the first identity, from one to the next, and once the client is finished. But the
deadline must be one that the clock can show, whenever the clock was started: otherwise the client
breaks off at the loss. -/
theorem reconnection_bounded (config : ClientConfig) (before : List Moment) :
    let r := play config before
    let k := (start config).lossesInRow 0 before
    let N := config.validated.session.maxAttempts.toNat
    let delay := min (config.validated.session.delay.nanos * 2 ^ k)
      config.validated.session.maxDelay.nanos
    r.machine.session.attempts = k ∧
      (∀ m, r.losses m ≤ 1) ∧
      (∀ m, r.losses m = 1 →
        (k + 1 < N → (r.meet m).isFinished = false ∧
          (r.meet m).reconnect.due? = some (r.now + m.wait + delay) ∧
          ∀ after, (r.meet m).lossesOver after = 0 →
            ((r.meet m).follow after).tries ≤ r.tries + 1) ∧
        (N ≤ k + 1 → k + 1 = N ∧ (r.meet m).machine.state = .error ∧
          (r.meet m).machine.failure = some (.transport N))) ∧
      ((start config).identifiesOver before = false → r.tries ≤ N) ∧
      (∀ m after, r.identifies m = true → (r.meet m).identifiesOver after = false →
        ((r.meet m).follow after).tries ≤ r.tries + (N - 1)) ∧
      (r.isFinished = true → ∀ after, (r.follow after).tries = r.tries) ∧
      (∀ (s : ClientStage) (x : Stimulus), s.run.toClient = r.toClient →
        s.run.losses (s.moment x) = 1 → k + 1 < N →
        s.isShown (s.run.now + delay) = false → (s.react x).broken = true) := by
  intro r k N delay
  have hstart := start_regular config
  have h : r.Regular config.validated.session := hstart.follow before
  have hvalid : config.validated.session.validated = config.validated.session :=
    config.session.validated_validated
  have hk : r.machine.session.attempts = k := by
    have hcount := hstart.attempts_follow before
    rw [(start_tries config).2.2] at hcount
    exact hcount
  refine ⟨hk, h.losses_le, ?_, ?_, ?_, ?_, ?_⟩
  · intro m hloss
    have hretry := h.retry hloss
    have hgiveUp := h.giveUp hloss
    rw [hk, hvalid] at hretry hgiveUp
    refine ⟨fun hleft => ?_, hgiveUp⟩
    obtain ⟨hgoing, hdue, _⟩ := hretry hleft
    exact ⟨hgoing, hdue, fun after hcalm => h.tries_after_loss hloss hcalm⟩
  · intro hid
    have hbound := start_tries_le config hid
    rw [hvalid] at hbound
    exact hbound
  · intro m after hid hlater
    have hbound := h.tries_after_identity hid hlater
    rw [hvalid] at hbound
    exact hbound
  · intro hdone after
    exact tries_follow_of_isFinished hdone after
  · intro s x hsame hloss hleft hshown
    -- on a stage the client is the same, only its surroundings are others
    have hretry := (h.of_toClient_eq hsame).retry hloss
    rw [hsame, hk, hvalid] at hretry
    obtain ⟨_, _, hset⟩ := hretry hleft
    exact ClientStage.react_broken hset hshown

/-- A client that is to wait for the longest time before it tries again breaks off at its first
loss, though the session bears another: its one attempt is all that is on record. -/
theorem longest_delay_breaks :
    let longest : Duration := .ofSecs 18446744073709551615
    let config : ClientConfig := { session := ⟨3, longest, longest⟩ }
    let s := ClientStage.start config { reception := .refuse }
    s.run.machine.session.attempts = 1 ∧ 1 < config.validated.session.maxAttempts.toNat ∧
      s.run.isFinished = false ∧ s.broken = true ∧ s.isStopped = true ∧
      s.record.map Prod.snd = [.attempted, .reported (.connectionChanged .connecting)] := by
  decide +kernel

end Run

end TileRoom
