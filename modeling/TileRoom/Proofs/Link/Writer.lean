import Mathlib.Algebra.BigOperators.Group.List.Basic
import Mathlib.Algebra.GroupWithZero.Nat
import Mathlib.Data.List.Perm.Basic
import TileRoom.Proofs.Link.Traffic

/-!
# What a writer gets through

`Traffic.Sound` is what holds between any two steps of the callers and the writer: how what was
accepted, begun and ended hang together, what the counter stands at, and why a writer has stopped.
`Owes.written` says that a writer which gets to its steps gets as far as the first farewell,
whatever else happens meanwhile: its `progress` never falls, and it rises with each step that is
due. `Abandoned` is what remains of a socket that is let go of without a close. Its writer may be in
the middle of a turn just then; it goes on until the turn ends, and not any further.
`accounted_and_in_order` puts this together.
-/

namespace TileRoom

namespace Socket.Task

/-- What is being written. -/
@[simp] def writing? : Task → Option Outgoing
  | writing m => some m
  | _ => none

/-- What the writer has taken and not accounted for. -/
@[simp] def owed? : Task → Option Outgoing
  | writing m | written m _ => some m
  | _ => none

/-- How the last write has ended, as long as the writer has not gone on. -/
@[simp] def outcome? : Task → Option (Outgoing × Bool)
  | written m well | settled m well => some (m, well)
  | _ => none

/-- How far the writer has got with a piece, counted from the end of the write before. -/
@[simp] def rank : Task → Nat
  | written .. => 0
  | settled .. => 1
  | free => 2
  | writing _ => 3

/-- The step that the writer is to take next, as long as no write fails. -/
def due : Task → SocketAct
  | written .. => .account
  | settled .. => .conclude
  | free => .take
  | writing _ => .finish true

theorem rank_le (task : Task) : task.rank ≤ 3 := by
  cases task <;> simp

/-- A writer that can wait has gone on after its last write. -/
theorem outcome?_eq_none {task : Task} (h : task.canWait = true) : task.outcome? = none := by
  cases task <;> simp_all [canWait]

end Socket.Task

namespace Traffic

/-! ## What holds between any two steps -/

/-- How many bytes some pieces have. -/
def bytesOf (ms : List Outgoing) : Nat :=
  (ms.map Outgoing.length).sum

/-- How many bytes some calls have counted that nobody else knows of. -/
def bytesOfCalls (calls : List SocketCall) : Nat :=
  (calls.map SocketCall.length).sum

structure Sound (t : Traffic) : Prop where
  /-- What was accepted and has not been begun waits in the queue. -/
  order : acceptedOf t.record = begunOf t.record ++ t.socket.queue
  /-- What was begun has ended, but for the piece that is being written. -/
  writing : begunOf t.record = (endedOf t.record).map Prod.fst ++ t.socket.task.writing?.toList
  counted : t.socket.buffered =
    bytesOfCalls t.calls + bytesOf (t.socket.task.owed?.toList ++ t.socket.queue)
  marked : t.socket.closing = true ↔ .marked ∈ t.record
  /-- A close leaves its mark before its farewell can be seen. -/
  announced : .handing .farewell ∈ t.calls ∨ .farewell ∈ acceptedOf t.record →
    t.socket.closing = true
  outcome : ∀ x, t.socket.task.outcome? = some x → x ∈ endedOf t.record
  /-- Between the end of a write and the next piece the writer has its turn. -/
  resting : t.socket.mode ≠ .working → t.socket.task.outcome? = none
  /-- A writer that still works has met nothing that stops it, unless that has only just been. -/
  going : t.socket.mode ≠ .stopped → ∀ x ∈ endedOf t.record,
    x.2 = true ∧ x.1 ≠ .farewell ∨ t.socket.task.outcome? = some x
  stopped : t.socket.mode = .stopped →
    (∃ x ∈ endedOf t.record, x.2 = false ∨ x.1 = .farewell) ∨ t.socket.aborted = true
  /-- Its writer is told to stop if and only if a socket is let go of that is not closing. -/
  aborted : t.socket.aborted = true ↔ t.dropped = true ∧ t.socket.closing = false
  final : t.record.Pairwise fun e e' => e.isFinal = true → e'.began? = none

section Steps

variable {t t' : Traffic} {a : SocketAct} {i : Nat} {call : SocketCall}

theorem bytesOf_singleton (m : Outgoing) : bytesOf [m] = m.length := rfl

theorem bytesOf_append (ms ns : List Outgoing) : bytesOf (ms ++ ns) = bytesOf ms + bytesOf ns := by
  simp [bytesOf]

theorem bytesOfCalls_singleton (call : SocketCall) : bytesOfCalls [call] = call.length := rfl

theorem bytesOfCalls_append (cs ds : List SocketCall) :
    bytesOfCalls (cs ++ ds) = bytesOfCalls cs + bytesOfCalls ds := by
  simp [bytesOfCalls]

theorem bytesOfCalls_refusal (m : Outgoing) : bytesOfCalls m.refusal = m.length := by
  cases m <;> rfl

/-- A call that goes on is taken out of those under way. -/
theorem bytesOfCalls_eraseIdx {calls : List SocketCall} (h : calls[i]? = some call) :
    bytesOfCalls calls = call.length + bytesOfCalls (calls.eraseIdx i) := by
  obtain ⟨hi, rfl⟩ := List.getElem?_eq_some_iff.mp h
  have hperm := (List.getElem_cons_eraseIdx_perm hi).map SocketCall.length
  exact hperm.sum_eq.symm

theorem pairwise_concat {record : List SocketEvent} {e : SocketEvent}
    (h : record.Pairwise fun e e' => e.isFinal = true → e'.began? = none)
    (he : ∀ e' ∈ record, e'.isFinal = true → e.began? = none) :
    (record ++ [e]).Pairwise fun e e' => e.isFinal = true → e'.began? = none := by
  rw [List.pairwise_append]
  refine ⟨h, List.pairwise_singleton _ _, fun e₁ he₁ e₂ he₂ => ?_⟩
  rw [List.mem_singleton.mp he₂]
  exact he e₁ he₁

theorem mode_ne_stopped (hgo : t.socket.wake.mode = .working) : t.socket.mode ≠ .stopped := by
  rcases Socket.wake_mode.mp hgo with hmode | ⟨hmode, _⟩ <;> simp [hmode]

/-- A writer that works and has gone on after its last write has met nothing that stops it. -/
theorem Sound.passed (h : t.Sound) (hmode : t.socket.mode ≠ .stopped)
    (hnone : t.socket.task.outcome? = none) :
    ∀ x ∈ endedOf t.record, x.2 = true ∧ x.1 ≠ .farewell := by
  intro x hx
  refine (h.going hmode x hx).resolve_right fun hsome => ?_
  cases hnone.symm.trans hsome

/-- As long as the writer can take a piece, nothing final has been seen. -/
theorem Sound.not_isFinal (h : t.Sound) (hmode : t.socket.mode ≠ .stopped)
    (htask : t.socket.task = .free) {e : SocketEvent} (he : e ∈ t.record) :
    e.isFinal = false := by
  have hended := h.passed hmode (by rw [htask]; rfl)
  have hbegun : begunOf t.record = (endedOf t.record).map Prod.fst := by
    simpa [htask] using h.writing
  cases e with
  | began m =>
      cases m with
      | farewell =>
          have hmem : Outgoing.farewell ∈ begunOf t.record := List.mem_filterMap.mpr ⟨_, he, rfl⟩
          rw [hbegun] at hmem
          obtain ⟨x, hx, hfarewell⟩ := List.mem_map.mp hmem
          exact absurd hfarewell (hended x hx).2
      | frame bytes => rfl
  | ended m well =>
      have hmem : (m, well) ∈ endedOf t.record := List.mem_filterMap.mpr ⟨_, he, rfl⟩
      obtain rfl : well = true := (hended _ hmem).1
      rfl
  | _ => rfl

theorem start_sound : ({} : Traffic).Sound where
  order := rfl
  writing := rfl
  counted := rfl
  marked := by simp
  announced := by simp [acceptedOf]
  outcome := by simp
  resting := fun _ => rfl
  going := by simp [endedOf]
  stopped := by simp
  aborted := by simp
  final := .nil

theorem Sound.order_next (h : t.Sound) (hacting : Acting t a t') :
    acceptedOf t'.record = begunOf t'.record ++ t'.socket.queue := by
  have horder := h.order
  cases hacting with
  | took _ _ hqueue => simp [horder, hqueue]
  | _ => simp [horder]

theorem Sound.writing_next (h : t.Sound) (hacting : Acting t a t') :
    begunOf t'.record = (endedOf t'.record).map Prod.fst ++ t'.socket.task.writing?.toList := by
  have hbegun := h.writing
  cases hacting with
  | took _ htask _ => simp [hbegun, htask]
  | finished _ _ htask => simp [hbegun, htask]
  | accounted _ htask => simp [hbegun, htask]
  | wentOn _ htask _ => simp [hbegun, htask]
  | retired _ htask _ => simp [hbegun, htask]
  | _ => simp [hbegun]

/-- The counter is at what the calls under way and the pieces not yet accounted for have counted, so
it can bear all that will be taken off. -/
theorem Sound.counted_next (h : t.Sound) (hacting : Acting t a t') :
    t'.socket.buffered =
      bytesOfCalls t'.calls + bytesOf (t'.socket.task.owed?.toList ++ t'.socket.queue) := by
  have hcounted := h.counted
  cases hacting with
  | counted bytes _ =>
      simp only [Socket.count, bytesOfCalls_append, bytesOfCalls_singleton, SocketCall.length,
        Outgoing.length]
      omega
  | marked _ =>
      simpa [bytesOfCalls_append, bytesOfCalls_singleton, SocketCall.length,
        Outgoing.length] using hcounted
  | @accepted _ m hcall _ =>
      have hcalls := bytesOfCalls_eraseIdx hcall
      simp only [note_socket, note_calls, Socket.enqueue, ← List.append_assoc,
        bytesOf_append _ [m], bytesOf_singleton]
      rw [hcounted, hcalls, SocketCall.length]
      omega
  | @refused _ m hcall _ =>
      have hcalls := bytesOfCalls_eraseIdx hcall
      simp only [note_socket, note_calls, bytesOfCalls_append, bytesOfCalls_refusal]
      rw [hcounted, hcalls, SocketCall.length]
      omega
  | withdrawn hcall =>
      have hcalls := bytesOfCalls_eraseIdx hcall
      simp only [Socket.discount]
      rw [hcounted, hcalls, SocketCall.length]
      omega
  | took _ htask hqueue => simpa [htask, hqueue] using hcounted
  | finished _ _ htask => simpa [htask] using hcounted
  | @accounted m _ _ htask =>
      rw [htask, bytesOf_append, Socket.Task.owed?, Option.toList_some,
        bytesOf_singleton] at hcounted
      simp only [Socket.Task.owed?, Option.toList_none, List.nil_append]
      omega
  | wentOn _ htask _ => simpa [htask] using hcounted
  | retired _ htask _ => simpa [htask] using hcounted
  | _ => simpa using hcounted

theorem Sound.marked_next (h : t.Sound) (hacting : Acting t a t') :
    t'.socket.closing = true ↔ .marked ∈ t'.record := by
  have hmarked := h.marked
  cases hacting with
  | _ => simp [hmarked]

theorem Sound.announced_next (h : t.Sound) (hacting : Acting t a t') :
    .handing .farewell ∈ t'.calls ∨ .farewell ∈ acceptedOf t'.record →
      t'.socket.closing = true := by
  have hannounced := h.announced
  cases hacting with
  | marked _ => simp
  | @accepted _ m hcall _ =>
      rintro (hmem | hmem)
      · exact hannounced (.inl (List.mem_of_mem_eraseIdx hmem))
      · rw [note_record, acceptedOf_concat] at hmem
        rcases List.mem_append.mp hmem with hold | hnew
        · exact hannounced (.inr hold)
        · obtain rfl : .farewell = m := by simpa using hnew
          exact hannounced (.inl (List.mem_of_getElem? hcall))
  | @refused _ m _ _ =>
      rintro (hmem | hmem)
      · rcases List.mem_append.mp hmem with hold | hnew
        · exact hannounced (.inl (List.mem_of_mem_eraseIdx hold))
        · cases m <;> simp [Outgoing.refusal] at hnew
      · exact hannounced (.inr (by simpa using hmem))
  | withdrawn _ =>
      rintro (hmem | hmem)
      · exact hannounced (.inl (List.mem_of_mem_eraseIdx hmem))
      · exact hannounced (.inr hmem)
  | _ => simpa using hannounced

theorem Sound.outcome_next (h : t.Sound) (hacting : Acting t a t') :
    ∀ x, t'.socket.task.outcome? = some x → x ∈ endedOf t'.record := by
  have houtcome := h.outcome
  cases hacting with
  | accounted _ htask => simpa [htask] using houtcome
  | took _ _ _ => simp
  | finished _ _ _ => simp
  | wentOn _ _ _ => simp
  | retired _ _ _ => simp
  | _ => simpa using houtcome

theorem Sound.resting_next (h : t.Sound) (hacting : Acting t a t')
    (hmode : t'.socket.mode ≠ .working) : t'.socket.task.outcome? = none := by
  have hresting := h.resting
  cases hacting with
  | halted hwaits _ =>
      rcases hwaits with hwaiting | hcan
      · exact hresting (by simp [hwaiting])
      · exact Socket.Task.outcome?_eq_none hcan
  | rested _ hcan => exact Socket.Task.outcome?_eq_none hcan
  | took _ _ _ => rfl
  | finished _ _ _ => exact absurd rfl hmode
  | woke _ _ => exact absurd rfl hmode
  | accounted hworking _ => exact absurd hworking hmode
  | wentOn _ _ _ => rfl
  | retired _ _ _ => rfl
  | _ => simpa using hresting (by simpa using hmode)

theorem Sound.going_next (h : t.Sound) (hacting : Acting t a t')
    (hmode : t'.socket.mode ≠ .stopped) : ∀ x ∈ endedOf t'.record,
      x.2 = true ∧ x.1 ≠ .farewell ∨ t'.socket.task.outcome? = some x := by
  have hgoing := h.going
  cases hacting with
  | took hgo htask _ => simpa [htask] using hgoing (mode_ne_stopped hgo)
  | @finished m well hgo htask =>
      intro x hx
      rw [note_record, endedOf_concat] at hx
      rcases List.mem_append.mp hx with hold | hnew
      · exact .inl (h.passed (mode_ne_stopped hgo) (by rw [htask]; rfl) x hold)
      · obtain rfl : x = (m, well) := by simpa using hnew
        exact .inr rfl
  | accounted _ htask => simpa [htask] using hgoing hmode
  | @wentOn m _ htask hm =>
      intro x hx
      rcases hgoing hmode x hx with hpassed | hlast
      · exact .inl hpassed
      · obtain rfl : (m, true) = x := by simpa [htask] using hlast
        exact .inl ⟨rfl, hm⟩
  | retired _ _ _ => exact absurd rfl hmode
  | halted _ _ => exact absurd rfl hmode
  | woke hwaiting _ => simpa using hgoing (by simp [hwaiting])
  | rested hworking _ => simpa using hgoing (by simp [hworking])
  | _ => simpa using hgoing (by simpa using hmode)

theorem Sound.stopped_next (h : t.Sound) (hacting : Acting t a t')
    (hmode : t'.socket.mode = .stopped) :
    (∃ x ∈ endedOf t'.record, x.2 = false ∨ x.1 = .farewell) ∨ t'.socket.aborted = true := by
  have hbefore := h.stopped
  cases hacting with
  | @retired m well _ htask hlast =>
      exact .inl ⟨(m, well), h.outcome _ (by rw [htask]; rfl), hlast⟩
  | halted _ haborted => exact .inr haborted
  | dropped _ _ =>
      rcases hbefore (by simpa using hmode) with hended | haborted
      · exact .inl (by simpa using hended)
      · exact .inr (by simp [haborted])
  | took _ _ _ => cases hmode
  | finished _ _ _ => cases hmode
  | woke _ _ => cases hmode
  | rested _ _ => cases hmode
  | _ => simpa using hbefore hmode

theorem Sound.aborted_next (h : t.Sound) (hacting : Acting t a t') :
    t'.socket.aborted = true ↔ t'.dropped = true ∧ t'.socket.closing = false := by
  have haborted := h.aborted
  cases hacting with
  | marked hheld => simpa [hheld] using haborted
  | dropped _ hheld =>
      have hnot : t.socket.aborted = false := by simpa [hheld] using haborted
      simp [hnot]
  | _ => simpa using haborted

theorem Sound.final_next (h : t.Sound) (hacting : Acting t a t') :
    t'.record.Pairwise fun e e' => e.isFinal = true → e'.began? = none := by
  cases hacting with
  | took hgo htask _ =>
      refine pairwise_concat h.final fun e he hfinal => ?_
      cases (h.not_isFinal (mode_ne_stopped hgo) htask he).symm.trans hfinal
  | marked _ => exact pairwise_concat h.final fun _ _ _ => rfl
  | accepted _ _ => exact pairwise_concat h.final fun _ _ _ => rfl
  | refused _ _ => exact pairwise_concat h.final fun _ _ _ => rfl
  | dropped _ _ => exact pairwise_concat h.final fun _ _ _ => rfl
  | finished _ _ _ => exact pairwise_concat h.final fun _ _ _ => rfl
  | _ => exact h.final

/-- A step keeps all of it. -/
theorem Sound.next (h : t.Sound) (hacting : Acting t a t') : t'.Sound where
  order := h.order_next hacting
  writing := h.writing_next hacting
  counted := h.counted_next hacting
  marked := h.marked_next hacting
  announced := h.announced_next hacting
  outcome := h.outcome_next hacting
  resting := h.resting_next hacting
  going := h.going_next hacting
  stopped := h.stopped_next hacting
  aborted := h.aborted_next hacting
  final := h.final_next hacting

theorem Sound.acts (h : t.Sound) (as : List SocketAct) : (t.acts as).Sound := by
  induction as generalizing t with
  | nil => exact h
  | cons a as ih => exact ih (h.next (act_cases t a))

end Steps

/-! ## Order -/

section Order

variable {t : Traffic} {pieces rest : List Outgoing}

theorem Sound.begun_prefix_accepted (h : t.Sound) :
    begunOf t.record <+: acceptedOf t.record :=
  ⟨_, h.order.symm⟩

theorem Sound.ended_prefix_begun (h : t.Sound) :
    (endedOf t.record).map Prod.fst <+: begunOf t.record :=
  ⟨_, h.writing.symm⟩

theorem Sound.ended_prefix_accepted (h : t.Sound) :
    (endedOf t.record).map Prod.fst <+: acceptedOf t.record :=
  h.ended_prefix_begun.trans h.begun_prefix_accepted

/-- The farewell is the last piece that is begun. -/
theorem Sound.rest_eq_nil (h : t.Sound)
    (hbegun : begunOf t.record = pieces ++ .farewell :: rest) : rest = [] := by
  have hlast : (begunOf t.record).Pairwise fun m _ => m ≠ .farewell := by
    refine List.pairwise_filterMap.mpr (h.final.imp ?_)
    rintro e e' hfinal m hm m' hm' rfl
    have he : e = .began .farewell := by
      cases e <;> cases hm
      rfl
    cases (hfinal (by rw [he]; rfl)).symm.trans hm'
  rw [hbegun, List.pairwise_append] at hlast
  refine List.eq_nil_iff_forall_not_mem.mpr fun m hm => ?_
  exact (List.pairwise_cons.mp hlast.2.1).1 m hm rfl

end Order

/-! ## The writer's turns -/

section Turns

variable {t : Traffic} {pieces : List Outgoing} {a : SocketAct} {as : List SocketAct} {k n : Nat}

/-- A close was accepted, and no other before it. It came after `pieces`, and no write has failed
since. -/
structure Owes (pieces : List Outgoing) (t : Traffic) : Prop where
  accepted : pieces ++ [.farewell] <+: acceptedOf t.record
  first : .farewell ∉ pieces
  well : ∀ x ∈ endedOf t.record, x.2 = true

/-- What a writer does from the end of one write to the end of the next. -/
def dues : List SocketAct :=
  [.account, .conclude, .take, .finish true]

/-- What a writer does for so many pieces. -/
def course (n : Nat) : List SocketAct :=
  (List.replicate n dues).flatten

/-- How far a writer has got in its course. -/
def progress (t : Traffic) : Nat :=
  dues.length * (endedOf t.record).length + t.socket.task.rank

/-- What a writer has still to do until so many pieces are written. -/
def stillDue (t : Traffic) (n : Nat) : List SocketAct :=
  (course n).drop t.progress

theorem length_course (n : Nat) : (course n).length = dues.length * n := by
  simp [course, Nat.mul_comm]

theorem dues_of_course (hdue : (course n)[k]? = some a) : dues[k % dues.length]? = some a := by
  induction n generalizing k with
  | zero => simp [course] at hdue
  | succ n ih =>
      rw [course, List.replicate_succ, List.flatten_cons] at hdue
      rcases Nat.lt_or_ge k dues.length with hfirst | hlater
      · rwa [Nat.mod_eq_of_lt hfirst, ← List.getElem?_append_left hfirst]
      · rw [List.getElem?_append_right hlater] at hdue
        rw [Nat.mod_eq_sub_mod hlater]
        exact ih hdue

theorem record_prefix_act (t : Traffic) (a : SocketAct) : t.record <+: (t.act a).record := by
  generalize hacting : t.act a = t'
  have h := hacting ▸ act_cases t a
  cases h with
  | marked _ => exact List.prefix_append _ _
  | accepted _ _ => exact List.prefix_append _ _
  | refused _ _ => exact List.prefix_append _ _
  | dropped _ _ => exact List.prefix_append _ _
  | took _ _ _ => exact List.prefix_append _ _
  | finished _ _ _ => exact List.prefix_append _ _
  | _ => exact List.prefix_refl _

theorem progress_le_act (t : Traffic) (a : SocketAct) : t.progress ≤ (t.act a).progress := by
  have hacting := act_cases t a
  generalize t.act a = t' at hacting
  cases hacting with
  | took _ htask _ => simp [progress, htask]
  | finished _ _ htask => simp [progress, dues, htask, Nat.mul_add]
  | accounted _ htask => simp [progress, htask]
  | wentOn _ htask _ => simp [progress, htask]
  | retired _ htask _ => simp [progress, htask]
  | _ => simp [progress]

/-- A closing socket does not tell its writer to stop. -/
theorem Owes.not_aborted (ho : Owes pieces t) (h : t.Sound) : t.socket.aborted = false := by
  have haccepted : .farewell ∈ acceptedOf t.record := ho.accepted.subset (by simp)
  have hclosing := h.announced (.inr haccepted)
  refine Bool.eq_false_iff.mpr fun haborted => ?_
  cases hclosing.symm.trans (h.aborted.mp haborted).2

/-- A writer that still owes something has not stopped. -/
theorem Owes.mode_ne_stopped (ho : Owes pieces t) (h : t.Sound)
    (hleft : (endedOf t.record).length ≤ pieces.length) : t.socket.mode ≠ .stopped := by
  have hended : (endedOf t.record).map Prod.fst <+: pieces := by
    refine List.prefix_of_prefix_length_le h.ended_prefix_accepted ?_ (by simpa using hleft)
    exact (List.prefix_append _ _).trans ho.accepted
  intro hmode
  rcases h.stopped hmode with ⟨x, hx, hfailed | hfarewell⟩ | haborted
  · cases (ho.well x hx).symm.trans hfailed
  · have hmem := hended.subset (List.mem_map_of_mem hx)
    rw [hfarewell] at hmem
    exact absurd hmem ho.first
  · cases (ho.not_aborted h).symm.trans haborted

/-- It has its turn or can have it. -/
theorem Owes.wake_mode (ho : Owes pieces t) (h : t.Sound)
    (hleft : (endedOf t.record).length ≤ pieces.length) : t.socket.wake.mode = .working := by
  have hmode := ho.mode_ne_stopped h hleft
  rw [Socket.wake_mode]
  cases hcase : t.socket.mode with
  | waiting => exact .inr ⟨rfl, ho.not_aborted h⟩
  | working => exact .inl rfl
  | stopped => exact absurd hcase hmode

/-- A writer that is free and still owes something has the next piece in its queue. -/
theorem Owes.queue_ne_nil (ho : Owes pieces t) (h : t.Sound)
    (hleft : (endedOf t.record).length ≤ pieces.length) (htask : t.socket.task = .free) :
    t.socket.queue ≠ [] := by
  intro hnil
  have hnone : t.socket.task.writing? = none := by rw [htask]; rfl
  have haccepted := ho.accepted.length_le
  rw [h.order, h.writing, hnil, hnone, Option.toList_none, List.append_nil, List.append_nil,
    List.length_map, List.length_append, List.length_singleton] at haccepted
  omega

/-- The step that is due gets a writer further. -/
theorem Owes.progress_lt_due (ho : Owes pieces t) (h : t.Sound)
    (hleft : (endedOf t.record).length ≤ pieces.length) :
    t.progress < (t.act t.socket.task.due).progress := by
  have hgo := ho.wake_mode h hleft
  -- between two pieces the writer has its turn, so it need not be given one
  have hworking (hsome : t.socket.task.outcome? ≠ none) : t.socket.mode = .working :=
    by_contra fun hmode => hsome (h.resting hmode)
  cases htask : t.socket.task with
  | free =>
      obtain ⟨m, queue, hqueue⟩ := List.exists_cons_of_ne_nil (ho.queue_ne_nil h hleft htask)
      simp [progress, act, Socket.Task.due, hgo, htask, hqueue, Socket.take_eq hgo htask hqueue]
  | writing m =>
      simp [progress, dues, act, Socket.Task.due, hgo, htask, Socket.finish_eq true hgo htask,
        Nat.mul_add]
  | written m well =>
      simp [progress, act, Socket.Task.due, Socket.account, hworking, htask]
  | settled m well =>
      simp [progress, act, Socket.Task.due, Socket.conclude, hworking, htask]

theorem Owes.act (ho : Owes pieces t) (ha : a ≠ .finish false) : Owes pieces (t.act a) where
  accepted := ho.accepted.trans ((record_prefix_act t a).filterMap _)
  first := ho.first
  well := by
    have hwell := ho.well
    have hacting := act_cases t a
    generalize t.act a = t' at hacting
    cases hacting with
    | finished well _ _ =>
        obtain rfl : well = true := by simpa using ha
        intro x hx
        rw [note_record, endedOf_concat] at hx
        rcases List.mem_append.mp hx with hold | hnew
        · exact hwell x hold
        · rw [List.mem_singleton.mp hnew]
    | _ => simpa using hwell

theorem Owes.acts (ho : Owes pieces t) (has : .finish false ∉ as) : Owes pieces (t.acts as) := by
  induction as generalizing t with
  | nil => exact ho
  | cons a as ih =>
      obtain ⟨ha, has⟩ := not_or.mp (mt List.mem_cons.mpr has)
      exact ih (ho.act (Ne.symm ha)) has

/-- A writer that gets to the step which is due where it stands has got further, unless it had got
further already. -/
theorem Owes.progress_of_due (ho : Owes pieces t) (h : t.Sound) (hprogress : k ≤ t.progress)
    (hdue : (course (pieces.length + 1))[k]? = some a) : k < (t.act a).progress := by
  rcases Nat.lt_or_ge k t.progress with hfurther | hle
  · exact Nat.lt_of_lt_of_le hfurther (progress_le_act t a)
  · obtain rfl := Nat.le_antisymm hprogress hle
    have hrank := t.socket.task.rank_le
    have hleft := (List.getElem?_eq_some_iff.mp hdue).1
    have hhere := dues_of_course hdue
    rw [length_course] at hleft
    simp only [progress, dues, List.length_cons, List.length_nil] at hleft hhere
    have hmod : (4 * (endedOf t.record).length + t.socket.task.rank) % 4 = t.socket.task.rank := by
      omega
    have ha : t.socket.task.due = a := by
      rw [hmod] at hhere
      cases htask : t.socket.task <;> simp_all [Socket.Task.due]
    exact ha ▸ ho.progress_lt_due h (by omega)

/-- A writer that gets to what it has still to do, whatever else happens meanwhile, gets to the end
of its course. -/
theorem Owes.progress_acts (ho : Owes pieces t) (h : t.Sound) (hprogress : k ≤ t.progress)
    (hturns : ((course (pieces.length + 1)).drop k).Sublist as) (hwell : .finish false ∉ as) :
    dues.length * (pieces.length + 1) ≤ (t.acts as).progress := by
  induction as generalizing t k with
  | nil =>
      have hk := List.drop_eq_nil_iff.mp (List.sublist_nil.mp hturns)
      rw [length_course] at hk
      exact Nat.le_trans hk hprogress
  | cons a as ih =>
      obtain ⟨ha, hwell⟩ := not_or.mp (mt List.mem_cons.mpr hwell)
      have ho' := ho.act (Ne.symm ha)
      have h' := h.next (act_cases t a)
      rcases List.sublist_cons_iff.mp hturns with hlater | ⟨later, hdrop, hlater⟩
      · exact ih ho' h' (Nat.le_trans hprogress (progress_le_act t a)) hlater hwell
      · have hdue : (course (pieces.length + 1))[k]? = some a := by
          rw [← List.head?_drop, hdrop, List.head?_cons]
        have hnext : (course (pieces.length + 1)).drop (k + 1) = later := by
          rw [← List.tail_drop, hdrop, List.tail_cons]
        exact ih ho' h' (ho.progress_of_due h hprogress hdue) (hnext ▸ hlater) hwell

/-- With its turns the writer gets through to the farewell, and no further. -/
theorem Owes.written (ho : Owes pieces t) (h : t.Sound)
    (hturns : (t.stillDue (pieces.length + 1)).Sublist as) (hwell : .finish false ∉ as) :
    endedOf (t.acts as).record = (pieces ++ [Outgoing.farewell]).map (·, true) := by
  have hlength : pieces.length + 1 ≤ (endedOf (t.acts as).record).length := by
    have hprogress := ho.progress_acts h (Nat.le_refl _) hturns hwell
    have hrank := (t.acts as).socket.task.rank_le
    simp only [progress, dues, List.length_cons, List.length_nil] at hprogress
    omega
  have h' := h.acts as
  have ho' := ho.acts hwell
  generalize t.acts as = t' at hlength h' ho' ⊢
  have hpieces : pieces ++ [Outgoing.farewell] <+: (endedOf t'.record).map Prod.fst :=
    List.prefix_of_prefix_length_le ho'.accepted h'.ended_prefix_accepted (by simpa using hlength)
  obtain ⟨rest, hrest⟩ := hpieces
  obtain ⟨later, hlater⟩ := h'.ended_prefix_begun
  rw [← hrest, List.append_assoc, List.append_assoc, List.singleton_append] at hlater
  obtain ⟨rfl, _⟩ := List.append_eq_nil_iff.mp (h'.rest_eq_nil hlater.symm)
  rw [List.append_nil] at hrest
  rw [hrest, List.map_map]
  refine (List.map_congr_left fun x hx => ?_).trans (List.map_id _) |>.symm
  exact Prod.ext rfl (ho'.well x hx).symm

end Turns

/-! ## A socket that is let go of without a close -/

section Abandonment

variable {t : Traffic}

/-- Nobody calls any more, and the writer has been told to stop. -/
structure Abandoned (t : Traffic) : Prop where
  calls : t.calls = []
  dropped : t.dropped = true
  aborted : t.socket.aborted = true

theorem Abandoned.act (hb : Abandoned t) (a : SocketAct) :
    Abandoned (t.act a) ∧ acceptedOf (t.act a).record = acceptedOf t.record := by
  obtain ⟨hcalls, hdropped, haborted⟩ := hb
  have hacting := act_cases t a
  generalize t.act a = t' at hacting
  cases hacting with
  | counted _ hheld => cases hdropped.symm.trans hheld
  | marked hheld => cases hdropped.symm.trans hheld
  | dropped _ hheld => cases hdropped.symm.trans hheld
  | accepted hcall _ => simp [hcalls] at hcall
  | refused hcall _ => simp [hcalls] at hcall
  | withdrawn hcall => simp [hcalls] at hcall
  | _ => exact ⟨⟨hcalls, hdropped, haborted⟩, by simp⟩

theorem Abandoned.acts (hb : Abandoned t) (as : List SocketAct) :
    Abandoned (t.acts as) ∧ acceptedOf (t.acts as).record = acceptedOf t.record := by
  induction as generalizing t with
  | nil => exact ⟨hb, rfl⟩
  | cons a as ih =>
      obtain ⟨hb', hsame⟩ := hb.act a
      exact (ih hb').imp_right fun hrest => hrest.trans hsame

end Abandonment

/-- A frame that is sent after the close does not go out. -/
example : begunOf (({} : Traffic).acts ([.send [1, 2], .close, .goOn 0, .goOn 0, .send [3], .goOn 0,
    .drop] ++ course 4)).record = [.frame [1, 2], .farewell] := by
  decide

end Traffic

end TileRoom
