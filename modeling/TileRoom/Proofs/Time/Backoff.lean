import Mathlib.Algebra.Group.Nat.Defs
import Mathlib.Data.List.DropRight
import TileRoom.Time.Backoff

/-!
# The schedule of delays

A backoff is told by how many delays it handed out since it was reset last: the next one has
doubled as often, up to the ceiling (`Backoff.AtStep`). That holds of a new backoff and survives
every operation, so `delays_scheduled` gives the exact delay after any history.

The doubling is one of whole numbers, while a duration is kept in two parts, seconds in 64 bits and
nanoseconds below a second. `Duration.Parts` is the arithmetic of the parts, with its carry and its
largest value, and `double_shorter_parts` says that nothing is lost in it: what it cuts off is above
every ceiling.
-/

namespace TileRoom

/-! ## Durations in two parts -/

namespace Duration

/-- A duration as it is kept: whole seconds in 64 bits and the nanoseconds that are left. -/
@[ext] structure Parts where
  secs : UInt64
  nanos : Nat
  nanos_lt : nanos < 1_000_000_000
  deriving DecidableEq

def parts (d : Duration) : Parts :=
  ⟨.ofNat d.secs, d.subsecNanos, Nat.mod_lt _ (by decide)⟩

namespace Parts

/-- All of it in nanoseconds. -/
def total (p : Parts) : Nat :=
  p.secs.toNat * 1_000_000_000 + p.nanos

/-- The parts that hold most. -/
def last : Parts :=
  ⟨.ofNat 18_446_744_073_709_551_615, 999_999_999, by decide⟩

/-- Both parts twice, with the full seconds among the nanoseconds carried over. Where the seconds
have no place in 64 bits any more, the parts that hold most. -/
def double (p : Parts) : Parts :=
  let nanos := p.nanos * 2
  let secs := p.secs.toNat * 2 + nanos / 1_000_000_000
  if secs < 18_446_744_073_709_551_616 then
    ⟨.ofNat secs, nanos % 1_000_000_000, Nat.mod_lt _ (by decide)⟩
  else last

/-- The seconds are compared first. -/
def before (p q : Parts) : Bool :=
  p.secs < q.secs || p.secs == q.secs && p.nanos < q.nanos

def longer (p q : Parts) : Parts :=
  if p.before q then q else p

def shorter (p q : Parts) : Parts :=
  if q.before p then q else p

variable {p q : Parts}

theorem total_inj (h : p.total = q.total) : p = q := by
  have hp := p.nanos_lt
  have hq := q.nanos_lt
  unfold total at h
  have hsecs : p.secs.toNat = q.secs.toNat := by omega
  have hnanos : p.nanos = q.nanos := by omega
  exact Parts.ext (UInt64.toNat_inj.mp hsecs) hnanos

theorem total_double (p : Parts) :
    p.double.total = min (p.total * 2) (18_446_744_073_709_551_616 * 1_000_000_000 - 1) := by
  have hp := p.nanos_lt
  have hsecs := p.secs.toNat_lt
  unfold double
  simp only
  split
  case isTrue hplace =>
    simp only [total]
    rw [UInt64.toNat_ofNat_of_lt' hplace]
    omega
  case isFalse hplace =>
    have hlast : last.total = 18_446_744_073_709_551_616 * 1_000_000_000 - 1 := by decide
    rw [hlast, total]
    omega

theorem before_iff : p.before q = true ↔ p.total < q.total := by
  have hp := p.nanos_lt
  have hq := q.nanos_lt
  simp only [before, Bool.or_eq_true, Bool.and_eq_true, decide_eq_true_eq, beq_iff_eq, total,
    UInt64.lt_iff_toNat_lt, ← UInt64.toNat_inj]
  omega

theorem total_longer (p q : Parts) : (p.longer q).total = max p.total q.total := by
  unfold longer
  split
  case isTrue hbefore =>
    rw [before_iff] at hbefore
    omega
  case isFalse hbefore =>
    rw [before_iff] at hbefore
    omega

theorem total_shorter (p q : Parts) : (p.shorter q).total = min p.total q.total := by
  unfold shorter
  split
  case isTrue hbefore =>
    rw [before_iff] at hbefore
    omega
  case isFalse hbefore =>
    rw [before_iff] at hbefore
    omega

end Parts

@[simp] theorem total_parts (d : Duration) : d.parts.total = d.nanos := by
  have hd := d.nanos_lt
  have hsecs : d.secs < 18_446_744_073_709_551_616 := by
    unfold secs
    omega
  simp only [parts, Parts.total]
  rw [UInt64.toNat_ofNat_of_lt' hsecs, secs, subsecNanos]
  omega

theorem longer_parts (a b : Duration) : (a.longer b).parts = a.parts.longer b.parts := by
  apply Parts.total_inj
  rw [Parts.total_longer, total_parts, total_parts, total_parts, longer_nanos]

/-- Doubling and cutting to a ceiling, part by part. -/
theorem double_shorter_parts (a ceiling : Duration) :
    (a.double.shorter ceiling).parts = a.parts.double.shorter ceiling.parts := by
  have hceiling := ceiling.nanos_lt
  apply Parts.total_inj
  rw [Parts.total_shorter, Parts.total_double, total_parts, total_parts, total_parts,
    double_shorter_nanos]
  omega

end Duration

/-! ## The schedule -/

namespace Backoff

/-- What is asked of a backoff. -/
inductive Operation
  | next
  | peek
  | reset
  deriving DecidableEq

/-- The delay that an operation is answered with. -/
def answer (b : Backoff) : Operation → Option Duration
  | .next => some b.next.1
  | .peek => some b.peek
  | .reset => none

def operate (b : Backoff) : Operation → Backoff
  | .next => b.next.2
  | .peek => b
  | .reset => b.reset

def operateAll (b : Backoff) (ops : List Operation) : Backoff :=
  ops.foldl operate b

/-- How many delays were handed out since the last reset. -/
def step (ops : List Operation) : Nat :=
  (ops.rtakeWhile (· ≠ .reset)).count .next

/-- The delay that comes next is the one after `k` others. -/
def AtStep (b : Backoff) (k : Nat) : Prop :=
  b.current.nanos = min (b.initial.nanos * 2 ^ k) b.ceiling.nanos

theorem AtStep.next {b : Backoff} {k : Nat} (h : b.AtStep k) : b.next.2.AtStep (k + 1) := by
  unfold AtStep at h ⊢
  have hpow : b.initial.nanos * 2 ^ (k + 1) = b.initial.nanos * 2 ^ k * 2 := by
    rw [Nat.pow_succ, Nat.mul_assoc]
  simp only [Backoff.next, Duration.double_shorter_nanos, h, hpow]
  omega

theorem atStep_reset {b : Backoff} (h : b.initial.nanos ≤ b.ceiling.nanos) :
    b.reset.AtStep 0 := by
  simp only [AtStep, reset, Nat.pow_zero, Nat.mul_one]
  omega

theorem step_concat (ops : List Operation) (op : Operation) :
    step (ops ++ [op]) = match op with
      | .next => step ops + 1
      | .peek => step ops
      | .reset => 0 := by
  unfold step
  rw [List.rtakeWhile_concat]
  cases op <;> simp

/-- Without a reset the steps only grow. -/
theorem step_append_le (ops : List Operation) {more : List Operation} (h : .reset ∉ more) :
    step ops ≤ step (ops ++ more) := by
  induction more using List.reverseRecOn with
  | nil => rw [List.append_nil]
  | append_singleton more op ih =>
      rw [List.mem_append, not_or, List.mem_singleton] at h
      have tail := ih h.1
      rw [← List.append_assoc, step_concat]
      cases op with
      | next => exact Nat.le_succ_of_le tail
      | peek => exact tail
      | reset => exact absurd rfl h.2

theorem operateAll_append (b : Backoff) (ops more : List Operation) :
    b.operateAll (ops ++ more) = (b.operateAll ops).operateAll more :=
  List.foldl_append

/-- A backoff with given bounds, after so many delays. -/
structure Scheduled (first top : Duration) (k : Nat) (b : Backoff) : Prop where
  initial : b.initial = first
  ceiling : b.ceiling = top.longer first
  atStep : b.AtStep k

section
variable {first top : Duration} {k : Nat} {b : Backoff}

theorem new_scheduled (first top : Duration) : Scheduled first top 0 (new first top) where
  initial := rfl
  ceiling := rfl
  atStep := by
    simp only [AtStep, new, Duration.longer_nanos, Nat.pow_zero, Nat.mul_one]
    omega

theorem Scheduled.reset (h : Scheduled first top k b) : Scheduled first top 0 b.reset where
  initial := h.initial
  ceiling := h.ceiling
  atStep := by
    apply atStep_reset
    rw [h.initial, h.ceiling, Duration.longer_nanos]
    omega

theorem operateAll_scheduled (first top : Duration) (ops : List Operation) :
    Scheduled first top (step ops) ((new first top).operateAll ops) := by
  induction ops using List.reverseRecOn with
  | nil => exact new_scheduled first top
  | append_singleton ops op ih =>
      rw [operateAll_append, step_concat]
      cases op with
      | next => exact ⟨ih.initial, ih.ceiling, ih.atStep.next⟩
      | peek => exact ih
      | reset => exact ih.reset

theorem Scheduled.nanos (h : Scheduled first top k b) :
    b.next.1.nanos = min (first.nanos * 2 ^ k) (max first.nanos top.nanos) := by
  have hdelay := h.atStep
  rw [AtStep, h.initial, h.ceiling, Duration.longer_nanos, Nat.max_comm] at hdelay
  exact hdelay

end

/-- A later delay of a schedule is not shorter. -/
theorem delay_mono (first top : Nat) {j k : Nat} (h : j ≤ k) :
    min (first * 2 ^ j) top ≤ min (first * 2 ^ k) top := by
  have hpow : 2 ^ j ≤ 2 ^ k := Nat.pow_le_pow_right (by decide) h
  have hmul : first * 2 ^ j ≤ first * 2 ^ k := Nat.mul_le_mul_left first hpow
  omega

/-- **The delays follow the schedule.** After any history of a backoff, the delay that it hands out
next is exactly the first one, doubled as often as one was handed out since the last reset, and cut
to the ceiling, which is never below the first delay. A look ahead shows the same delay. Until the
next reset no delay is shorter than it.

The parts in which durations are kept take every step of it without loss. -/
theorem delays_scheduled (initial ceiling : Duration) (ops : List Operation) :
    let b := (new initial ceiling).operateAll ops
    (∃ delay, b.answer .next = some delay ∧ b.answer .peek = some delay ∧
      delay.nanos = min (initial.nanos * 2 ^ step ops) (max initial.nanos ceiling.nanos)) ∧
      (∀ more, .reset ∉ more → ∃ later, (b.operateAll more).answer .next = some later ∧
        b.next.1.nanos ≤ later.nanos) ∧
      b.next.2.peek.parts =
        b.next.1.parts.double.shorter (ceiling.parts.longer initial.parts) := by
  intro b
  have h : Scheduled initial ceiling (step ops) b := operateAll_scheduled initial ceiling ops
  refine ⟨⟨b.next.1, rfl, rfl, h.nanos⟩, ?_, ?_⟩
  · intro more hmore
    refine ⟨_, rfl, ?_⟩
    have hlater := (operateAll_scheduled initial ceiling (ops ++ more)).nanos
    rw [operateAll_append] at hlater
    rw [h.nanos, hlater]
    exact delay_mono _ _ (step_append_le ops hmore)
  · show (b.current.double.shorter b.ceiling).parts = _
    rw [Duration.double_shorter_parts, h.ceiling, Duration.longer_parts]
    rfl

end Backoff

end TileRoom
