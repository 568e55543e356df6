import TileRoom.Time.Duration

/-!
# Deadlines

A deadline is set for an instant or not at all. One that is not set is never due. One that is due
stays so until it is cancelled or set anew.
-/

namespace TileRoom

structure Deadline where
  due? : Option Instant := none
  deriving DecidableEq

namespace Deadline

def isArmed (d : Deadline) : Bool :=
  d.due?.isSome

/-- Sets a deadline for an instant, whatever it was set for before. -/
def armAt (_ : Deadline) (due : Instant) : Deadline :=
  ⟨some due⟩

/-- Sets a deadline for some time from now. -/
def arm (d : Deadline) (now : Instant) (after : Duration) : Deadline :=
  d.armAt (now + after.nanos)

/-- Sets a deadline that is not set yet. -/
def armIfIdle (d : Deadline) (now : Instant) (after : Duration) : Deadline :=
  if d.isArmed then d else d.arm now after

def cancel (_ : Deadline) : Deadline :=
  ⟨none⟩

/-- Whether the instant it is set for has come. -/
def isDue (d : Deadline) (now : Instant) : Bool :=
  d.due?.any (· ≤ now)

/-- The time that is left, none if the instant has passed. -/
def remaining? (d : Deadline) (now : Instant) : Option Nat :=
  d.due?.map (· - now)

/-- How long it takes until it is due, if it gets so within `limit`. -/
def wait? (d : Deadline) (now : Instant) (limit : Nat) : Option Nat :=
  (d.remaining? now).filter (· ≤ limit)

/-- One that is not set is never due. -/
theorem isArmed_of_isDue {d : Deadline} {now : Instant} (h : d.isDue now = true) :
    d.isArmed = true := by
  unfold isDue at h
  cases hdue : d.due? with
  | none => rw [hdue] at h; cases h
  | some due => rw [isArmed, hdue]; rfl

/-- One that is set will be due. -/
theorem isDue_of_le {d : Deadline} {now due : Instant} (h : d.due? = some due) (hdue : due ≤ now) :
    d.isDue now = true := by
  simpa [isDue, h] using hdue

end Deadline

end TileRoom
