import TileRoom.Time.Duration

/-!
# Growing delays

A backoff hands out delays that double up to a ceiling, until it is reset. The ceiling is never
below the first delay, so equal bounds give a fixed delay.
-/

namespace TileRoom

structure Backoff where
  initial : Duration
  ceiling : Duration
  /-- The delay that comes next. -/
  current : Duration
  deriving DecidableEq

namespace Backoff

/-- A backoff that starts with `initial` and stays below `ceiling`, or at `initial` if that is
longer. -/
def new (initial ceiling : Duration) : Backoff :=
  ⟨initial, ceiling.longer initial, initial⟩

/-- The delay to wait now, and the backoff for the one after it. -/
def next (b : Backoff) : Duration × Backoff :=
  (b.current, { b with current := b.current.double.shorter b.ceiling })

/-- The delay that `next` would hand out. -/
def peek (b : Backoff) : Duration :=
  b.current

/-- Starts over from the first delay. -/
def reset (b : Backoff) : Backoff :=
  { b with current := b.initial }

end Backoff

end TileRoom
