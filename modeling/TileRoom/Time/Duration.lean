/-!
# Lengths of time

A duration is a whole number of nanoseconds, up to the largest that a 64-bit count of seconds and
a remainder can hold. An instant is the number of nanoseconds since a clock was started.
-/

namespace TileRoom

/-- A length of time. -/
@[ext] structure Duration where
  nanos : Nat
  nanos_lt : nanos < 18_446_744_073_709_551_616 * 1_000_000_000
  deriving DecidableEq

namespace Duration

/-- The duration of `n` nanoseconds, or the largest one if there is none so long. -/
def ofNanos (n : Nat) : Duration :=
  ⟨min n (18_446_744_073_709_551_616 * 1_000_000_000 - 1), by omega⟩

def ofMillis (n : Nat) : Duration :=
  ofNanos (n * 1_000_000)

def ofSecs (n : Nat) : Duration :=
  ofNanos (n * 1_000_000_000)

/-- Whole seconds. -/
def secs (d : Duration) : Nat :=
  d.nanos / 1_000_000_000

/-- What is left after the whole seconds, in nanoseconds. -/
def subsecNanos (d : Duration) : Nat :=
  d.nanos % 1_000_000_000

def isZero (d : Duration) : Bool :=
  d.nanos == 0

/-- The longer of two durations. -/
def longer (a b : Duration) : Duration :=
  if a.nanos < b.nanos then b else a

/-- The shorter of two durations. -/
def shorter (a b : Duration) : Duration :=
  if b.nanos < a.nanos then b else a

/-- Twice a duration, or the largest one if there is none so long. -/
def double (d : Duration) : Duration :=
  ofNanos (d.nanos * 2)

@[simp] theorem longer_nanos (a b : Duration) : (a.longer b).nanos = max a.nanos b.nanos := by
  unfold longer
  split <;> omega

@[simp] theorem shorter_nanos (a b : Duration) : (a.shorter b).nanos = min a.nanos b.nanos := by
  unfold shorter
  split <;> omega

/-- A ceiling hides that the largest duration is not doubled. -/
theorem double_shorter_nanos (a ceiling : Duration) :
    (a.double.shorter ceiling).nanos = min (a.nanos * 2) ceiling.nanos := by
  have hceiling := ceiling.nanos_lt
  simp only [shorter_nanos, double, ofNanos]
  omega

/-- The decimal digits of a fraction of `width` places, without the zeros at its end. -/
def fractionDigits : (width n : Nat) → List Char
  | 0, _ => []
  | width + 1, n =>
    if n % 10 = 0 then fractionDigits width (n / 10)
    else ((Nat.toDigits 10 n).leftpad (width + 1) '0')

/-- A whole part and a fraction of `width` places, the point only where a fraction follows. -/
def decimal (whole width fraction : Nat) : String :=
  match fractionDigits width fraction with
  | [] => toString whole
  | ds => toString whole ++ "." ++ String.ofList ds

/-- A duration in the largest unit that it holds at least one of, from seconds down. -/
def render (d : Duration) : String :=
  let n := d.nanos
  if 1_000_000_000 ≤ n then decimal (n / 1_000_000_000) 9 (n % 1_000_000_000) ++ "s"
  else if 1_000_000 ≤ n then decimal (n / 1_000_000) 6 (n % 1_000_000) ++ "ms"
  else if 1_000 ≤ n then decimal (n / 1_000) 3 (n % 1_000) ++ "µs"
  else decimal n 0 0 ++ "ns"

end Duration

/-- Nanoseconds since the clock was started. -/
abbrev Instant := Nat

namespace Instant

/-- The last instant that a clock with a signed 64-bit count of seconds can show. -/
def last : Instant := 9_223_372_036_854_775_808 * 1_000_000_000 - 1

/-- Whole milliseconds since the clock was started. -/
def millis (t : Instant) : Nat :=
  t / 1_000_000

end Instant

end TileRoom
