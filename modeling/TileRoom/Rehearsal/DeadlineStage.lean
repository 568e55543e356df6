import TileRoom.Time.Deadline

/-!
# Rehearsing a deadline

A deadline and a clock that moves only when it is told to.
-/

namespace TileRoom.Rehearsal

inductive DeadlineStep
  | arm (after : Duration)
  | armAt (due : Instant)
  | armIfIdle (after : Duration)
  | cancel
  | advance (nanos : Nat)
  /-- Waits for the deadline, but not longer than this. -/
  | wait (limit : Nat)

inductive DeadlineResult
  | none
  | armed (now : Bool)
  | fired
  | timedOut

structure DeadlineStage where
  deadline : Deadline := {}
  now : Instant := 0

/-- Does a step. -/
def DeadlineStage.step (s : DeadlineStage) : DeadlineStep → DeadlineResult × DeadlineStage
  | .arm after => (.none, { s with deadline := s.deadline.arm s.now after })
  | .armAt due => (.none, { s with deadline := s.deadline.armAt due })
  | .armIfIdle after =>
    (.armed !s.deadline.isArmed, { s with deadline := s.deadline.armIfIdle s.now after })
  | .cancel => (.none, { s with deadline := s.deadline.cancel })
  | .advance nanos => (.none, { s with now := s.now + nanos })
  | .wait limit =>
    match s.deadline.wait? s.now limit with
    | some takes => (.fired, { s with now := s.now + takes })
    | none => (.timedOut, { s with now := s.now + limit })

end TileRoom.Rehearsal
