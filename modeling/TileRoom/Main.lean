import TileRoom.Console.Command
import TileRoom.Console.Options
import TileRoom.Rehearsal.ClientStage
import TileRoom.Report.Client

/-!
# The console

Rehearses a client at the terminal, with a server that lets everybody in and says nothing. Each
line that is typed is a chat or a command; each event of the client is printed as a line of JSON.
-/

namespace TileRoom.Console

open Rehearsal

/-- What a command asks of a client. To quit is to ask for nothing more. -/
def Command.request? : Command → Option Request
  | .chat text => some (.sendMessage text)
  | .turn => some .takeTurn
  | .shout => some .shout
  | .tiles n => some (.setTileCapacity n)
  | .move tile x y => some (.moveTile tile x y)
  | .state => some .snapshot
  | .quit => none

/-- What is printed about what a client has done. -/
def lines (trace : List (Instant × Effect)) : List String :=
  trace.filterMap fun
    | (_, .reported e) => some (Report.clientEvent e).render
    | (_, .answered (.snapshot s)) => some (Report.snapshot s).render
    | _ => none

/-- What is complained about. -/
def complaints (trace : List (Instant × Effect)) : List String :=
  trace.filterMap fun
    | (_, .answered (.refused e)) => some s!"action failed: {e.message}"
    | _ => none

/-- Prints what a client has done in the last step. -/
def print (s : ClientStage) : IO Unit := do
  (lines s.trace).forM IO.println
  (complaints s.trace).forM IO.eprintln

/-- Follows the commands that are typed until there are no more. -/
partial def follow (input : IO.FS.Stream) (s : ClientStage) : IO ClientStage := do
  let line ← input.getLine
  if line.isEmpty || s.isStopped then return s
  let text := String.ofList (line.toList.filter fun c => c ≠ '\n' && c ≠ '\r')
  if (words text.toList).isEmpty then follow input s
  else match Command.parse text with
    | .error e =>
      IO.eprintln e.message
      follow input s
    | .ok command =>
      match command.request? with
      | none => return s
      | some request =>
        let (_, s) := s.step (.request request)
        print s
        follow input s

end TileRoom.Console

open TileRoom TileRoom.Console TileRoom.Rehearsal in
def main (args : List String) : IO UInt32 := do
  match ({} : Options).parse args >>= Options.config with
  | .error e =>
    IO.eprintln e.message
    return 1
  | .ok config =>
    let s := ClientStage.start config.validated {}
    print s
    let s ← follow (← IO.getStdin) s
    unless s.isStopped do
      print (s.step .leave).2
    return 0
