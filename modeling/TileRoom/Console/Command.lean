import TileRoom.Console.Blank
import TileRoom.Console.Numeral

/-!
# Console commands

A line is a chat unless it starts with a slash. Then its words name a command and its arguments.
-/

namespace TileRoom.Console

inductive Command
  | chat (text : String)
  | turn
  | shout
  /-- To play with so many tiles. -/
  | tiles (n : UInt8)
  | move (tile : UInt8) (x y : Int16)
  /-- To show what is known of the game. -/
  | state
  | quit
  deriving DecidableEq

inductive CommandError
  | unknown (line : String)
  | missingArgument
  | notANumber (word : String)
  | unexpectedArgument (word : String)
  deriving DecidableEq

def CommandError.message : CommandError → String
  | unknown line => s!"unknown command: {line}"
  | missingArgument => "missing argument"
  | notANumber word => s!"not a valid number: {word}"
  | unexpectedArgument word => s!"unexpected argument: {word}"

/-- Reads the next word as a number. -/
def argument {α : Type} (read : List Char → Option α) :
    List (List Char) → Except CommandError (α × List (List Char))
  | [] => .error .missingArgument
  | w :: ws =>
    match read w with
    | some a => .ok (a, ws)
    | none => .error (.notANumber (String.ofList w))

/-- The command that the words of `line` name, and the words after its arguments. -/
def Command.ofWords (line : String) :
    List (List Char) → Except CommandError (Command × List (List Char))
  | [] => .error (.unknown line)
  | w :: ws =>
    if w = "turn".toList then .ok (.turn, ws)
    else if w = "shout".toList then .ok (.shout, ws)
    else if w = "tiles".toList then do
      let (n, ws) ← argument byte? ws
      return (.tiles n, ws)
    else if w = "move".toList then do
      let (tile, ws) ← argument byte? ws
      let (x, ws) ← argument coordinate? ws
      let (y, ws) ← argument coordinate? ws
      return (.move tile x y, ws)
    else if w = "state".toList then .ok (.state, ws)
    else if w = "quit".toList then .ok (.quit, ws)
    else .error (.unknown line)

/-- The command of a line. No word may follow its arguments. -/
def Command.parse (line : String) : Except CommandError Command :=
  match line.toList with
  | '/' :: cs =>
    match Command.ofWords line (words cs) with
    | .error e => .error e
    | .ok (command, []) => .ok command
    | .ok (_, w :: _) => .error (.unexpectedArgument (String.ofList w))
  | _ => .ok (.chat line)

end TileRoom.Console
