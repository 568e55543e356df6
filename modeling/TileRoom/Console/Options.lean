import TileRoom.Client.Config
import TileRoom.Invite.Link

/-!
# Console options

What the console is started with: where the server is, what to enter and under which name. An
invitation comes before a room.
-/

namespace TileRoom.Console

structure Options where
  host : String := "localhost"
  room : String := "default"
  invite : Option String := none
  name : String := "Player"
  deriving DecidableEq

inductive OptionsError
  | unknown (argument : String)
  | missingValue (option : String)
  | notAnInvite (text : String)
  deriving DecidableEq

def OptionsError.message : OptionsError → String
  | .unknown argument => s!"unexpected argument: {argument}"
  | .missingValue option => s!"missing value: {option}"
  | .notAnInvite text => s!"not an invite link: {text}"

namespace Options

/-- The options with one of them set. -/
def set (o : Options) (option value : String) : Except OptionsError Options :=
  if option = "--host" then .ok { o with host := value }
  else if option = "--room" ∨ option = "-r" then .ok { o with room := value }
  else if option = "--invite" ∨ option = "-i" then .ok { o with invite := some value }
  else if option = "--name" ∨ option = "-n" then .ok { o with name := value }
  else .error (.unknown option)

/-- Reads options, each followed by its value. -/
def parse (o : Options) : List String → Except OptionsError Options
  | [] => .ok o
  | [option] => .error (.missingValue option)
  | option :: value :: rest => do (← o.set option value).parse rest

/-- The settings of a client for these options. -/
def config (o : Options) : Except OptionsError ClientConfig := do
  let join ← match o.invite with
    | none => pure (JoinRequest.room o.room)
    | some text =>
      match Invite.parse? text with
      | some id => pure (.conversation ⟨id⟩)
      | none => throw (.notAnInvite text)
  return {
    endpoint := { host := o.host, secure := false }
    join
    playerName := o.name }

end Options

end TileRoom.Console
