import TileRoom.Link.Endpoint
import TileRoom.Session.Basic
import TileRoom.Text

/-!
# How a client is set up
-/

namespace TileRoom

/-- The longest name of a player or room, in bytes. -/
def maxName : Nat := 256

/-- The longest chat, in bytes. -/
def maxChat : Nat := 1000

@[ext] structure ClientConfig where
  endpoint : Endpoint := { host := "localhost", secure := false }
  join : JoinRequest := default
  playerName : String := ""
  session : ReconnectPolicy := {}
  /-- How long a connection may be idle. -/
  keepAliveInterval : Duration := .ofSecs 150
  /-- How long to wait for the connection to write what was sent. -/
  flushRetryInterval : Duration := .ofMillis 100
  /-- How long a shout is shown. -/
  shoutDuration : Duration := .ofSecs 10
  /-- How long an attempt to connect may take. -/
  connectTimeout : Duration := .ofSecs 10
  deriving DecidableEq

namespace ClientConfig

/-- A name that fits the wire. -/
def fitName (s : String) : String :=
  Text.truncate (Text.withoutNul s) maxName

/-- An interval that is not zero. -/
def raise (d : Duration) : Duration :=
  if d.isZero then .ofMillis 1 else d

/-- What is entered under a name that fits the wire. -/
def fitJoin : JoinRequest → JoinRequest
  | .room name => .room (fitName name)
  | .conversation id => .conversation id

/-- The nearest settings that can be used. -/
def validated (c : ClientConfig) : ClientConfig :=
  { c with
    playerName := fitName c.playerName
    join := fitJoin c.join
    keepAliveInterval := raise c.keepAliveInterval
    flushRetryInterval := raise c.flushRetryInterval
    connectTimeout := raise c.connectTimeout
    session := c.session.validated }

end ClientConfig

end TileRoom
