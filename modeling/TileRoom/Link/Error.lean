import TileRoom.Time.Duration

/-!
# What can go wrong on a connection
-/

namespace TileRoom

inductive LinkError
  | connectFailed (url reason : String)
  | connectTimedOut (url : String) (timeout : Duration)
  | connectionClosed (reason : String)
  | sendFailed (reason : String)
  | receiveFailed (reason : String)
  deriving DecidableEq

def LinkError.message : LinkError → String
  | connectFailed url reason => s!"connect to {url} failed: {reason}"
  | connectTimedOut url timeout => s!"connect to {url} timed out after {timeout.render}"
  | connectionClosed reason => s!"connection closed: {reason}"
  | sendFailed reason => s!"send failed: {reason}"
  | receiveFailed reason => s!"receive failed: {reason}"

end TileRoom
