import TileRoom.Hex
import TileRoom.Invite.Token

/-!
# Identities and flags

What the server names players, conversations and their states by.
-/

namespace TileRoom

/-- A player's identity. The client keeps it only to give it back when it resumes its seat. -/
structure PersonId where
  value : UInt64
  deriving DecidableEq

/-- Sixteen hexadecimal digits. -/
def PersonId.render (p : PersonId) : String :=
  String.ofList (Hex.padded 16 p.value.toNat)

/-- The identity of a conversation that was made by an invitation. -/
structure ConversationId where
  value : UInt64
  deriving DecidableEq

/-- A conversation is shown as its invite token. -/
def ConversationId.render (c : ConversationId) : String :=
  Invite.token c.value

/-- A player's status bits. -/
structure PlayerFlags where
  bits : UInt8
  deriving DecidableEq

namespace PlayerFlags

def none : PlayerFlags := ⟨0⟩
def connected : PlayerFlags := ⟨1⟩
def typing : PlayerFlags := ⟨2⟩
def nextTurn : PlayerFlags := ⟨4⟩

/-- Whether all bits of `b` are set in `a`. -/
def contains (a b : PlayerFlags) : Bool :=
  a.bits &&& b.bits == b.bits

/-- The bits that are set in either. -/
def union (a b : PlayerFlags) : PlayerFlags :=
  ⟨a.bits ||| b.bits⟩

end PlayerFlags

end TileRoom
