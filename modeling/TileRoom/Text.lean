import TileRoom.Utf8

/-!
# Fitting a text into a number of bytes

A text is cut between characters, as late as the limit allows.
-/

namespace TileRoom.Text

/-- How many bytes a text takes. -/
def byteSize (cs : List Char) : Nat :=
  (cs.flatMap String.utf8EncodeChar).length

/-- The longest beginning of a text that takes at most `max` bytes. -/
def fit : (max : Nat) → List Char → List Char
  | _, [] => []
  | max, c :: cs => if c.utf8Size ≤ max then c :: fit (max - c.utf8Size) cs else []

/-- The longest beginning of a text that takes at most `max` bytes. -/
def truncate (s : String) (max : Nat) : String :=
  String.ofList (fit max s.toList)

/-- A text without NUL characters. -/
def withoutNul (s : String) : String :=
  String.ofList (s.toList.filter (· ≠ '\x00'))

end TileRoom.Text
