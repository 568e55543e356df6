import TileRoom.Invite.Token

/-!
# Invite links

A link is a fixed address followed by a token. It is read without regard to the case of the ASCII
letters of the address, with or without the `s` of the scheme. A token is also read on its own or
as a query, that is after a question mark.
-/

namespace TileRoom.Invite

/-- What stands between the scheme and the token. -/
def address : String := "://gemelo.org/j/"

/-- The link that is given out for an id. -/
def link (id : UInt64) : String :=
  "https" ++ address ++ token id

/-- The lower case form of an ASCII letter. -/
def foldCase (c : Char) : Char :=
  if 'A' ≤ c ∧ c ≤ 'Z' then Char.ofNat (c.toNat + 32) else c

/-- What follows `start` at the beginning of a text, ASCII letters of either case being equal. -/
def dropFolded? : (start cs : List Char) → Option (List Char)
  | [], cs => some cs
  | _ :: _, [] => none
  | d :: ds, c :: cs => if foldCase d = foldCase c then dropFolded? ds cs else none

/-- The id that a link carries. -/
def ofLink? (s : String) : Option UInt64 := do
  let rest ← dropFolded? "http".toList s.toList
  let rest := (dropFolded? ['s'] rest).getD rest
  let rest ← dropFolded? address.toList rest
  ofTokenChars? rest

/-- The id that a query carries, the question mark being optional. -/
def ofQuery? (s : String) : Option UInt64 :=
  match s.toList with
  | '?' :: cs => ofTokenChars? cs
  | cs => ofTokenChars? cs

/-- The id of an invitation in any of its forms. -/
def parse? (s : String) : Option UInt64 :=
  ofLink? s <|> ofQuery? s

end TileRoom.Invite
