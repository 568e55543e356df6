import TileRoom.Hex

/-!
# JSON text

The values that reports are made of, and how they are written: without blanks, members in the
order they are given, and no character escaped that need not be.
-/

namespace TileRoom.Report

inductive Json
  | null
  | bool (b : Bool)
  | int (n : Int)
  | text (s : String)
  | array (items : List Json)
  | object (members : List (String × Json))

namespace Json

def nat (n : Nat) : Json :=
  .int n

/-- A value that may be missing. -/
def option {α : Type} (f : α → Json) : Option α → Json
  | none => .null
  | some a => f a

def list {α : Type} (f : α → Json) (as : List α) : Json :=
  .array (as.map f)

/-- An object that is told apart by its type. -/
def tagged (type : String) (members : List (String × Json)) : Json :=
  .object (("type", .text type) :: members)

/-- A character inside quotes. -/
def escape (c : Char) : List Char :=
  if c = '"' then ['\\', '"']
  else if c = '\\' then ['\\', '\\']
  else if c = '\n' then ['\\', 'n']
  else if c = '\r' then ['\\', 'r']
  else if c = '\t' then ['\\', 't']
  else if c = '\x08' then ['\\', 'b']
  else if c = '\x0c' then ['\\', 'f']
  else if c.toNat < 32 then ['\\', 'u'] ++ Hex.padded 4 c.toNat
  else [c]

/-- A text in quotes. -/
def quote (s : String) : String :=
  "\"" ++ String.ofList (s.toList.flatMap escape) ++ "\""

mutual

/-- Writes a value after what is written already. -/
def write (out : String) : Json → String
  | .null => out ++ "null"
  | .bool true => out ++ "true"
  | .bool false => out ++ "false"
  | .int n => out ++ toString n
  | .text s => out ++ quote s
  | .array items => writeItems (out ++ "[") items ++ "]"
  | .object members => writeMembers (out ++ "\x7b") members ++ "\x7d"

/-- Writes values with commas between them. -/
def writeItems (out : String) : List Json → String
  | [] => out
  | [item] => item.write out
  | item :: items => writeItems (item.write out ++ ",") items

/-- Writes members with commas between them. -/
def writeMembers (out : String) : List (String × Json) → String
  | [] => out
  | [(name, value)] => value.write (out ++ quote name ++ ":")
  | (name, value) :: members =>
    writeMembers (value.write (out ++ quote name ++ ":") ++ ",") members

end

/-- The text of a value. -/
def render (v : Json) : String :=
  v.write ""

end Json

end TileRoom.Report
