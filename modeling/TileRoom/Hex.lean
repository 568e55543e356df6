/-!
# Hexadecimal text

Bytes and numbers in lower case hexadecimal.
-/

namespace TileRoom.Hex

/-- The digit of a value below sixteen. -/
def digit (n : Nat) : Char :=
  Char.ofNat (if n < 10 then 48 + n else 87 + n)

/-- The last `width` digits of a number, most significant first. -/
def padded : (width n : Nat) → List Char
  | 0, _ => []
  | width + 1, n => padded width (n / 16) ++ [digit (n % 16)]

/-- A byte string as two digits a byte. -/
def ofBytes (bs : List UInt8) : String :=
  String.ofList (bs.flatMap fun b => padded 2 b.toNat)

/-- The value of a digit of either case. -/
def value? (c : Char) : Option Nat :=
  if '0' ≤ c ∧ c ≤ '9' then some (c.toNat - 48)
  else if 'a' ≤ c ∧ c ≤ 'f' then some (c.toNat - 87)
  else if 'A' ≤ c ∧ c ≤ 'F' then some (c.toNat - 55)
  else none

/-- Reads two digits a byte. -/
def toBytes? : List Char → Option (List UInt8)
  | [] => some []
  | [_] => none
  | c :: d :: cs => do
    let hi ← value? c
    let lo ← value? d
    let bs ← toBytes? cs
    return UInt8.ofNat (hi * 16 + lo) :: bs

end TileRoom.Hex
