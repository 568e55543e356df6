/-!
# Numerals

Decimal numerals with an optional sign. Leading zeros do no harm. A minus sign is read only where
negative numbers are possible.
-/

namespace TileRoom.Console

/-- Whether a character is an ASCII digit. -/
def isDigit (c : Char) : Bool :=
  '0' ≤ c && c ≤ '9'

/-- The value of digits. -/
def digitsValue (cs : List Char) : Nat :=
  cs.foldl (fun n c => n * 10 + (c.toNat - 48)) 0

/-- The value of one or more digits. -/
def digits? (cs : List Char) : Option Nat :=
  if !cs.isEmpty && cs.all isDigit then some (digitsValue cs) else none

/-- A number that is not negative. -/
def unsigned? : List Char → Option Nat
  | '+' :: cs => digits? cs
  | cs => digits? cs

/-- A number of either sign. -/
def signed? : List Char → Option Int
  | '-' :: cs => (digits? cs).map fun n => -(n : Int)
  | cs => (unsigned? cs).map fun n => (n : Int)

/-- A number from 0 to 255. -/
def byte? (cs : List Char) : Option UInt8 :=
  (unsigned? cs).bind fun n => if n < 256 then some (UInt8.ofNat n) else none

/-- A number from -32768 to 32767. -/
def coordinate? (cs : List Char) : Option Int16 :=
  (signed? cs).bind fun n => if -32768 ≤ n ∧ n ≤ 32767 then some (Int16.ofInt n) else none

end TileRoom.Console
