/-!
# Invite tokens

A 64-bit conversation id as eleven characters. The id is written most significant bits first, six
bits a character: ten full characters and one for the last four bits, whose value is below
sixteen. So each id has one token and each token one id.
-/

namespace TileRoom.Invite

/-- The sixty-four symbols, in the order of their values. -/
def alphabet : List Char :=
  "ABCDEFGHIJKLMNOPQRSTUVWXYZabcdefghijklmnopqrstuvwxyz0123456789-_".toList

/-- The symbol of a value below sixty-four. -/
def symbol (n : Nat) : Char :=
  alphabet.getD n 'A'

/-- The value of a symbol. -/
def symbolValue? (c : Char) : Option Nat :=
  alphabet.idxOf? c

/-- How many characters of a token carry six bits. -/
def fullSymbols : Nat := 10

/-- How many values the last character of a token takes. -/
def lastValues : Nat := 16

/-- Shifts so many characters out of the top of a word. What is left are the bits below them, moved
to the top. -/
def shiftOut : (count : Nat) → UInt64 → List Char × UInt64
  | 0, bits => ([], bits)
  | count + 1, bits =>
    let (cs, rest) := shiftOut count (bits <<< 6)
    (symbol (bits >>> 58).toNat :: cs, rest)

/-- The characters of an id's token. -/
def tokenChars (id : UInt64) : List Char :=
  let (full, rest) := shiftOut fullSymbols id
  full ++ [symbol (rest >>> 60).toNat]

/-- An id's token. -/
def token (id : UInt64) : String :=
  String.ofList (tokenChars id)

/-- Shifts a character into a word from below. -/
def shiftIn (bits : UInt64) (c : Char) : Option UInt64 :=
  (symbolValue? c).map fun n => bits <<< 6 ||| UInt64.ofNat n

/-- The id of a token given as characters. -/
def ofTokenChars? (cs : List Char) : Option UInt64 :=
  if cs.length = fullSymbols + 1 then do
    let bits ← (cs.take fullSymbols).foldlM shiftIn 0
    let last ← (cs.drop fullSymbols).head? >>= symbolValue?
    if last < lastValues then some (bits <<< 4 ||| UInt64.ofNat last) else none
  else none

/-- The id of a token. No other text has one. -/
def ofToken? (s : String) : Option UInt64 :=
  ofTokenChars? s.toList

end TileRoom.Invite
