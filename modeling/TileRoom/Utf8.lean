/-!
# UTF-8 text

`encode` writes a text as bytes and `decode` reads it back. A byte string that is no text is
refused with the place of its first fault. The fault is reported the way the standard recommends:
the index is the length of the longest valid beginning, and the length is that of the longest run
of bytes there that still begins a well-formed sequence (one byte if there is none).
-/

namespace TileRoom.Utf8

/-- The bytes of a text. -/
def encode (s : String) : List UInt8 :=
  s.toList.flatMap String.utf8EncodeChar

/-- Why a byte string is no text. -/
inductive Fault
  /-- `length` bytes at `index` belong to no well-formed sequence. -/
  | invalid (length index : Nat)
  /-- The string ends inside the sequence that starts at `index`. -/
  | incomplete (index : Nat)
  deriving DecidableEq

/-- The wording of a fault. -/
def Fault.message : Fault → String
  | .invalid length index => s!"invalid utf-8 sequence of {length} bytes from index {index}"
  | .incomplete index => s!"incomplete utf-8 byte sequence from index {index}"

/-- A sequence that has begun: the value of its bits so far, how many bytes are read, how many
are still to come, and the range that the next one must be in. -/
structure Pending where
  bits : Nat
  seen : Nat
  left : Nat
  low : Nat := 0x80
  high : Nat := 0xbf
  deriving DecidableEq

/-- What a first byte announces. The range of the second byte is narrowed where a longer form of
a shorter sequence, a surrogate or a value past the last code point would begin. -/
def Pending.begin (b : Nat) : Option Pending :=
  if b < 0x80 then some { bits := b, seen := 1, left := 0 }
  else if b < 0xc2 then none
  else if b < 0xe0 then some { bits := b - 0xc0, seen := 1, left := 1 }
  else if b < 0xf0 then
    some { bits := b - 0xe0, seen := 1, left := 2,
           low := if b = 0xe0 then 0xa0 else 0x80, high := if b = 0xed then 0x9f else 0xbf }
  else if b < 0xf5 then
    some { bits := b - 0xf0, seen := 1, left := 3,
           low := if b = 0xf0 then 0x90 else 0x80, high := if b = 0xf4 then 0x8f else 0xbf }
  else none

/-- A further byte of a sequence, if it is in range. Only the second byte has a narrowed range. -/
def Pending.advance (p : Pending) (b : Nat) : Option Pending :=
  if p.low ≤ b ∧ b ≤ p.high then
    some { bits := p.bits * 64 + (b - 0x80), seen := p.seen + 1, left := p.left - 1 }
  else none

/-- Reads characters from byte `index` on, in the middle of a sequence or between two. -/
def scan (index : Nat) : Option Pending → List UInt8 → Except Fault (List Char)
  | none, [] => .ok []
  | some _, [] => .error (.incomplete index)
  | none, b :: bs =>
    match Pending.begin b.toNat with
    | none => .error (.invalid 1 index)
    | some p =>
      if p.left = 0 then (Char.ofNat p.bits :: ·) <$> scan (index + 1) none bs
      else scan index (some p) bs
  | some p, b :: bs =>
    match p.advance b.toNat with
    | none => .error (.invalid p.seen index)
    | some q =>
      if q.left = 0 then (Char.ofNat q.bits :: ·) <$> scan (index + q.seen) none bs
      else scan index (some q) bs

/-- The text that a byte string holds. -/
def decode (bs : List UInt8) : Except Fault String :=
  String.ofList <$> scan 0 none bs

end TileRoom.Utf8
