import TileRoom.Link.Peer

/-!
# The pipe below a socket

What a calling peer sends goes into a pipe in chunks and is read at the other end in mouthfuls. A
chunk weighs more than its bytes: they lie in a block of memory and in whole pages, and are kept
account of. The pipe takes chunks as long as its load is below its capacity. If it cannot take
one, it stalls: nothing goes in any more until three quarters of the capacity are free again.
-/

namespace TileRoom

/-- A part of what is sent. -/
structure Chunk where
  length : Nat
  weight : Nat
  /-- The packet that ends with it. -/
  completes : Option Packet
  deriving DecidableEq

namespace Chunk

/-- The least multiple of `unit` that is not below `n`. -/
def roundUp (unit n : Nat) : Nat :=
  (n + unit - 1) / unit * unit

def page : Nat := 4096

/-- The bytes of a block that do not hold data. -/
def trailer : Nat := 320

/-- The bytes that are needed to keep account of a chunk. -/
def account : Nat := 256

/-- The data that the largest block holds. -/
def headRoom : Nat := page - trailer

/-- The most that a chunk holds: a block and eight pages. -/
def maxLength : Nat := headRoom + 8 * page

/-- The smallest block that holds `n` bytes. -/
def block (n : Nat) : Nat :=
  if n ≤ 512 then 512 else if n ≤ 1024 then 1024 else if n ≤ 2048 then 2048 else page

/-- What does not fit into a block lies in pages, as many as it needs. These are filled first. -/
def weigh (length : Nat) : Nat :=
  let paged := min length (roundUp page (length - headRoom))
  account + block (roundUp 64 (length - paged) + trailer) + roundUp page paged

end Chunk

namespace Packet

def payload : Packet → List UInt8
  | frame bytes | ping bytes | pong bytes => bytes
  | farewell | garbage => []

/-- The bytes that a calling peer sends for a packet: two, the length where these do not hold it,
four of masking, and the payload. -/
def length (m : Packet) : Nat :=
  let n := m.payload.length
  2 + (if n < 126 then 0 else if n < 65536 then 2 else 8) + 4 + n

/-- The chunks that a packet is sent in, all but the last of them full. -/
def chunks (m : Packet) : List Chunk :=
  let full := (m.length - 1) / Chunk.maxLength
  let last := m.length - full * Chunk.maxLength
  List.replicate full ⟨Chunk.maxLength, Chunk.weigh Chunk.maxLength, none⟩
    ++ [⟨last, Chunk.weigh last, some m⟩]

end Packet

structure Pipe where
  /-- What has been sent and not been read. -/
  inside : List Chunk := []
  /-- What is to be sent and does not fit. -/
  outside : List Chunk := []
  stalled : Bool := false
  deriving DecidableEq

namespace Pipe

/-- The load from which on a pipe takes nothing more. -/
def capacity : Nat := 208 * 1024

/-- The most that is read at once. -/
def mouthful : Nat := 128 * 1024

def load (p : Pipe) : Nat :=
  p.inside.foldl (fun load c => load + c.weight) 0

/-- The chunks that fit in at some load, and the others. -/
def fitting (load : Nat) : List Chunk → List Chunk × List Chunk
  | [] => ([], [])
  | c :: cs =>
    if load < capacity then
      let (fits, others) := fitting (load + c.weight) cs
      (c :: fits, others)
    else ([], c :: cs)

/-- What is outside goes in as far as it fits. -/
def fill (p : Pipe) : Pipe :=
  if p.stalled then p
  else
    let (fits, outside) := fitting p.load p.outside
    { inside := p.inside ++ fits, outside, stalled := !outside.isEmpty }

/-- Packets are sent. -/
def offer (p : Pipe) (ms : List Packet) : Pipe :=
  { p with outside := p.outside ++ ms.flatMap Packet.chunks }.fill

/-- Whether all that was sent is inside. -/
def isFilled (p : Pipe) : Bool :=
  p.outside.isEmpty

/-- Reads at most so many bytes. Tells the packets that are complete with them, and what remains. -/
def drain : (bytes : Nat) → List Chunk → List Packet × List Chunk
  | _, [] => ([], [])
  | bytes, c :: cs =>
    if c.length ≤ bytes then
      let (packets, rest) := drain (bytes - c.length) cs
      (c.completes.toList ++ packets, rest)
    else ([], { c with length := c.length - bytes } :: cs)

/-- A mouthful is read. -/
def read (p : Pipe) : List Packet × Pipe :=
  let (packets, inside) := drain mouthful p.inside
  let p := { p with inside }
  (packets, { p with stalled := p.stalled && capacity < 4 * p.load })

end Pipe

end TileRoom
