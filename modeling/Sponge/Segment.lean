import Sponge.ByteStream
import Sponge.WrappingIntegers

namespace Sponge

/-- The TCP header without options. -/
structure TCPHeader where
  sport : UInt16 := 0
  dport : UInt16 := 0
  seqno : WrappingInt32 := ⟨0⟩
  ackno : WrappingInt32 := ⟨0⟩
  doff : UInt8 := 5
  urg : Bool := false
  ack : Bool := false
  psh : Bool := false
  rst : Bool := false
  syn : Bool := false
  fin : Bool := false
  win : UInt16 := 0
  cksum : UInt16 := 0
  uptr : UInt16 := 0
  deriving DecidableEq, Repr

structure TCPSegment where
  header : TCPHeader := {}
  payload : Bytes := []
  deriving DecidableEq, Repr

/-- The payload's length plus one for SYN and one for FIN. -/
def TCPSegment.lengthInSequenceSpace (seg : TCPSegment) : Nat :=
  seg.payload.length + (if seg.header.syn then 1 else 0) + (if seg.header.fin then 1 else 0)

/-- Config for sender and receiver. -/
structure TCPConfig where
  rtTimeout : UInt16 := 1000
  recvCapacity : Nat := 64000
  sendCapacity : Nat := 64000
  fixedIsn : Option WrappingInt32 := none
  deriving DecidableEq, Repr

namespace TCPConfig

def maxPayloadSize : Nat := 1000

def maxRetxAttempts : Nat := 8

end TCPConfig

/-- What takes up a sequence number. -/
inductive Sym where
  | syn
  | byte (b : UInt8)
  | fin
  deriving DecidableEq, Repr

/-- What comes before FIN in a segment. -/
def TCPSegment.front (seg : TCPSegment) : List Sym :=
  (if seg.header.syn then [.syn] else []) ++ seg.payload.map .byte

/-- A segment, sequence number by sequence number. -/
def TCPSegment.symbols (seg : TCPSegment) : List Sym :=
  seg.front ++ (if seg.header.fin then [.fin] else [])

theorem TCPSegment.length_front (seg : TCPSegment) :
    seg.front.length = seg.payload.length + if seg.header.syn then 1 else 0 := by
  simp only [front, List.length_append, List.length_map]
  split <;> simp [Nat.add_comm]

theorem TCPSegment.length_symbols (seg : TCPSegment) :
    seg.symbols.length = seg.lengthInSequenceSpace := by
  simp only [symbols, lengthInSequenceSpace, List.length_append, length_front]
  cases seg.header.fin <;> rfl

end Sponge
