import Sponge.Reassembler.Model
import Sponge.Segment

namespace Sponge

open Word64

/-- The receiving half of a connection. -/
structure TCPReceiver where
  reassembler : StreamReassembler
  capacity : Nat
  isn : WrappingInt32 := ⟨0⟩
  isnSet : Bool := false

namespace TCPReceiver

def new (capacity : Nat) : TCPReceiver := { reassembler := .new capacity, capacity }

def streamOut (r : TCPReceiver) : ByteStream := r.reassembler.output

def unassembledBytes (r : TCPReceiver) : Nat := r.reassembler.unassembledBytes

/-- A SYN sets the initial sequence number, again if it comes again. -/
def noteSyn (r : TCPReceiver) (seg : TCPSegment) : TCPReceiver :=
  if seg.header.syn then { r with isn := seg.header.seqno, isnSet := true } else r

/-- Where the payload stands in the stream: `unwrap(...) - 1`, in 64 bits. -/
def pushIndex (r : TCPReceiver) (seg : TCPSegment) : Nat :=
  let dataSeqno := if seg.header.syn then seg.header.seqno.plus 1 else seg.header.seqno
  sub (unwrap dataSeqno r.isn r.streamOut.bytesWritten) 1

/-- Handle an inbound segment. -/
def segmentReceived (r : TCPReceiver) (seg : TCPSegment) : TCPReceiver :=
  let r' := r.noteSyn seg
  if r'.isnSet then
    { r' with
      reassembler := r'.reassembler.pushSubstring seg.payload (r'.pushIndex seg) seg.header.fin }
  else r'

/-- The ackno that should be sent to the peer, once a SYN has come in. -/
def ackno (r : TCPReceiver) : Option WrappingInt32 :=
  if !r.isnSet then none
  else if r.streamOut.inputEnded then some (wrap (r.streamOut.bytesWritten + 2) r.isn)
  else some (wrap (r.streamOut.bytesWritten + 1) r.isn)

def windowSize (r : TCPReceiver) : Nat := r.streamOut.remainingCapacity

end TCPReceiver

end Sponge
