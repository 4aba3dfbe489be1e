import Sponge.Lib.OrdMap
import Sponge.Segment

namespace Sponge

/-- A segment put in `segments_out()`, with its absolute sequence number; `first`
tells a first transmission from a repetition or an empty segment. -/
structure Sent where
  seqno : Nat
  seg : TCPSegment
  first : Bool
  deriving DecidableEq, Repr

/-- The sending half of a connection. Sequence numbers, the count of retransmissions
and the counters of the stream, 64-bit in the source, are natural numbers, since
2^64 is out of reach; the timeouts, 32-bit in the source, are reduced where they can
grow. The last field is a ghost: no function reads it. -/
structure TCPSender where
  isn : WrappingInt32
  segmentsOut : List TCPSegment := []
  initialRetransmissionTimeout : Nat
  stream : ByteStream
  nextSeqno : Nat := 0
  outstandingSegs : OrdMap Nat TCPSegment (· < ·) := .empty
  winSize : UInt16 := 0
  ackno : WrappingInt32 := ⟨0⟩
  rxTimeLeft : Nat
  timerRunning : Bool := false
  rxTimes : Nat := 0
  zeroWinSeg : TCPSegment := {}
  zeroWinSegSend : Bool := false
  zeroWinSegSeq : Nat := 0
  sent : List Sent := []

namespace TCPSender

/-- The constructor; `isn` is the fixed initial sequence number, or the one drawn
at random. -/
def new (capacity : Nat) (retxTimeout : UInt16) (isn : WrappingInt32) : TCPSender :=
  { isn
    initialRetransmissionTimeout := retxTimeout.toNat
    stream := .new capacity
    rxTimeLeft := retxTimeout.toNat }

/-- Sequence numbers taken up by the outstanding segments. -/
def bytesInFlight (s : TCPSender) : Nat :=
  s.outstandingSegs.total (fun e => e.2.lengthInSequenceSpace)

def nextSeqnoAbsolute (s : TCPSender) : Nat := s.nextSeqno

/-- The relative sequence number of the next byte to be sent, `next_seqno()`. -/
def nextSeqnoRelative (s : TCPSender) : WrappingInt32 := wrap s.nextSeqno s.isn

def consecutiveRetransmissions (s : TCPSender) : Nat := s.rxTimes % 2 ^ 32

/-- Start the timer, unless it is running. -/
def startTimer (s : TCPSender) : TCPSender :=
  { s with
    timerRunning := true
    rxTimeLeft := if s.timerRunning then s.rxTimeLeft else s.initialRetransmissionTimeout }

/-- Send new data: queue the segment, keep it until it is acknowledged, and move
on by its length. -/
def transmit (s : TCPSender) (seg : TCPSegment) : TCPSender :=
  startTimer
    { s with
      segmentsOut := s.segmentsOut ++ [seg]
      outstandingSegs := s.outstandingSegs.insert s.nextSeqno seg
      nextSeqno := s.nextSeqno + seg.lengthInSequenceSpace
      sent := s.sent ++ [⟨s.nextSeqno, seg, true⟩] }

/-- Send a segment into a zero window: it is kept in a slot of its own. -/
def probe (s : TCPSender) (seg : TCPSegment) : TCPSender :=
  startTimer
    { s with
      zeroWinSegSend := true
      zeroWinSeg := seg
      zeroWinSegSeq := s.nextSeqno
      nextSeqno := s.nextSeqno + seg.lengthInSequenceSpace
      segmentsOut := s.segmentsOut ++ [seg]
      sent := s.sent ++ [⟨s.nextSeqno, seg, true⟩] }

def sendSyn (s : TCPSender) : TCPSender :=
  s.transmit { header := { syn := true, seqno := s.isn } }

def sendFin (s : TCPSender) : TCPSender :=
  s.transmit { header := { seqno := s.nextSeqnoRelative, fin := true } }

/-- How many bytes the next segment may carry. -/
def transferSize (s : TCPSender) : Nat :=
  if s.winSize.toNat - s.bytesInFlight < TCPConfig.maxPayloadSize then
    s.winSize.toNat - s.bytesInFlight
  else TCPConfig.maxPayloadSize

/-- The segment with the next bytes of the stream, and FIN if they are the last
and there is room for it. -/
def dataSegment (s : TCPSender) : TCPSegment :=
  let seg : TCPSegment :=
    { header := { seqno := s.nextSeqnoRelative }, payload := s.stream.peekOutput s.transferSize }
  if s.winSize.toNat > s.bytesInFlight + seg.lengthInSequenceSpace ∧
      (s.stream.popOutput s.transferSize).eof = true then
    { seg with header := { seg.header with fin := true } }
  else seg

def sendData (s : TCPSender) : TCPSender :=
  { s with stream := s.stream.popOutput s.transferSize }.transmit s.dataSegment

theorem send_data_shorter {s : TCPSender} (hb : s.stream.bufferEmpty = false)
    (hw : s.winSize.toNat > s.bytesInFlight) :
    s.sendData.stream.buffer.length < s.stream.buffer.length := by
  have hpos : 0 < s.transferSize := by
    unfold transferSize
    split
    · omega
    · decide
  simp only [ByteStream.bufferEmpty, decide_eq_false_iff_not] at hb
  simp only [sendData, transmit, startTimer, ByteStream.popOutput, List.length_drop]
  omega

/-- The loop that sends as much of the stream as the window takes. -/
def fillLoop (s : TCPSender) : TCPSender :=
  if _h : s.stream.bufferEmpty = false ∧ s.winSize.toNat > s.bytesInFlight then
    fillLoop s.sendData
  else s
termination_by s.stream.buffer.length
decreasing_by exact send_data_shorter _h.1 _h.2

/-- One byte into a zero window. -/
def probeByte (s : TCPSender) : TCPSender :=
  { s with stream := s.stream.popOutput 1 }.probe
    { header := { s.zeroWinSeg.header with seqno := s.nextSeqnoRelative }
      payload := s.stream.peekOutput 1 }

/-- FIN into a zero window. The header is the one of the last probe. -/
def probeFin (s : TCPSender) : TCPSender :=
  s.probe
    { header := { s.zeroWinSeg.header with seqno := s.nextSeqnoRelative, fin := true }
      payload := [] }

/-- Create and send segments to fill as much of the window as possible. -/
def fillWindow (s : TCPSender) : TCPSender :=
  if s.nextSeqno = 0 then s.sendSyn
  else if s.winSize.toNat > s.bytesInFlight ∧ s.zeroWinSegSend = false then
    let s' := if s.stream.eof = true ∧ s.nextSeqno < s.stream.bytesWritten + 2 then s.sendFin else s
    s'.fillLoop
  else if s.winSize = 0 ∧ s.nextSeqno > s.bytesInFlight then
    let s' :=
      if s.stream.bufferEmpty = false ∧ s.zeroWinSegSend = false then s.probeByte else s
    if s'.stream.eof = true ∧ s'.zeroWinSegSend = false then s'.probeFin else s'
  else s

/-- The loop over the outstanding segments, in order: those that are acknowledged
in full go, up to the first one that is not acknowledged at all. -/
def unacked (ack : Nat) : List (Nat × TCPSegment) → List (Nat × TCPSegment)
  | [] => []
  | (seqno, seg) :: rest =>
    if seg.lengthInSequenceSpace + seqno - 1 < ack then unacked ack rest
    else if seqno ≥ ack then (seqno, seg) :: rest
    else (seqno, seg) :: unacked ack rest

theorem unacked_sublist (ack : Nat) (es : List (Nat × TCPSegment)) :
    (unacked ack es).Sublist es := by
  induction es with
  | nil => exact .slnil
  | cons e rest ih =>
    obtain ⟨seqno, seg⟩ := e
    unfold unacked
    split
    · exact ih.cons _
    split
    · exact .refl _
    · exact ih.cons_cons _

/-- An outstanding segment is let go only when its last number is acknowledged. -/
theorem mem_unacked (ack : Nat) {es : List (Nat × TCPSegment)} {e : Nat × TCPSegment}
    (he : e ∈ es) :
    e ∈ unacked ack es ∨ e.2.lengthInSequenceSpace + e.1 - 1 < ack := by
  induction es with
  | nil => simp at he
  | cons d rest ih =>
    obtain ⟨seqno, seg⟩ := d
    unfold unacked
    split
    · rename_i hlt
      rcases List.mem_cons.mp he with rfl | he
      · exact .inr hlt
      · exact ih he
    split
    · exact .inl he
    · rcases List.mem_cons.mp he with rfl | he
      · exact .inl List.mem_cons_self
      · exact (ih he).imp_left (List.mem_cons_of_mem _)

/-- The absolute acknowledgment number, or `none` for an impossible one. -/
def ackSeqno (s : TCPSender) (ackno : WrappingInt32) : Option Nat :=
  let ack := unwrap ackno s.isn s.nextSeqno
  if ack > s.nextSeqno then
    if ack < 2 ^ 32 then none else some (ack - 2 ^ 32)
  else some ack

/-- Drop what is acknowledged. -/
def retire (s : TCPSender) (ack : Nat) : TCPSender :=
  { s with
    zeroWinSegSend := if ack > s.zeroWinSegSeq then false else s.zeroWinSegSend
    outstandingSegs := s.outstandingSegs.restrict (unacked_sublist ack s.outstandingSegs.entries) }

/-- Stop the timer if nothing is outstanding, and take back the backoff if the
acknowledgment is not the one of last time. -/
def settleTimer (s : TCPSender) (ackno : WrappingInt32) : TCPSender :=
  let timeout :=
    if s.ackno ≠ ackno then s.initialRetransmissionTimeout >>> s.rxTimes
    else s.initialRetransmissionTimeout
  { s with
    timerRunning :=
      if s.outstandingSegs.entries = [] ∧ s.zeroWinSegSend = false then false else s.timerRunning
    initialRetransmissionTimeout := timeout
    rxTimes := if s.ackno ≠ ackno then 0 else s.rxTimes
    rxTimeLeft := if s.ackno ≠ ackno then timeout else s.rxTimeLeft }

/-- A new acknowledgment was received. -/
def ackReceived (s : TCPSender) (ackno : WrappingInt32) (windowSize : UInt16) : TCPSender :=
  match s.ackSeqno ackno with
  | none => s
  | some ack => { (s.retire ack).settleTimer ackno with winSize := windowSize, ackno := ackno }

/-- Send a segment once more. -/
def resend (s : TCPSender) (seqno : Nat) (seg : TCPSegment) : TCPSender :=
  { s with
    segmentsOut := s.segmentsOut ++ [seg]
    timerRunning := true
    rxTimeLeft := s.initialRetransmissionTimeout
    sent := s.sent ++ [⟨seqno, seg, false⟩] }

def timePasses (s : TCPSender) (ms : Nat) : TCPSender :=
  { s with rxTimeLeft := if s.rxTimeLeft > ms then s.rxTimeLeft - ms else 0 }

/-- A timeout counts, and doubles the next one, when the window is open or the SYN
is not acknowledged. -/
def backOff (s : TCPSender) : TCPSender :=
  let counts := s.winSize ≠ 0 ∨ (s.nextSeqno > 0 ∧ s.nextSeqno = s.bytesInFlight)
  { s with
    rxTimes := if counts then s.rxTimes + 1 else s.rxTimes
    initialRetransmissionTimeout :=
      if counts then s.initialRetransmissionTimeout * 2 % 2 ^ 32
      else s.initialRetransmissionTimeout }

/-- Time has passed: on a timeout the oldest outstanding segment, or the one sent
into a zero window, is sent again. -/
def tick (s : TCPSender) (ms : Nat) : TCPSender :=
  if s.zeroWinSegSend = true then
    let s' := s.timePasses ms
    if s'.rxTimeLeft = 0 then s'.resend s'.zeroWinSegSeq s'.zeroWinSeg else s'
  else
    match s.outstandingSegs.entries with
    | [] => { s with timerRunning := false }
    | (seqno, seg) :: _ =>
      if s.timerRunning = false then s
      else
        let s' := s.timePasses ms
        if s'.rxTimeLeft = 0 then s'.backOff.resend seqno seg else s'

/-- An empty segment, useful for acknowledgments. -/
def sendEmptySegment (s : TCPSender) : TCPSender :=
  let seg : TCPSegment := { header := { seqno := s.nextSeqnoRelative } }
  { s with segmentsOut := s.segmentsOut ++ [seg], sent := s.sent ++ [⟨s.nextSeqno, seg, false⟩] }

end TCPSender

end Sponge
