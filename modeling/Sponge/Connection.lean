import Sponge.Receiver
import Sponge.Sender.Model

namespace Sponge

open Word64

/-- A complete endpoint of a connection. Only the owner takes segments out of
`segments_out()`, so the list keeps all that were ever put there. -/
structure TCPConnection where
  cfg : TCPConfig
  receiver : TCPReceiver
  sender : TCPSender
  segmentsOut : List TCPSegment := []
  lingerAfterStreamsFinish : Bool := true
  timeSinceLastSegRec : Nat := 0

namespace TCPConnection

/-- The constructor; `random` is the number drawn when the configuration has no
initial sequence number. -/
def new (cfg : TCPConfig) (random : WrappingInt32) : TCPConnection :=
  { cfg
    receiver := .new cfg.recvCapacity
    sender := .new cfg.sendCapacity cfg.rtTimeout (cfg.fixedIsn.getD random) }

def inboundStream (x : TCPConnection) : ByteStream := x.receiver.streamOut

/-- Both streams are done: the inbound one read to its end, the outbound one sent
and acknowledged with its FIN. -/
def timeWaitState (x : TCPConnection) : Bool :=
  x.receiver.streamOut.eof && x.sender.stream.eof && x.sender.bytesInFlight = 0 &&
    x.sender.stream.bytesWritten + 2 = x.sender.nextSeqnoAbsolute && !x.sender.zeroWinSegSend

def closingState (x : TCPConnection) : Bool := x.timeWaitState

/-- A SYN has been received and the own one acknowledged. -/
def connectionEstablish (x : TCPConnection) : Bool :=
  x.receiver.ackno.isSome && x.sender.nextSeqnoAbsolute > x.sender.bytesInFlight

/-- Is the connection still alive in any way? -/
def active (x : TCPConnection) : Bool :=
  if x.sender.stream.error && x.receiver.streamOut.error then false
  else if !x.lingerAfterStreamsFinish then !x.closingState
  else !(x.timeWaitState && x.timeSinceLastSegRec ≥ 10 * x.cfg.rtTimeout.toNat)

/-- `set_error()` on both streams. -/
def setErrors (x : TCPConnection) : TCPConnection :=
  { x with
    sender := { x.sender with stream := x.sender.stream.setError }
    receiver := { x.receiver with
      reassembler := { x.receiver.reassembler with
        output := x.receiver.reassembler.output.setError } } }

/-- The acknowledgment fields that go out with a segment. -/
def stamp (r : TCPReceiver) (seg : TCPSegment) : TCPSegment :=
  match r.ackno with
  | some ackno =>
    { seg with
      header := { seg.header with ack := true, ackno, win := UInt16.ofNat r.windowSize } }
  | none => seg

/-- The first segment of the sender's queue goes out. The queue is never empty
where this is called. -/
def sendCommonSeg (x : TCPConnection) : TCPConnection :=
  match x.sender.segmentsOut with
  | [] => x
  | seg :: rest =>
    { x with
      sender := { x.sender with segmentsOut := rest }
      segmentsOut := x.segmentsOut ++ [stamp x.receiver seg] }

theorem send_common_seg_shorter {x : TCPConnection} (h : x.sender.segmentsOut ≠ []) :
    x.sendCommonSeg.sender.segmentsOut.length < x.sender.segmentsOut.length := by
  unfold sendCommonSeg
  split
  · exact absurd ‹_› h
  · simp [*]

def sendAllSegs (x : TCPConnection) : TCPConnection :=
  if _h : x.sender.segmentsOut = [] then x else sendAllSegs x.sendCommonSeg
termination_by x.sender.segmentsOut.length
decreasing_by exact send_common_seg_shorter _h

/-- An empty segment is queued if there is nothing in the queue. -/
def ensureSegment (x : TCPConnection) : TCPConnection :=
  if x.sender.segmentsOut = [] then { x with sender := x.sender.sendEmptySegment } else x

/-- The first segment of the sender's queue, or an empty one, goes out with RST;
it stays in the queue. -/
def sendRstSeg (x : TCPConnection) : TCPConnection :=
  let x' := x.ensureSegment
  match x'.sender.segmentsOut with
  | [] => x'
  | seg :: _ =>
    { x' with
      segmentsOut := x'.segmentsOut ++
        [stamp x'.receiver { seg with header := { seg.header with rst := true } }] }

/-- The sender is told of an acknowledgment, and sends on unless it has sent nothing
at all yet. -/
def takeAck (x : TCPConnection) (seg : TCPSegment) : TCPConnection :=
  let sender := x.sender.ackReceived seg.header.ackno seg.header.win
  { x with sender := if sender.nextSeqnoAbsolute ≠ 0 then sender.fillWindow else sender }

/-- The clock of the last state starts again, and a connection whose peer ended
first will not linger. -/
def noteEnds (x : TCPConnection) : TCPConnection :=
  { x with
    timeSinceLastSegRec := if x.timeWaitState then 0 else x.timeSinceLastSegRec
    lingerAfterStreamsFinish :=
      if x.receiver.streamOut.inputEnded && !x.sender.stream.inputEnded then false
      else x.lingerAfterStreamsFinish }

/-- A segment that takes up sequence numbers is answered, by the SYN of a listening
connection, by what there is to send, or by an empty segment. -/
def reply (x : TCPConnection) : TCPConnection :=
  let x' :=
    if x.sender.nextSeqnoAbsolute = 0 then { x with sender := x.sender.fillWindow } else x
  x'.ensureSegment.sendCommonSeg

/-- Called when a new segment has been received from the network. -/
def segmentReceived (x : TCPConnection) (seg : TCPSegment) : TCPConnection :=
  if x.active = false then x
  else if seg.header.rst then x.setErrors
  else
    let x₁ := { x with receiver := x.receiver.segmentReceived seg }
    let x₂ := if seg.header.ack then x₁.takeAck seg else x₁
    let x₃ := x₂.noteEnds
    let x₄ :=
      if seg.lengthInSequenceSpace ≠ 0 ∧ x₃.receiver.ackno.isSome then x₃.reply else x₃
    let x₅ := x₄.sendAllSegs
    -- the answer to a keep-alive segment
    if seg.lengthInSequenceSpace = 0 ∧
        (x₅.receiver.ackno.map (·.minus 1)) = some seg.header.seqno then
      { x₅ with sender := x₅.sender.sendEmptySegment }.sendCommonSeg
    else x₅

/-- Write data to the outbound stream, and send them if possible; the number of
bytes it returns is the one the stream `accepts`. -/
def write (x : TCPConnection) (data : Bytes) : TCPConnection :=
  let x' := { x with sender := { x.sender with stream := x.sender.stream.write data } }
  if x'.connectionEstablish then { x' with sender := x'.sender.fillWindow }.sendAllSegs else x'

/-- The clock runs in the last state only. -/
def noteTime (x : TCPConnection) (ms : Nat) : TCPConnection :=
  { x with
    timeSinceLastSegRec :=
      if x.timeWaitState then add x.timeSinceLastSegRec ms else x.timeSinceLastSegRec }

/-- After too many retransmissions in a row the connection is reset. -/
def giveUp (x : TCPConnection) : TCPConnection :=
  if x.sender.consecutiveRetransmissions > TCPConfig.maxRetxAttempts then x.setErrors.sendRstSeg
  else x

/-- Called periodically when time elapses. -/
def tick (x : TCPConnection) (ms : Nat) : TCPConnection :=
  if x.active = false then x
  else
    let x' := ({ x with sender := x.sender.tick ms }.noteTime ms).giveUp
    if x'.active then x'.sendAllSegs else x'

/-- Shut down the outbound byte stream. -/
def endInputStream (x : TCPConnection) : TCPConnection :=
  { x with
    sender := { x.sender with stream := x.sender.stream.endInput }.fillWindow }.sendAllSegs

/-- Initiate a connection by sending a SYN. The front of the sender's queue goes out
as it is; with nothing to send the behaviour is undefined. -/
def connect (x : TCPConnection) : Option TCPConnection :=
  let sender := x.sender.fillWindow
  match sender.segmentsOut with
  | [] => none
  | seg :: rest =>
    some { x with
      sender := { sender with segmentsOut := rest }
      segmentsOut := x.segmentsOut ++ [seg] }

section Rules

/-- The two segments are the same to the receiver they are sent to. -/
structure Copy (seg copy : TCPSegment) : Prop where
  seqno : copy.header.seqno = seg.header.seqno
  syn : copy.header.syn = seg.header.syn
  fin : copy.header.fin = seg.header.fin
  payload : copy.payload = seg.payload

/-- The segment goes out with other acknowledgment fields, or with RST. What it
acknowledges, the receiver has, and the window is the receiver's. -/
structure Carbon (r : TCPReceiver) (seg copy : TCPSegment) : Prop extends Copy seg copy where
  acks : copy.header.ack = true → seg.header.ack = true ∨ r.ackno = some copy.header.ackno
  window : copy.header.ack = true →
    seg.header.ack = true ∨ copy.header.win = UInt16.ofNat r.windowSize
  doff : copy.header.doff = seg.header.doff

theorem Carbon.refl (r : TCPReceiver) (seg : TCPSegment) : Carbon r seg seg :=
  ⟨⟨rfl, rfl, rfl, rfl⟩, .inl, .inl, rfl⟩

section Copy

variable {seg copy : TCPSegment} (h : Copy seg copy) (r : TCPReceiver)
include h

theorem Copy.note_syn : r.noteSyn copy = r.noteSyn seg := by
  rw [TCPReceiver.noteSyn, TCPReceiver.noteSyn, h.syn, h.seqno]

theorem Copy.push_index : r.pushIndex copy = r.pushIndex seg := by
  rw [TCPReceiver.pushIndex, TCPReceiver.pushIndex, h.syn, h.seqno]

theorem Copy.segment_received : r.segmentReceived copy = r.segmentReceived seg := by
  rw [TCPReceiver.segmentReceived, TCPReceiver.segmentReceived, h.note_syn, h.push_index, h.fin,
    h.payload]

end Copy

theorem stamp_carbon (r : TCPReceiver) (seg : TCPSegment) : Carbon r seg (stamp r seg) := by
  unfold stamp
  split
  · rename_i ackno h
    exact ⟨⟨rfl, rfl, rfl, rfl⟩, fun _ => .inr h, fun _ => .inr rfl, rfl⟩
  · exact .refl r seg

/-- What the methods of a connection are made of: a property that each of these
steps preserves. -/
structure Kept (Q : TCPConnection → Prop) : Prop where
  fill : ∀ x, Q x → Q { x with sender := x.sender.fillWindow }
  tick : ∀ x ms, Q x → Q { x with sender := x.sender.tick ms }
  empty : ∀ x, Q x → Q { x with sender := x.sender.sendEmptySegment }
  errors : ∀ x, Q x → Q x.setErrors
  flags : ∀ x linger time, Q x →
    Q { x with lingerAfterStreamsFinish := linger, timeSinceLastSegRec := time }
  forward : ∀ x seg copy queue, Q x → seg ∈ x.sender.segmentsOut →
    (∀ g ∈ queue, g ∈ x.sender.segmentsOut) → Carbon x.receiver seg copy →
    Q { x with
        sender := { x.sender with segmentsOut := queue }
        segmentsOut := x.segmentsOut ++ [copy] }

/-- The steps among them that send what is queued, or an empty segment. -/
structure Forwarded (Q : TCPConnection → Prop) : Prop where
  empty : ∀ x, Q x → Q { x with sender := x.sender.sendEmptySegment }
  forward : ∀ x seg copy queue, Q x → seg ∈ x.sender.segmentsOut →
    (∀ g ∈ queue, g ∈ x.sender.segmentsOut) → Carbon x.receiver seg copy →
    Q { x with
        sender := { x.sender with segmentsOut := queue }
        segmentsOut := x.segmentsOut ++ [copy] }

/-- All of them but the ones in which the sender decides what to send. -/
structure Relayed (Q : TCPConnection → Prop) : Prop extends Forwarded Q where
  errors : ∀ x, Q x → Q x.setErrors
  flags : ∀ x linger time, Q x →
    Q { x with lingerAfterStreamsFinish := linger, timeSinceLastSegRec := time }

variable {Q : TCPConnection → Prop} {x : TCPConnection}

theorem Kept.relayed (hk : Kept Q) : Relayed Q := ⟨⟨hk.empty, hk.forward⟩, hk.errors, hk.flags⟩

theorem Forwarded.send_common_seg (hf : Forwarded Q) (h : Q x) : Q x.sendCommonSeg := by
  unfold sendCommonSeg
  split
  · exact h
  · rename_i seg rest he
    exact hf.forward x seg _ rest h (by simp [he]) (fun g hg => by simp [he, hg])
      (stamp_carbon x.receiver seg)

theorem Forwarded.send_all_segs (hf : Forwarded Q) (h : Q x) : Q x.sendAllSegs := by
  fun_induction sendAllSegs x with
  | case1 x he => exact h
  | case2 x he ih => exact ih (hf.send_common_seg h)

theorem Forwarded.ensure_segment (hf : Forwarded Q) (h : Q x) : Q x.ensureSegment := by
  unfold ensureSegment
  split
  · exact hf.empty x h
  · exact h

theorem Forwarded.send_rst_seg (hf : Forwarded Q) (h : Q x) : Q x.sendRstSeg := by
  unfold sendRstSeg
  have h' := hf.ensure_segment h
  generalize x.ensureSegment = x' at h'
  simp only
  split
  · exact h'
  · rename_i seg rest he
    have hc := stamp_carbon x'.receiver { seg with header := { seg.header with rst := true } }
    exact hf.forward x' seg _ x'.sender.segmentsOut h' (by simp [he]) (fun g hg => hg)
      ⟨⟨hc.seqno, hc.syn, hc.fin, hc.payload⟩, hc.acks, hc.window, hc.doff⟩

theorem Forwarded.reply (hf : Forwarded Q) (h : Q x)
    (hfill : x.sender.nextSeqnoAbsolute = 0 → Q { x with sender := x.sender.fillWindow }) :
    Q x.reply := by
  refine hf.send_common_seg (hf.ensure_segment ?_)
  split
  · exact hfill ‹_›
  · exact h

theorem Forwarded.connect (hf : Forwarded Q) (h : Q x)
    (hfill : Q { x with sender := x.sender.fillWindow }) : Q (x.connect.getD x) := by
  simp only [TCPConnection.connect]
  split
  · exact h
  · rename_i seg rest he
    exact hf.forward _ seg seg rest hfill (by simp [he]) (fun g hg => by simp [he, hg])
      (.refl _ seg)

/-- The rule for what `segment_received` does when the segment has been used by the
receiver and by the sender, and the flags are set: besides the queue there is the SYN of a
connection that has not sent anything. -/
theorem Forwarded.segment_received {seg : TCPSegment} (hf : Forwarded Q)
    (hactive : x.active = true) (hrst : seg.header.rst = false)
    (hused : Q (if seg.header.ack then
        ({ x with receiver := x.receiver.segmentReceived seg } : TCPConnection).takeAck seg
      else { x with receiver := x.receiver.segmentReceived seg }).noteEnds)
    (hfill : ∀ x, Q x → x.sender.nextSeqnoAbsolute = 0 →
      Q { x with sender := x.sender.fillWindow }) :
    Q (x.segmentReceived seg) := by
  rw [TCPConnection.segmentReceived, if_neg (by simp [hactive]), if_neg (by simp [hrst])]
  simp only
  generalize (if seg.header.ack then
    ({ x with receiver := x.receiver.segmentReceived seg } : TCPConnection).takeAck seg
    else { x with receiver := x.receiver.segmentReceived seg }).noteEnds = x₃ at hused
  have h₅ : Q (if seg.lengthInSequenceSpace ≠ 0 ∧ x₃.receiver.ackno.isSome then x₃.reply
      else x₃).sendAllSegs := by
    refine hf.send_all_segs ?_
    split
    · exact hf.reply hused (hfill x₃ hused)
    · exact hused
  generalize (if seg.lengthInSequenceSpace ≠ 0 ∧ x₃.receiver.ackno.isSome then x₃.reply
      else x₃).sendAllSegs = x₅ at h₅
  split
  · exact hf.send_common_seg (hf.empty _ h₅)
  · exact h₅

/-- The rule for a `segment_received` whose flags do not matter. -/
theorem Relayed.segment_received {seg : TCPSegment} (hr : Relayed Q) (h : Q x)
    (hused : x.active = true → seg.header.rst = false →
      Q (if seg.header.ack then
        ({ x with receiver := x.receiver.segmentReceived seg } : TCPConnection).takeAck seg
      else { x with receiver := x.receiver.segmentReceived seg }))
    (hfill : ∀ x, Q x → x.sender.nextSeqnoAbsolute = 0 →
      Q { x with sender := x.sender.fillWindow }) :
    Q (x.segmentReceived seg) := by
  cases hactive : x.active with
  | false =>
    rw [TCPConnection.segmentReceived, if_pos hactive]
    exact h
  | true =>
    cases hrst : seg.header.rst with
    | true =>
      rw [TCPConnection.segmentReceived, if_neg (by simp [hactive]), if_pos hrst]
      exact hr.errors x h
    | false =>
      exact hr.toForwarded.segment_received hactive hrst
        (hr.flags _ _ _ (hused hactive hrst)) hfill

theorem Relayed.give_up (hr : Relayed Q) (h : Q x) : Q x.giveUp := by
  unfold giveUp
  split
  · exact hr.send_rst_seg (hr.errors x h)
  · exact h

theorem Relayed.time_passes {ms : Nat} (hr : Relayed Q) (h : Q x)
    (htick : Q { x with sender := x.sender.tick ms }) : Q (x.tick ms) := by
  unfold TCPConnection.tick
  split
  · exact h
  · have h' : Q ({ x with sender := x.sender.tick ms }.noteTime ms).giveUp :=
      hr.give_up (hr.flags _ _ _ htick)
    simp only
    split
    · exact hr.send_all_segs h'
    · exact h'

/-- The rule for `segment_received` where filling the window is one of the common
steps. -/
theorem Kept.segment_received {seg : TCPSegment} (hk : Kept Q) (h : Q x)
    (hrecv : x.active = true → seg.header.rst = false →
      Q { x with receiver := x.receiver.segmentReceived seg })
    (hack : ∀ x, Q x → seg.header.ack = true →
      Q { x with sender := x.sender.ackReceived seg.header.ackno seg.header.win }) :
    Q (x.segmentReceived seg) := by
  refine hk.relayed.segment_received h (fun hactive hrst => ?_) (fun x h _ => hk.fill x h)
  have h₁ := hrecv hactive hrst
  generalize ({ x with receiver := x.receiver.segmentReceived seg } : TCPConnection) = x₁ at h₁
  split
  · have h₂ := hack x₁ h₁ ‹_›
    unfold takeAck
    simp only
    split
    · exact hk.fill _ h₂
    · exact h₂
  · exact h₁

theorem Kept.write {data : Bytes} (hk : Kept Q)
    (h : Q { x with sender := { x.sender with stream := x.sender.stream.write data } }) :
    Q (x.write data) := by
  unfold TCPConnection.write
  simp only
  split
  · exact hk.relayed.send_all_segs (hk.fill _ h)
  · exact h

theorem Kept.time_passes (hk : Kept Q) (h : Q x) (ms : Nat) : Q (x.tick ms) :=
  hk.relayed.time_passes h (hk.tick x ms h)

theorem Kept.end_input_stream (hk : Kept Q)
    (h : Q { x with sender := { x.sender with stream := x.sender.stream.endInput } }) :
    Q x.endInputStream :=
  hk.relayed.send_all_segs (hk.fill _ h)

theorem Kept.connect (hk : Kept Q) (h : Q x) : Q (x.connect.getD x) :=
  hk.relayed.connect h (hk.fill x h)

end Rules

end TCPConnection

end Sponge
