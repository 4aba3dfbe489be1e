import Sponge.Connection
import Sponge.Receiver.Ackno
import Sponge.Sender.Tape

namespace Sponge

/-- Reading from `inbound_stream()`. -/
def TCPConnection.readInbound (x : TCPConnection) (len : Nat) : TCPConnection :=
  { x with
    receiver := { x.receiver with reassembler := x.receiver.reassembler.readOut len } }

/-- What is done with a connection, by its owner or by the network. -/
inductive ConnUse where
  | connect
  | write (data : Bytes)
  | endInputStream
  | tick (ms : Nat)
  | read (len : Nat)
  | segmentReceived (seg : TCPSegment)
  deriving DecidableEq, Repr

namespace TCPSender

/-- The sender's part of the last state: all is sent, with the FIN, and acknowledged. -/
structure Finished (s : TCPSender) : Prop where
  eof : s.stream.eof = true
  flight : s.bytesInFlight = 0
  next : s.stream.bytesWritten + 2 = s.nextSeqno
  slot : s.zeroWinSegSend = false

/-- The sender keeps its books, and what it has queued has no acknowledgment in it
yet. -/
structure Queued (s : TCPSender) : Prop where
  taped : ∃ W, s.Taped W
  bare : ∀ g ∈ s.segmentsOut, g.header.ack = false

theorem new_queued (capacity : Nat) (timeout : UInt16) (isn : WrappingInt32) :
    (new capacity timeout isn).Queued :=
  ⟨⟨[], new_taped capacity timeout isn⟩, by simp [new]⟩

theorem Queued.go {W : Bytes} {s s' : TCPSender} (h : s.Queued) (hc : s.Continues s')
    (ht : s'.Taped W) : s'.Queued := by
  refine ⟨⟨W, ht⟩, ?_⟩
  obtain ⟨log, hlog, hq⟩ := hc.more
  intro g hg
  rw [hq] at hg
  rcases List.mem_append.mp hg with hg | hg
  · exact h.bare g hg
  · obtain ⟨e, he, rfl⟩ := List.mem_map.mp hg
    exact (ht.sent e (hlog ▸ List.mem_append_right _ he)).bare

section Queued

variable {s : TCPSender} (h : s.Queued)
include h

theorem Queued.fill_window : s.fillWindow.Queued := by
  obtain ⟨W, ht⟩ := h.taped
  exact h.go (continues_fill_window ht) ht.fill_window

theorem Queued.ack_received (ackno : WrappingInt32) (win : UInt16) :
    (s.ackReceived ackno win).Queued := by
  obtain ⟨W, ht⟩ := h.taped
  exact h.go (s.continues_ack_received ackno win) (ht.ack_received ackno win)

theorem Queued.tick (ms : Nat) : (s.tick ms).Queued := by
  obtain ⟨W, ht⟩ := h.taped
  exact h.go (s.continues_tick ms) (ht.tick ms)

theorem Queued.send_empty : s.sendEmptySegment.Queued := by
  obtain ⟨W, ht⟩ := h.taped
  exact h.go (.one rfl rfl rfl) ht.send_empty

theorem Queued.write (data : Bytes) : { s with stream := s.stream.write data }.Queued := by
  obtain ⟨W, ht⟩ := h.taped
  exact h.go (.same rfl rfl rfl) (ht.write data)

theorem Queued.end_input : { s with stream := s.stream.endInput }.Queued := by
  obtain ⟨W, ht⟩ := h.taped
  exact h.go (.same rfl rfl rfl) ht.end_input

theorem Queued.set_error : { s with stream := s.stream.setError }.Queued := by
  obtain ⟨W, ht⟩ := h.taped
  exact h.go (.same rfl rfl rfl) ht.set_error

theorem Queued.take {queue : List TCPSegment} (hq : ∀ g ∈ queue, g ∈ s.segmentsOut) :
    { s with segmentsOut := queue }.Queued := by
  obtain ⟨W, ht⟩ := h.taped
  exact ⟨⟨W, ht.take queue⟩, fun g hg => h.bare g (hq g hg)⟩

end Queued

end TCPSender

namespace TCPConnection

open StreamReassembler

/-- One use; where `connect` is undefined, nothing happens. -/
def use (x : TCPConnection) : ConnUse → TCPConnection
  | .connect => x.connect.getD x
  | .write data => x.write data
  | .endInputStream => x.endInputStream
  | .tick ms => x.tick ms
  | .read len => x.readInbound len
  | .segmentReceived seg => x.segmentReceived seg

theorem time_wait_state_iff {x : TCPConnection} :
    x.timeWaitState = true ↔ x.receiver.streamOut.eof = true ∧ x.sender.Finished := by
  simp only [timeWaitState, Bool.and_eq_true, decide_eq_true_eq, Bool.not_eq_true']
  constructor
  · intro ⟨⟨⟨⟨hr, he⟩, hf⟩, hn⟩, hz⟩
    exact ⟨hr, he, hf, hn, hz⟩
  · intro ⟨hr, he, hf, hn, hz⟩
    exact ⟨⟨⟨⟨hr, he⟩, hf⟩, hn⟩, hz⟩

/-- A connection is done after an error on both streams, or when both are finished and
all is acknowledged. -/
theorem inactive_cases {x : TCPConnection} (h : x.active = false) :
    (x.sender.stream.error && x.receiver.streamOut.error) = true ∨ x.timeWaitState = true := by
  unfold active at h
  split at h
  · exact .inl ‹_›
  refine .inr ?_
  split at h
  · simpa [closingState] using h
  · simp only [Bool.not_eq_false', Bool.and_eq_true] at h
    exact h.1

section Emission

/-- What has been put out since `before`: where it acknowledges, it says what the
receiver says, which does not change any more in the call. -/
structure Speaks (before : List TCPSegment) (x : TCPConnection) : Prop where
  queue : x.sender.Queued
  said : ∃ new, x.segmentsOut = before ++ new ∧ ∀ g ∈ new, g.header.ack = true →
    x.receiver.ackno = some g.header.ackno ∧ g.header.win = UInt16.ofNat x.receiver.windowSize

variable {before : List TCPSegment} {x : TCPConnection}

theorem speaks_start (h : x.sender.Queued) : x.Speaks x.segmentsOut := ⟨h, [], by simp, by simp⟩

theorem Speaks.sender {s : TCPSender} (h : x.Speaks before) (hs : s.Queued) :
    ({ x with sender := s } : TCPConnection).Speaks before :=
  ⟨hs, h.said⟩

theorem speaks_kept (before : List TCPSegment) : Kept (Speaks before) where
  fill := fun _ h => h.sender h.queue.fill_window
  tick := fun _ ms h => h.sender (h.queue.tick ms)
  empty := fun _ h => h.sender h.queue.send_empty
  errors := fun _ h => ⟨h.queue.set_error, h.said⟩
  flags := fun _ _ _ h => ⟨h.queue, h.said⟩
  forward := fun x seg copy queue h hseg hq hc => by
    obtain ⟨new, hnew, hsaid⟩ := h.said
    refine ⟨h.queue.take hq, new ++ [copy], by simp [hnew], ?_⟩
    intro g hg hack
    rcases List.mem_append.mp hg with hg | hg
    · exact hsaid g hg hack
    · rw [List.mem_singleton.mp hg] at hack ⊢
      have hbare : ¬ seg.header.ack = true := by simp [h.queue.bare seg hseg]
      exact ⟨(hc.acks hack).resolve_left hbare, (hc.window hack).resolve_left hbare⟩

/-- All that a use puts out carries what the receiver says at its end. -/
theorem use_speaks (h : x.sender.Queued) (u : ConnUse) : (x.use u).Speaks x.segmentsOut := by
  have hk := speaks_kept x.segmentsOut
  have hx := speaks_start h
  cases u with
  | connect => exact hk.connect hx
  | write data => exact hk.write (hx.sender (h.write data))
  | endInputStream => exact hk.end_input_stream (hx.sender h.end_input)
  | tick ms => exact hk.time_passes hx ms
  | read len => exact ⟨h, [], by simp [use, readInbound], by simp⟩
  | segmentReceived seg =>
    refine hk.segment_received hx (fun _ _ => ⟨h, [], by simp, by simp⟩) ?_
    intro y hy hack
    exact hy.sender (hy.queue.ack_received _ _)

end Emission

section Receiving

variable {P : TCPReceiver → Prop} {x : TCPConnection}

/-- The rule for the receiver: besides errors only a segment and the reader touch
it. -/
theorem use_receiver (h : P x.receiver)
    (error : ∀ r : TCPReceiver, P r → P { r with
      reassembler := { r.reassembler with output := r.reassembler.output.setError } })
    {u : ConnUse} (segment : ∀ seg, u = .segmentReceived seg → P (x.receiver.segmentReceived seg))
    (read : ∀ len, P (x.receiver.readOut len)) : P (x.use u).receiver := by
  have hk : Kept (fun x => P x.receiver) :=
    ⟨fun _ h => h, fun _ _ h => h, fun _ h => h, fun x h => error _ h, fun _ _ _ h => h,
      fun _ _ _ _ h _ _ _ => h⟩
  cases u with
  | connect => exact hk.connect h
  | write data => exact hk.write (x := x) h
  | endInputStream => exact hk.end_input_stream (x := x) h
  | tick ms => exact hk.time_passes h ms
  | read len => exact read len
  | segmentReceived seg => exact hk.segment_received h (fun _ _ => segment seg rfl) (fun _ h _ => h)

theorem segment_received_receiver {seg : TCPSegment} (hactive : x.active = true)
    (hrst : seg.header.rst = false) :
    (x.segmentReceived seg).receiver = x.receiver.segmentReceived seg := by
  have hf : Forwarded (fun y => y.receiver = x.receiver.segmentReceived seg) :=
    ⟨fun _ h => h, fun _ _ _ _ h _ _ _ => h⟩
  apply hf.segment_received hactive hrst ?_ (fun _ h _ => h)
  split
  · rfl
  · rfl

/-- The rule for what neither of the two halves has a part in. -/
theorem Kept.use_aside {Q : TCPConnection → Prop} (hk : Kept Q) (h : Q x)
    (sender : ∀ x s, Q x → Q { x with sender := s })
    (receiver : ∀ x r, Q x → Q { x with receiver := r }) (u : ConnUse) : Q (x.use u) := by
  cases u with
  | connect => exact hk.connect h
  | write data => exact hk.write (sender x _ h)
  | endInputStream => exact hk.end_input_stream (sender x _ h)
  | tick ms => exact hk.time_passes h ms
  | read len => exact receiver x _ h
  | segmentReceived seg =>
    exact hk.segment_received h (fun _ _ => receiver x _ h) (fun y hy _ => sender y _ hy)

theorem use_cfg (x : TCPConnection) (u : ConnUse) : (x.use u).cfg = x.cfg := by
  have hk : Kept (fun y => y.cfg = x.cfg) :=
    ⟨fun _ h => h, fun _ _ h => h, fun _ h => h, fun _ h => h, fun _ _ _ h => h,
      fun _ _ _ _ h _ _ _ => h⟩
  exact hk.use_aside rfl (fun _ _ h => h) (fun _ _ h => h) u

end Receiving

end TCPConnection

end Sponge
