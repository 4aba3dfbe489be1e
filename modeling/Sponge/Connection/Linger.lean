import Sponge.Connection.Window
import Sponge.Receiver.Finality

namespace Sponge

namespace TCPSender

/-- The FIN has been sent once more under a number of its own. The last state is out of
reach from then on, unless more is written. -/
def Spent (s : TCPSender) : Prop := s.stream.bytesWritten + 2 < s.nextSeqno

section Finished

variable {s : TCPSender} {W : Bytes}

theorem next_fill_window (h : s.Taped W) : s.nextSeqno ≤ s.fillWindow.nextSeqno :=
  (fill_window_preserves (Q := fun s' => s.nextSeqno ≤ s'.nextSeqno) h (Nat.le_refl _)
    (fun _ _ _ _ hle _ => Nat.le_trans hle (Nat.le_add_right _ _))
    (fun _ _ _ _ hle _ => Nat.le_trans hle (Nat.le_add_right _ _))).2

theorem input_end_fill_window (h : s.Taped W) : s.fillWindow.stream.inputEnd = s.stream.inputEnd :=
  (fill_window_preserves (Q := fun s' => s'.stream.inputEnd = s.stream.inputEnd) h rfl
    (fun _ _ _ _ he ht => ht.ended.trans he) (fun _ _ _ _ he hp => hp.ended.trans he)).2

theorem Spent.fill_window (hs : s.Spent) (h : s.Taped W) : s.fillWindow.Spent := by
  have hle := next_fill_window h
  rw [Spent, h.fill_window.written, ← h.written]
  exact Nat.lt_of_lt_of_le hs hle

/-- A finished sender has nothing to send, but into a zero window it sends FIN again. -/
theorem Finished.fill_window (hs : s.Finished) : s.fillWindow = s ∨ s.fillWindow.Spent := by
  have hnext := hs.next
  have hbuf : s.stream.bufferEmpty = true := (ByteStream.eof_iff.mp hs.eof).2
  rw [fillWindow, if_neg (by omega)]
  split
  · left
    simp only [hs.eof, true_and]
    rw [if_neg (by omega), fillLoop, dif_neg (by simp [hbuf])]
  split
  · right
    simp only [hbuf, Bool.true_eq_false, false_and, ↓reduceIte, hs.eof, hs.slot, and_self]
    simp only [Spent, probeFin, probe, startTimer, TCPSegment.lengthInSequenceSpace, ↓reduceIte]
    omega
  · exact .inl rfl

theorem Finished.tick (hs : s.Finished) (ms : Nat) : (s.tick ms).Finished :=
  tick_preserves hs (fun _ _ _ _ _ h => ⟨h.eof, h.flight, h.next, h.slot⟩)
    (fun _ h _ => ⟨h.eof, h.flight, h.next, h.slot⟩)
    (fun _ _ _ _ h _ => ⟨h.eof, h.flight, h.next, h.slot⟩) ms

theorem Spent.tick (hs : s.Spent) (ms : Nat) : (s.tick ms).Spent :=
  tick_preserves (Q := Spent) hs (fun _ _ _ _ _ h => h) (fun _ h _ => h) (fun _ _ _ _ h _ => h) ms

theorem Finished.ack_received (hs : s.Finished) (ackno : WrappingInt32) (win : UInt16) :
    (s.ackReceived ackno win).Finished := by
  unfold ackReceived
  split
  · exact hs
  · rename_i ack hack
    refine ⟨hs.eof, ?_, hs.next, ?_⟩
    · have hle : ((unacked ack s.outstandingSegs.entries).map
          (fun e => e.2.lengthInSequenceSpace)).sum ≤ s.bytesInFlight :=
        ((unacked_sublist ack _).map _).sum_le_sum (fun _ _ => Nat.zero_le _)
      rw [hs.flight] at hle
      exact Nat.le_zero.mp hle
    · simp [settleTimer, retire, hs.slot]

theorem Spent.ack_received (hs : s.Spent) (ackno : WrappingInt32) (win : UInt16) :
    (s.ackReceived ackno win).Spent := by
  unfold ackReceived
  split
  · exact hs
  · exact hs

theorem stream_ack_received (s : TCPSender) (ackno : WrappingInt32) (win : UInt16) :
    (s.ackReceived ackno win).stream = s.stream := by
  unfold ackReceived
  split
  · rfl
  · rfl

theorem stream_tick (s : TCPSender) (ms : Nat) : (s.tick ms).stream = s.stream :=
  tick_preserves (Q := fun s' => s'.stream = s.stream) rfl (fun _ _ _ _ _ h => h)
    (fun _ h _ => h) (fun _ _ _ _ h _ => h) ms

end Finished

end TCPSender

namespace TCPConnection

/-- A connection that will linger, `since` milliseconds after the last segment: its clock
is behind, unless it stands still for good. -/
structure Lingering (since : Nat) (x : TCPConnection) : Prop where
  queue : x.sender.Queued
  linger : x.lingerAfterStreamsFinish = true
  clean : x.receiver.streamOut.error = false
  early : x.inboundStream.inputEnded = false → x.timeSinceLastSegRec = 0
  clock : x.sender.Spent ∨ x.timeSinceLastSegRec = 0 ∨
    x.timeWaitState = true ∧ x.timeSinceLastSegRec ≤ since

/-- A connection that has lingered to the end. -/
structure Over (x : TCPConnection) : Prop where
  queue : x.sender.Queued
  linger : x.lingerAfterStreamsFinish = true
  clean : x.receiver.streamOut.error = false
  wait : x.timeWaitState = true
  time : 10 * x.cfg.rtTimeout.toNat ≤ x.timeSinceLastSegRec

section Lingering

variable {x : TCPConnection} {since : Nat}

theorem new_lingering (cfg : TCPConfig) (random : WrappingInt32) : (new cfg random).Lingering 0 :=
  ⟨TCPSender.new_queued _ _ _, rfl, rfl, fun _ => rfl, .inr (.inl rfl)⟩

theorem active_eq (hl : x.lingerAfterStreamsFinish = true)
    (hc : x.receiver.streamOut.error = false) :
    x.active = !(x.timeWaitState && x.timeSinceLastSegRec ≥ 10 * x.cfg.rtTimeout.toNat) := by
  rw [active, hc, Bool.and_false, if_neg (by simp), hl, Bool.not_true, if_neg (by simp)]

theorem Over.inactive (h : x.Over) : x.active = false := by
  rw [active_eq h.linger h.clean, h.wait]
  simp [h.time]

/-- A connection with its clock behind closes only when the time is over. -/
theorem Lingering.closes (h : x.Lingering since) (hdead : x.active = false) :
    x.Over ∧ 10 * x.cfg.rtTimeout.toNat ≤ since := by
  rw [active_eq h.linger h.clean] at hdead
  simp only [Bool.not_eq_false', Bool.and_eq_true, decide_eq_true_eq] at hdead
  obtain ⟨hwait, htime⟩ := hdead
  refine ⟨⟨h.queue, h.linger, h.clean, hwait, htime⟩, ?_⟩
  rcases h.clock with hspent | hzero | ⟨-, hle⟩
  · have hnext := (time_wait_state_iff.mp hwait).2.next
    rw [TCPSender.Spent] at hspent
    omega
  · omega
  · exact Nat.le_trans htime hle

theorem Lingering.forwarded (since : Nat) : Forwarded (Lingering since) where
  empty := fun _ h => ⟨h.queue.send_empty, h.linger, h.clean, h.early, h.clock⟩
  forward := fun _ _ _ _ h _ hq _ =>
    ⟨h.queue.take hq, h.linger, h.clean, h.early, h.clock⟩

theorem Over.forwarded : Forwarded Over where
  empty := fun _ h => ⟨h.queue.send_empty, h.linger, h.clean, h.wait, h.time⟩
  forward := fun _ _ _ _ h _ hq _ =>
    ⟨h.queue.take hq, h.linger, h.clean, h.wait, h.time⟩

theorem over_or_lingering_forwarded (since : Nat) :
    Forwarded (fun x => x.Over ∨ x.Lingering since) where
  empty := fun x h => h.imp (Over.forwarded.empty x) ((Lingering.forwarded since).empty x)
  forward := fun x seg copy queue h hseg hq hc =>
    h.imp (fun h => Over.forwarded.forward x seg copy queue h hseg hq hc)
      (fun h => (Lingering.forwarded since).forward x seg copy queue h hseg hq hc)

/-- A step that does not set the clock keeps it behind, if it does not leave the last state
other than by spending the FIN. -/
theorem Lingering.clock_behind (h : x.Lingering since) {y : TCPConnection}
    (htime : y.timeSinceLastSegRec = x.timeSinceLastSegRec)
    (hspent : x.sender.Spent → y.sender.Spent)
    (hwait : x.timeWaitState = true → y.sender.Spent ∨ y.timeWaitState = true) :
    y.sender.Spent ∨ y.timeSinceLastSegRec = 0 ∨
      y.timeWaitState = true ∧ y.timeSinceLastSegRec ≤ since := by
  rw [htime]
  rcases h.clock with hs | hzero | ⟨hw, hle⟩
  · exact .inl (hspent hs)
  · exact .inr (.inl hzero)
  · exact (hwait hw).imp_right fun hw => .inr ⟨hw, hle⟩

/-- Filling the window does not touch the clock, and at most spends the FIN. -/
theorem Lingering.fill (h : x.Lingering since) :
    ({ x with sender := x.sender.fillWindow } : TCPConnection).Lingering since := by
  obtain ⟨W, ht⟩ := h.queue.taped
  refine ⟨h.queue.fill_window, h.linger, h.clean, h.early,
    h.clock_behind rfl (fun hspent => hspent.fill_window ht) (fun hwait => ?_)⟩
  cases (time_wait_state_iff.mp hwait).2.fill_window with
  | inl hsame =>
    rw [hsame]
    exact .inr hwait
  | inr hspent => exact .inl hspent

theorem Over.fill (h : x.Over) (since : Nat) :
    ({ x with sender := x.sender.fillWindow } : TCPConnection).Over ∨
      ({ x with sender := x.sender.fillWindow } : TCPConnection).Lingering since := by
  obtain ⟨heof, hfin⟩ := time_wait_state_iff.mp h.wait
  cases hfin.fill_window with
  | inl hsame =>
    rw [hsame]
    exact .inl h
  | inr hspent =>
    refine .inr ⟨h.queue.fill_window, h.linger, h.clean, fun hopen => ?_, .inl hspent⟩
    have hended := (ByteStream.eof_iff.mp heof).1
    rw [inboundStream, hended] at hopen
    cases hopen

theorem Lingering.end_input (h : x.Lingering since) :
    ({ x with sender := { x.sender with stream := x.sender.stream.endInput } } :
      TCPConnection).Lingering since := by
  refine ⟨h.queue.end_input, h.linger, h.clean, h.early,
    h.clock_behind rfl id (fun hwait => .inr ?_)⟩
  have hended := (ByteStream.eof_iff.mp (time_wait_state_iff.mp hwait).2.eof).1
  rw [ByteStream.end_input_of_ended hended]
  exact hwait

/-- The clock runs in the last state, and no faster than the time passes. -/
theorem Lingering.note_time (h : x.Lingering since) (ms : Nat) :
    ({ x with sender := x.sender.tick ms }.noteTime ms).Lingering (since + ms) := by
  refine ⟨h.queue.tick ms, h.linger, h.clean, fun hopen => ?_, ?_⟩
  · have hwait : ({ x with sender := x.sender.tick ms } : TCPConnection).timeWaitState = false := by
      rw [Bool.eq_false_iff]
      intro hwait
      have hended := (ByteStream.eof_iff.mp (time_wait_state_iff.mp hwait).1).1
      exact absurd (hended.symm.trans hopen) (by simp)
    simp only [noteTime, hwait, Bool.false_eq_true, ↓reduceIte]
    exact h.early hopen
  · cases hwait : ({ x with sender := x.sender.tick ms } : TCPConnection).timeWaitState with
    | true =>
      have hadd : Word64.add x.timeSinceLastSegRec ms ≤ x.timeSinceLastSegRec + ms :=
        Nat.mod_le _ _
      simp only [noteTime, hwait, ↓reduceIte]
      rcases h.clock with hspent | hzero | ⟨-, hle⟩
      · exact .inl (hspent.tick ms)
      · exact .inr (.inr ⟨hwait, by omega⟩)
      · exact .inr (.inr ⟨hwait, by omega⟩)
    | false =>
      simp only [noteTime, hwait, Bool.false_eq_true, ↓reduceIte]
      rcases h.clock with hspent | hzero | ⟨hbefore, -⟩
      · exact .inl (hspent.tick ms)
      · exact .inr (.inl hzero)
      · -- the tick of the sender does not leave the last state
        obtain ⟨heof, hfin⟩ := time_wait_state_iff.mp hbefore
        have hafter : ({ x with sender := x.sender.tick ms } : TCPConnection).timeWaitState = true :=
          time_wait_state_iff.mpr ⟨heof, hfin.tick ms⟩
        rw [hafter] at hwait
        cases hwait

theorem Lingering.time_passes (h : x.Lingering since) {ms : Nat} (hactive : x.active = true)
    (hgive : (x.sender.tick ms).consecutiveRetransmissions ≤ TCPConfig.maxRetxAttempts) :
    (x.tick ms).Lingering (since + ms) := by
  have hsame : ({ x with sender := x.sender.tick ms }.noteTime ms).giveUp =
      { x with sender := x.sender.tick ms }.noteTime ms :=
    if_neg (Nat.not_lt.mpr hgive)
  rw [TCPConnection.tick, if_neg (by simp [hactive]), hsame]
  simp only
  split
  · exact (forwarded _).send_all_segs (h.note_time ms)
  · exact h.note_time ms

theorem Lingering.ack_received (h : x.Lingering since) (ackno : WrappingInt32) (win : UInt16) :
    ({ x with sender := x.sender.ackReceived ackno win } : TCPConnection).Lingering since := by
  refine ⟨h.queue.ack_received ackno win, h.linger, h.clean, h.early,
    h.clock_behind rfl (fun hspent => hspent.ack_received ackno win) (fun hwait => .inr ?_)⟩
  obtain ⟨heof, hfin⟩ := time_wait_state_iff.mp hwait
  exact time_wait_state_iff.mpr ⟨heof, hfin.ack_received ackno win⟩

theorem Lingering.take_ack (h : x.Lingering since) (seg : TCPSegment) :
    (x.takeAck seg).Lingering since := by
  have hack := h.ack_received seg.header.ackno seg.header.win
  unfold takeAck
  simp only
  split
  · exact hack.fill
  · exact hack

/-- The receiver takes the segment; the end stays read where it was. -/
theorem Lingering.receive (h : x.Lingering since) {seg : TCPSegment}
    (hkeep : x.inboundStream.eof = true → (x.receiver.segmentReceived seg).streamOut.eof = true) :
    ({ x with receiver := x.receiver.segmentReceived seg } : TCPConnection).Lingering since := by
  have ho := x.receiver.segment_received_onward seg
  refine ⟨h.queue, h.linger, ho.error.trans h.clean, fun hopen => ?_,
    h.clock_behind rfl id (fun hwait => .inr ?_)⟩
  · apply h.early
    rw [Bool.eq_false_iff]
    intro hended
    exact absurd ((ho.ended hended).symm.trans hopen) (by simp)
  · obtain ⟨heof, hfin⟩ := time_wait_state_iff.mp hwait
    exact time_wait_state_iff.mpr ⟨hkeep heof, hfin⟩

/-- In the last state the clock starts again; elsewhere it does not run. -/
theorem Lingering.note_ends (h : x.Lingering since)
    (hends : x.receiver.streamOut.inputEnded = false ∨ x.sender.stream.inputEnded = true) :
    x.noteEnds.Lingering 0 := by
  have hlinger : (x.receiver.streamOut.inputEnded && !x.sender.stream.inputEnded) = false := by
    cases hends with
    | inl hopen => rw [hopen, Bool.false_and]
    | inr hended => rw [hended, Bool.not_true, Bool.and_false]
  refine ⟨h.queue, ?_, h.clean, fun hopen => ?_, ?_⟩
  · simp only [noteEnds, hlinger, Bool.false_eq_true, ↓reduceIte]
    exact h.linger
  · simp only [noteEnds, h.early hopen, ite_self]
  · rcases h.clock with hspent | hzero | ⟨hwait, -⟩
    · exact .inl hspent
    · exact .inr (.inl (by simp only [noteEnds, hzero, ite_self]))
    · exact .inr (.inl (by simp only [noteEnds, hwait, ↓reduceIte]))

theorem Lingering.segment_received (h : x.Lingering since) {seg : TCPSegment}
    (hactive : x.active = true) (hrst : seg.header.rst = false)
    (hkeep : x.inboundStream.eof = true → (x.receiver.segmentReceived seg).streamOut.eof = true)
    (hends : (x.receiver.segmentReceived seg).streamOut.inputEnded = false ∨
      x.sender.stream.inputEnded = true) :
    (x.segmentReceived seg).Lingering 0 := by
  apply (forwarded 0).segment_received hactive hrst ?_ (fun _ hy _ => hy.fill)
  have hrecv := h.receive hkeep
  split
  · obtain ⟨W, ht⟩ := (hrecv.ack_received seg.header.ackno seg.header.win).queue.taped
    refine (hrecv.take_ack seg).note_ends (hends.imp_right fun hended => ?_)
    have hack : (x.sender.ackReceived seg.header.ackno seg.header.win).stream.inputEnd = true := by
      rw [TCPSender.stream_ack_received]
      exact hended
    unfold takeAck
    simp only
    split
    · exact (TCPSender.input_end_fill_window ht).trans hack
    · exact hack
  · exact hrecv.note_ends hends

theorem Lingering.write (h : x.Lingering since) (hopen : x.inboundStream.inputEnded = false)
    (data : Bytes) : (x.write data).Lingering since := by
  have hwrite : ({ x with sender := { x.sender with stream := x.sender.stream.write data } } :
      TCPConnection).Lingering since :=
    ⟨h.queue.write data, h.linger, h.clean, h.early, .inr (.inl (h.early hopen))⟩
  unfold TCPConnection.write
  simp only
  split
  · exact (forwarded since).send_all_segs hwrite.fill
  · exact hwrite

theorem Lingering.read (h : x.Lingering since) (len : Nat) :
    (x.readInbound len).Lingering since := by
  refine ⟨h.queue, h.linger, h.clean, h.early, h.clock_behind rfl id (fun hwait => .inr ?_)⟩
  obtain ⟨heof, hfin⟩ := time_wait_state_iff.mp hwait
  exact time_wait_state_iff.mpr ⟨(keeps_end_pop_output _ len).eof heof, hfin⟩

end Lingering

/-- The outbound stream is ended by `end_input_stream` and stays ended. -/
theorem use_ended {x : TCPConnection} {u : ConnUse} (h : x.sender.Queued)
    (hend : x.sender.stream.inputEnd = true ∨ u = .endInputStream) :
    (x.use u).sender.stream.inputEnd = true := by
  have hk : Kept (fun y => y.sender.Queued ∧ y.sender.stream.inputEnd = true) := {
    fill := fun _ hy => by
      obtain ⟨W, ht⟩ := hy.1.taped
      exact ⟨hy.1.fill_window, (TCPSender.input_end_fill_window ht).trans hy.2⟩
    tick := fun _ ms hy =>
      ⟨hy.1.tick ms, TCPSender.tick_preserves (Q := fun s => s.stream.inputEnd = true) hy.2
        (fun _ _ _ _ _ h => h) (fun _ h _ => h) (fun _ _ _ _ h _ => h) ms⟩
    empty := fun _ hy => ⟨hy.1.send_empty, hy.2⟩
    errors := fun _ hy => ⟨hy.1.set_error, hy.2⟩
    flags := fun _ _ _ hy => hy
    forward := fun _ _ _ _ hy _ hq _ => ⟨hy.1.take hq, hy.2⟩ }
  by_cases hu : u = .endInputStream
  · subst hu
    exact (hk.end_input_stream ⟨h.end_input, rfl⟩).2
  have hended := hend.resolve_right hu
  cases u with
  | endInputStream => exact absurd rfl hu
  | connect => exact (hk.connect ⟨h, hended⟩).2
  | write data => exact (hk.write ⟨h.write data, hended⟩).2
  | tick ms => exact (hk.time_passes ⟨h, hended⟩ ms).2
  | read len => exact hended
  | segmentReceived seg =>
    refine (hk.segment_received ⟨h, hended⟩ (fun _ _ => ⟨h, hended⟩) (fun y hy _ => ?_)).2
    refine ⟨hy.1.ack_received _ _, ?_⟩
    rw [TCPSender.stream_ack_received]
    exact hy.2

theorem receiver_end_input_stream (x : TCPConnection) :
    x.endInputStream.receiver = x.receiver := by
  have hf : Forwarded (fun y => y.receiver = x.receiver) :=
    ⟨fun _ h => h, fun _ _ _ _ h _ _ _ => h⟩
  exact hf.send_all_segs rfl

end TCPConnection

/-- A connection in use, and the milliseconds of the `tick` calls since the last segment
was received. -/
structure LingerSession where
  conn : TCPConnection
  sinceSegment : Nat := 0

namespace LingerSession

open TCPConnection

def new (cfg : TCPConfig) (random : WrappingInt32) : LingerSession := { conn := .new cfg random }

def step (x : LingerSession) (u : ConnUse) : LingerSession :=
  { conn := x.conn.use u
    sinceSegment := match u with
      | .segmentReceived _ => 0
      | .tick ms => x.sinceSegment + ms
      | _ => x.sinceSegment }

@[simp] theorem step_conn (x : LingerSession) (u : ConnUse) : (x.step u).conn = x.conn.use u := rfl

/-- No RST comes in, and no retransmission is one too many. -/
def Undisturbed (x : LingerSession) : ConnUse → Prop
  | .segmentReceived seg => seg.header.rst = false
  | .tick ms => x.conn.active = true →
      (x.conn.sender.tick ms).consecutiveRetransmissions ≤ TCPConfig.maxRetxAttempts
  | _ => True

instance (x : LingerSession) : (u : ConnUse) → Decidable (x.Undisturbed u)
  | .segmentReceived _ => inferInstanceAs (Decidable (_ = _))
  | .tick _ => inferInstanceAs (Decidable (_ → _ ≤ _))
  | .connect | .write _ | .endInputStream | .read _ => .isTrue trivial

/-- A segment that comes in when the inbound stream has been read to its end has a payload that
is refused, at the index where the receiver puts it. -/
def RefusesLate (x : LingerSession) : ConnUse → Prop
  | .segmentReceived seg => x.conn.active = true → x.conn.inboundStream.eof = true →
      (x.conn.receiver.noteSyn seg).isnSet = true →
      x.conn.receiver.reassembler.Refuses seg.payload
        ((x.conn.receiver.noteSyn seg).pushIndex seg)
  | _ => True

instance (x : LingerSession) : (u : ConnUse) → Decidable (x.RefusesLate u)
  | .segmentReceived _ => inferInstanceAs (Decidable (_ → _ → _ → _))
  | .connect | .write _ | .endInputStream | .tick _ | .read _ => .isTrue trivial

/-- If the call ends the connection, then the last segment is ten timeouts ago. -/
def ClosesLate (timeout : Nat) (x : LingerSession) (u : ConnUse) : Prop :=
  x.conn.active = true → (x.step u).conn.active = false → 10 * timeout ≤ (x.step u).sinceSegment

instance (timeout : Nat) (x : LingerSession) (u : ConnUse) : Decidable (x.ClosesLate timeout u) :=
  inferInstanceAs (Decidable (_ → _ → _ ≤ _))

/-- The inbound stream is still open after the call, or the outbound one has been ended
before and is not written to. -/
def Timely (x : LingerSession) (u : ConnUse) : Prop :=
  (x.step u).conn.inboundStream.inputEnded = false ∨
    x.conn.sender.stream.inputEnded = true ∧ ∀ data, u ≠ .write data

section Steps

variable {x : LingerSession} {u : ConnUse}

theorem open_of_step (h : (x.step u).conn.inboundStream.inputEnded = false) :
    x.conn.inboundStream.inputEnded = false := by
  rw [Bool.eq_false_iff] at h ⊢
  exact fun hended => h ((advances_use x.conn u).ended hended)

theorem lingering_step (h : x.conn.Lingering x.sinceSegment) (hactive : x.conn.active = true)
    (hu : x.Undisturbed u) (hlate : x.RefusesLate u) (ht : x.Timely u) :
    (x.step u).conn.Lingering (x.step u).sinceSegment := by
  cases u with
  | connect => exact (Lingering.forwarded _).connect h h.fill
  | write data =>
    cases ht with
    | inl hopen => exact h.write (open_of_step hopen) data
    | inr hended => exact absurd rfl (hended.2 data)
  | endInputStream => exact (Lingering.forwarded _).send_all_segs h.end_input.fill
  | tick ms => exact h.time_passes hactive (hu hactive)
  | read len => exact h.read len
  | segmentReceived seg =>
    have hkeep : x.conn.inboundStream.eof = true →
        (x.conn.receiver.segmentReceived seg).streamOut.eof = true := by
      intro heof
      have hended := (ByteStream.eof_iff.mp heof).1
      rw [TCPReceiver.segment_refused hended (hlate hactive heof)]
      exact heof
    apply h.segment_received hactive hu hkeep
    cases ht with
    | inl hopen =>
      rw [step_conn, use, inboundStream, segment_received_receiver hactive hu] at hopen
      exact .inl hopen
    | inr hended => exact .inr hended.1

/-- A connection that is over stays so, unless another FIN brings it back for good. -/
theorem over_step (h : x.conn.Over) (ht : x.Timely u) :
    (x.step u).conn.Over ∨ (x.step u).conn.Lingering (x.step u).sinceSegment := by
  have hdead := h.inactive
  obtain ⟨heof, hfin⟩ := time_wait_state_iff.mp h.wait
  cases u with
  | connect => exact (over_or_lingering_forwarded _).connect (.inl h) (h.fill x.sinceSegment)
  | write data =>
    cases ht with
    | inl hopen =>
      have hended := (ByteStream.eof_iff.mp heof).1
      exact absurd (hended.symm.trans (open_of_step hopen)) (by simp)
    | inr hended => exact absurd rfl (hended.2 data)
  | endInputStream =>
    have hended := (ByteStream.eof_iff.mp hfin.eof).1
    rw [step_conn, use, endInputStream, ByteStream.end_input_of_ended hended]
    exact (over_or_lingering_forwarded _).send_all_segs (h.fill x.sinceSegment)
  | tick ms =>
    rw [step_conn, use, tick, if_pos hdead]
    exact .inl h
  | read len =>
    refine .inl ⟨h.queue, h.linger, h.clean, time_wait_state_iff.mpr ⟨?_, hfin⟩, h.time⟩
    exact (keeps_end_pop_output _ len).eof heof
  | segmentReceived seg =>
    rw [step_conn, use, segmentReceived, if_pos hdead]
    exact .inl h

end Steps

/-- Before `end_input_stream` the inbound stream is open; after it the outbound one is
ended. -/
theorem along_timely (cfg : TCPConfig) (random : WrappingInt32) {before after : List ConnUse}
    (hopen : (Run.final step (new cfg random) before).conn.inboundStream.inputEnded = false)
    (hwrite : ∀ data, .write data ∉ after) :
    Run.Along step Timely (new cfg random) (before ++ .endInputStream :: after) := by
  have hqueue : (Run.final step (new cfg random) before).conn.sender.Queued :=
    Run.invariant_of_mem (I := fun x : LingerSession => x.conn.sender.Queued) (TCPSender.new_queued _ _ _)
      (fun x u _ hx => (use_speaks hx u).queue)
  have hstart : Run.Along step Timely (new cfg random) before := by
    have hopens := Run.along_of_final
      (Q := fun x : LingerSession => x.conn.inboundStream.inputEnded = false) hopen
      (fun x u => open_of_step)
    exact hopens.mono (fun x u h => .inl h)
  apply Run.Along.append.mpr ⟨hstart, ?_⟩
  generalize Run.final step (new cfg random) before = x at hopen hqueue
  constructor
  · left
    rw [step_conn, use, inboundStream, receiver_end_input_stream]
    exact hopen
  · have hnone : ∀ u ∈ after, ∀ data, u ≠ .write data :=
      fun u hu data heq => hwrite data (heq ▸ hu)
    apply Run.along_of_invariant (I := fun y : LingerSession =>
      y.conn.sender.Queued ∧ y.conn.sender.stream.inputEnd = true)
      ⟨(use_speaks hqueue .endInputStream).queue, use_ended hqueue (.inr rfl)⟩
      (Run.along_of_mem hnone)
    · exact fun y u hy _ => ⟨(use_speaks hy.1 u).queue, use_ended hy.1 (.inl hy.2)⟩
    · exact fun y u hy hu => .inr ⟨hy.2, hu⟩

/-- An active closer lingers for ten timeouts after the last segment, as long as no segment
brings a byte to the inbound stream when that has been read to its end. -/
theorem closer_lingers (cfg : TCPConfig) (random : WrappingInt32) (before after : List ConnUse)
    (hopen : (Run.final step (new cfg random) before).conn.inboundStream.inputEnded = false)
    (hwrite : ∀ data, .write data ∉ after)
    (hquiet : Run.Along step Undisturbed (new cfg random) (before ++ .endInputStream :: after))
    (hlate : Run.Along step RefusesLate (new cfg random) (before ++ .endInputStream :: after)) :
    Run.Along step (ClosesLate cfg.rtTimeout.toNat) (new cfg random)
      (before ++ .endInputStream :: after) := by
  have htimely := along_timely cfg random hopen hwrite
  have hcond := (hquiet.and hlate).and htimely
  apply Run.along_of_invariant (I := fun x => x.conn.cfg = cfg ∧
    (x.conn.Over ∨ x.conn.Lingering x.sinceSegment)) ⟨rfl, .inr (new_lingering cfg random)⟩ hcond
  · intro x u ⟨hcfg, h⟩ ⟨⟨hu, hrefused⟩, ht⟩
    refine ⟨(use_cfg x.conn u).trans hcfg, ?_⟩
    cases h with
    | inl hover => exact over_step hover ht
    | inr h =>
      cases hactive : x.conn.active with
      | true => exact .inr (lingering_step h hactive hu hrefused ht)
      | false => exact over_step (h.closes hactive).1 ht
  · intro x u ⟨hcfg, h⟩ ⟨⟨hu, hrefused⟩, ht⟩ hactive hdead
    cases h with
    | inl hover => exact absurd (hactive.symm.trans hover.inactive) (by simp)
    | inr h =>
      have htime := ((lingering_step h hactive hu hrefused ht).closes hdead).2
      rwa [step_conn, use_cfg, hcfg] at htime

/-- A connection closed from this side; the FIN of the peer comes twice. -/
theorem closer_lingers_twice :
    let us := [.segmentReceived
        { header := { syn := true, ack := true, ackno := ⟨1⟩, win := 10 } }, .endInputStream,
      .segmentReceived { header := { seqno := ⟨1⟩, ack := true, ackno := ⟨2⟩, win := 10 } },
      .segmentReceived { header := { seqno := ⟨1⟩, fin := true, ack := true, ackno := ⟨2⟩, win := 10 } },
      .tick 6000,
      .segmentReceived { header := { seqno := ⟨1⟩, fin := true, ack := true, ackno := ⟨2⟩, win := 10 } },
      .tick 10000]
    (Run.final step (new {} ⟨0⟩) (.connect :: us)).conn.active = false ∧
      Run.Along step (ClosesLate 1000) (new {} ⟨0⟩) (.connect :: us) :=
  ⟨by decide +kernel, closer_lingers {} ⟨0⟩ [.connect, .segmentReceived
    { header := { syn := true, ack := true, ackno := ⟨1⟩, win := 10 } }] _ (by decide +kernel)
    (by simp) (by decide +kernel) (by decide +kernel)⟩

/-- In the last state a byte comes in behind the FIN; the clock is not set back, and runs on
when the byte has been read. -/
theorem byte_past_end_cuts_linger :
    ¬ ∀ (cfg : TCPConfig) (random : WrappingInt32) (before after : List ConnUse),
      (Run.final step (new cfg random) before).conn.inboundStream.inputEnded = false →
      (∀ data, .write data ∉ after) →
      Run.Along step Undisturbed (new cfg random) (before ++ .endInputStream :: after) →
      Run.Along step (ClosesLate cfg.rtTimeout.toNat) (new cfg random)
        (before ++ .endInputStream :: after) := by
  intro h
  have hlast := h {} ⟨0⟩
    [.connect, .segmentReceived { header := { syn := true, ack := true, ackno := ⟨1⟩, win := 10 } }]
    [.segmentReceived { header := { seqno := ⟨1⟩, ack := true, ackno := ⟨2⟩, win := 10 } },
      .segmentReceived { header := { seqno := ⟨1⟩, fin := true, ack := true, ackno := ⟨2⟩, win := 10 } },
      .tick 6000,
      .segmentReceived
        { header := { seqno := ⟨1⟩, ack := true, ackno := ⟨2⟩, win := 10 }, payload := [7] },
      .read 1, .tick 4000]
    (by decide +kernel) (by simp) (by decide +kernel)
  revert hlast
  decide +kernel

end LingerSession

end Sponge
