import Sponge.Connection.Dead
import Sponge.Sender.Filling
import Sponge.Sender.Fin

namespace Sponge

theorem TCPSender.ack_received_queue (s : TCPSender) (ackno : WrappingInt32) (win : UInt16) :
    (s.ackReceived ackno win).segmentsOut = s.segmentsOut := by
  unfold ackReceived
  split <;> rfl

namespace TCPSender

section Refilling

variable {W : Bytes} {s : TCPSender} {ackno : WrappingInt32} {ack : Nat}

/-- Once FIN is on the tape, the numbers used are at least those of the SYN, of the bytes read and
of the FIN. -/
theorem Taped.past_fin (ht : s.Taped W) (hfin : .fin ∈ s.tape) :
    s.stream.bytesRead + 2 ≤ s.nextSeqno := by
  have hpos : 0 < s.nextSeqno := by
    rw [← ht.length]
    exact List.length_pos_of_mem hfin
  obtain ⟨rest, hrest⟩ : ∃ rest, s.tape = .syn :: rest := by
    have hsyn := (ht.start 0).mpr ⟨rfl, hpos⟩
    cases htape : s.tape with
    | nil => simp [htape] at hsyn
    | cons sym rest =>
      rw [htape] at hsyn
      exact ⟨rest, by rw [Option.some.inj hsyn]⟩
  have hlen := ht.length
  have hread := ht.read
  rw [hrest] at hfin hlen hread
  have hin : .fin ∈ rest := by simpa using hfin
  have hfewer : (bytesOf rest).length < rest.length :=
    List.length_filterMap_lt_length_iff_exists.mpr ⟨.fin, hin, rfl⟩
  rw [List.length_cons] at hlen
  change s.stream.bytesRead = (bytesOf rest).length at hread
  omega

theorem AllSent.past_fin (h : s.AllSent) (ht : s.Taped W) (hend : s.stream.inputEnded = true) :
    s.stream.bytesWritten + 2 ≤ s.nextSeqno := by
  obtain ⟨e, he, hfin⟩ := h.2 hend
  obtain ⟨t, hget⟩ := List.getElem?_of_mem (TCPSegment.fin_mem_symbols.mpr hfin)
  have hpast := ht.past_fin (List.mem_of_getElem? ((ht.sent e he).stands t .fin hget))
  have hcount := ht.stream.counted
  have hempty := h.1
  simp only [ByteStream.bufferEmpty, decide_eq_true_eq] at hempty
  simp only [ByteStream.bytesWritten, ByteStream.bytesRead] at *
  omega

/-- With nothing left to be sent, `fill_window` can only repeat the FIN. -/
theorem AllSent.idle_iff (h : s.AllSent) (ht : s.Taped W) (hq : s.segmentsOut = [])
    (h0 : s.nextSeqno ≠ 0) : s.Idle ↔ ¬ s.Refin := by
  have hpast : s.stream.eof = true → s.stream.bytesWritten + 2 ≤ s.nextSeqno :=
    fun heof => h.past_fin ht (ByteStream.eof_iff.mp heof).1
  constructor
  · rintro hidle ⟨⟨heof, -⟩, hwin, hflight, hfree⟩
    have hnot := ((hidle.2.2 hfree).2 hwin hflight).2
    rw [heof] at hnot
    cases hnot
  · intro hno
    refine ⟨hq, h0, fun hfree => ⟨fun _ => ⟨h.1, hpast⟩, fun hwin hflight => ⟨h.1, ?_⟩⟩⟩
    rw [Bool.eq_false_iff]
    intro heof
    exact hno ⟨⟨heof, hpast heof⟩, hwin, hflight, hfree⟩

theorem fill_loop_window (s : TCPSender) : s.fillLoop.winSize = s.winSize := by
  fun_induction fillLoop s with
  | case1 s h ih => exact ih
  | case2 s h => rfl

/-- After `fill_window` no FIN is waiting to be repeated: the branch for a zero window has put it
in the slot. -/
theorem not_refin_fill_window (s : TCPSender) : ¬ s.fillWindow.Refin := by
  rintro ⟨⟨heof, hpast⟩, hwin, hflight, hfree⟩
  unfold fillWindow at heof hpast hwin hflight hfree
  split at heof
  · rename_i h0
    rw [if_pos h0] at hpast
    simp only [sendSyn, transmit, startTimer, h0, TCPSegment.lengthInSequenceSpace] at hpast
    simp at hpast
  rename_i h0
  rw [if_neg h0] at hwin hflight hfree
  split at heof
  · rename_i hopen
    have hsame : ∀ s' : TCPSender, s'.winSize = s.winSize → s'.fillLoop.winSize ≠ 0 := by
      intro s' hs' hzero
      rw [fill_loop_window, hs'] at hzero
      simp [hzero] at hopen
    rw [if_pos hopen] at hwin
    refine hsame _ ?_ hwin
    split <;> rfl
  rename_i hclosed
  rw [if_neg hclosed] at hwin hflight hfree
  split at heof
  · rename_i hzero
    rw [if_pos hzero] at hfree
    dsimp only at heof hfree
    generalize (if s.stream.bufferEmpty = false ∧ s.zeroWinSegSend = false then s.probeByte
      else s) = s' at heof hfree
    split at heof
    · rename_i hfin
      rw [if_pos hfin] at hfree
      cases hfree
    · rename_i hfin
      rw [if_neg hfin] at hfree
      exact hfin ⟨heof, hfree⟩
  · rename_i hzero
    rw [if_neg hzero] at hwin hflight
    exact hzero ⟨hwin, hflight⟩

/-- The numbers in flight are all that are in use only while the SYN is not acknowledged. -/
theorem flight_retire_lt_iff (h : s.Pending 0) (ht : s.Taped W) (hr : s.Ranged)
    (hack : ack ≤ s.nextSeqno) : (s.retire ack).bytesInFlight < s.nextSeqno ↔
      (ack = 0 → s.bytesInFlight < s.nextSeqno) := by
  rcases Nat.eq_zero_or_pos ack with rfl | hpos
  · have hsame : unacked 0 s.outstandingSegs.entries = s.outstandingSegs.entries := by
      rw [unacked_eq_filter 0 hr.held ht.held_pos, List.filter_eq_self]
      exact fun e he => decide_eq_true (h.held e he)
    simp only [bytesInFlight, OrdMap.total, retire, OrdMap.restrict, hsame, true_imp_iff]
  · have hranged : (s.retire ack).Ranged := hr.sublist (retained_retire s ack)
    have hlt := (h.retire ht hr hack).flight_lt (ht.retire ack) hranged (by omega)
    exact iff_of_true hlt fun hzero => absurd hzero (by omega)

/-- An acknowledgment after which `fill_window` repeats the FIN: the stream has ended, the
acknowledgment is taken and announces a zero window, the slot for it is free or becomes so, and the
SYN is acknowledged, by this acknowledgment or before. -/
def RepeatsFin (s : TCPSender) (ackno : WrappingInt32) (win : UInt16) : Prop :=
  s.stream.inputEnded = true ∧ win = 0 ∧ ∃ ack ∈ s.ackSeqno ackno,
    (s.zeroWinSegSend = true → s.zeroWinSegSeq < ack) ∧
      (ack = 0 → s.bytesInFlight < s.nextSeqno)

instance (s : TCPSender) (ackno : WrappingInt32) (win : UInt16) :
    Decidable (s.RepeatsFin ackno win) :=
  inferInstanceAs (Decidable (_ ∧ _ ∧ ∃ ack ∈ _, _))

theorem AllSent.refin_iff (h : s.AllSent) (ht : s.Taped W) (hr : s.Ranged) (hp : s.Pending 0)
    (hno : ¬ s.Refin) (win : UInt16) :
    (s.ackReceived ackno win).Refin ↔ s.RepeatsFin ackno win := by
  unfold ackReceived RepeatsFin
  cases hack : s.ackSeqno ackno with
  | none => simpa using hno
  | some ack =>
    have hslot : (s.retire ack).zeroWinSegSend = false ↔
        (s.zeroWinSegSend = true → s.zeroWinSegSeq < ack) := by
      simp only [retire]
      cases s.zeroWinSegSend with
      | false => simp
      | true => simp
    have hflight := flight_retire_lt_iff hp ht hr (ack_seqno_le hack)
    constructor
    · rintro ⟨⟨heof, -⟩, hwin, hlt, hfree⟩
      exact ⟨(ByteStream.eof_iff.mp heof).1, hwin, ack, rfl, hslot.mp hfree, hflight.mp hlt⟩
    · rintro ⟨hend, hwin, ack', hsome, hfree, hlt⟩
      obtain rfl : ack = ack' := Option.some.inj hsome
      exact ⟨⟨ByteStream.eof_iff.mpr ⟨hend, h.1⟩, h.past_fin ht hend⟩, hwin, hflight.mpr hlt,
        hslot.mpr hfree⟩

end Refilling

end TCPSender

namespace TCPConnection

section Sending

variable {x : TCPConnection}

theorem send_common_seg_receiver (x : TCPConnection) : x.sendCommonSeg.receiver = x.receiver := by
  unfold sendCommonSeg
  split <;> rfl

theorem send_all_segs_receiver (x : TCPConnection) : x.sendAllSegs.receiver = x.receiver := by
  fun_induction sendAllSegs x with
  | case1 x h => rfl
  | case2 x h ih => rw [ih, send_common_seg_receiver]

theorem send_all_segs_queue (x : TCPConnection) : x.sendAllSegs.sender.segmentsOut = [] := by
  fun_induction sendAllSegs x with
  | case1 x h => exact h
  | case2 x h ih => exact ih

/-- It does not matter that the first segment of the queue goes out on its own. -/
theorem send_common_seg_all (x : TCPConnection) :
    x.sendCommonSeg.sendAllSegs.segmentsOut =
      x.segmentsOut ++ x.sender.segmentsOut.map (stamp x.receiver) := by
  rw [send_all_segs_out, send_common_seg_receiver]
  unfold sendCommonSeg
  split
  · simp [*]
  · simp [*]

/-- Once there is an acknowledgment number it goes out with every segment. -/
theorem stamp_acks {r : TCPReceiver} {ackno : WrappingInt32} (h : r.ackno = some ackno)
    (seg : TCPSegment) :
    (stamp r seg).header.ack = true ∧ (stamp r seg).header.ackno = ackno := by
  simp [stamp, h]

theorem ensure_segment_queue (x : TCPConnection) : x.ensureSegment.sender.segmentsOut ≠ [] := by
  unfold ensureSegment
  split
  · simp [TCPSender.sendEmptySegment]
  · assumption

theorem ensure_segment_rest (x : TCPConnection) :
    x.ensureSegment.receiver = x.receiver ∧ x.ensureSegment.segmentsOut = x.segmentsOut := by
  unfold ensureSegment
  split <;> exact ⟨rfl, rfl⟩

/-- A reply, and then the rest of the queue: at least one segment, and each with the
acknowledgment number. -/
theorem reply_sends {ackno : WrappingInt32} (h : x.receiver.ackno = some ackno) :
    ∃ new, new ≠ [] ∧ x.reply.sendAllSegs.segmentsOut = x.segmentsOut ++ new ∧
      ∀ g ∈ new, g.header.ack = true ∧ g.header.ackno = ackno := by
  unfold reply
  simp only
  generalize hy : (if x.sender.nextSeqnoAbsolute = 0 then
    ({ x with sender := x.sender.fillWindow } : TCPConnection) else x) = y
  have hrest : y.receiver = x.receiver ∧ y.segmentsOut = x.segmentsOut := by
    rw [← hy]
    split <;> exact ⟨rfl, rfl⟩
  obtain ⟨hreceiver, hout⟩ := y.ensure_segment_rest
  refine ⟨y.ensureSegment.sender.segmentsOut.map (stamp y.ensureSegment.receiver), ?_, ?_, ?_⟩
  · simpa using y.ensure_segment_queue
  · rw [send_common_seg_all, hout, hrest.2]
  · intro g hg
    obtain ⟨seg, -, rfl⟩ := List.mem_map.mp hg
    exact stamp_acks (by rw [hreceiver, hrest.1, h]) seg

end Sending


section Refilled

variable {x : TCPConnection}

/-- Between two calls the sender keeps its books, and no FIN is waiting to be repeated. -/
structure Refilled (x : TCPConnection) : Prop where
  queued : x.sender.Queued
  ranged : x.sender.Ranged
  pending : x.sender.Pending 0
  fin : ¬ x.sender.Refin

theorem new_refilled (cfg : TCPConfig) (random : WrappingInt32) : (new cfg random).Refilled where
  queued := TCPSender.new_queued ..
  ranged := TCPSender.new_ranged ..
  pending := TCPSender.new_pending ..
  fin := by simp [TCPSender.Refin, new, TCPSender.new, ByteStream.new, ByteStream.eof]

/-- Filling the window settles it, whatever has happened before. -/
theorem refilled_fill (hq : x.sender.Queued) (hr : x.sender.Ranged) (hp : x.sender.Pending 0) :
    Refilled { x with sender := x.sender.fillWindow } := by
  obtain ⟨W, ht⟩ := hq.taped
  exact ⟨hq.fill_window, hr.fill_window ht, hp.fill_window ht, x.sender.not_refin_fill_window⟩

theorem refilled_relayed : Relayed Refilled where
  empty := fun _ h => ⟨h.queued.send_empty, h.ranged, h.pending.keep rfl rfl rfl rfl, h.fin⟩
  forward := fun _ _ _ _ h _ hq _ =>
    ⟨h.queued.take hq, h.ranged, h.pending.keep rfl rfl rfl rfl, h.fin⟩
  errors := fun _ h => ⟨h.queued.set_error, h.ranged, h.pending.keep rfl rfl rfl rfl, h.fin⟩
  flags := fun _ _ _ h => ⟨h.queued, h.ranged, h.pending, h.fin⟩

/-- An acknowledgment can leave a FIN to be repeated; `fill_window` is called before anything
else happens. -/
theorem Refilled.take_ack (h : x.Refilled) (seg : TCPSegment) : (x.takeAck seg).Refilled := by
  obtain ⟨W, ht⟩ := h.queued.taped
  have hq := h.queued.ack_received seg.header.ackno seg.header.win
  have hr := h.ranged.ack_received seg.header.ackno seg.header.win
  have hp : (x.sender.ackReceived seg.header.ackno seg.header.win).Pending 0 := by
    cases hack : x.sender.ackSeqno seg.header.ackno with
    | none =>
      rw [TCPSender.ackReceived, hack]
      exact h.pending
    | some ack => exact (h.pending.ack_received ht h.ranged hack _).weaken
  unfold takeAck
  dsimp only
  split
  · exact refilled_fill (x := { x with sender := _ }) hq hr hp
  · rename_i hnone
    refine ⟨hq, hr, hp, fun hfin => ?_⟩
    have hpast := hfin.1.2
    simp only [TCPSender.nextSeqnoAbsolute, ne_eq, Decidable.not_not] at hnone hpast
    omega

theorem Refilled.write_stream (h : x.Refilled) (data : Bytes) :
    Refilled { x with sender := { x.sender with stream := x.sender.stream.write data } } := by
  refine ⟨h.queued.write data, h.ranged, h.pending.keep rfl rfl rfl rfl, ?_⟩
  -- a stream that is at its end has taken nothing
  intro hfin
  have hempty := (ByteStream.eof_iff.mp hfin.1.1).2
  have hnone := (ByteStream.write_buffer_empty_iff.mp hempty).2
  rw [ByteStream.write_of_accepts_none hnone] at hfin
  exact h.fin hfin

theorem Refilled.use (h : x.Refilled) (u : ConnUse) : (x.use u).Refilled := by
  have hr := refilled_relayed
  have hfill : ∀ y : TCPConnection, y.Refilled →
      Refilled { y with sender := y.sender.fillWindow } :=
    fun y hy => refilled_fill hy.queued hy.ranged hy.pending
  cases u with
  | connect => exact hr.connect h (hfill x h)
  | write data =>
    have hwritten := h.write_stream data
    change (x.write data).Refilled
    unfold write
    dsimp only
    split
    · exact hr.send_all_segs (hfill _ hwritten)
    · exact hwritten
  | endInputStream =>
    have hended := refilled_fill
      (x := { x with sender := { x.sender with stream := x.sender.stream.endInput } })
      h.queued.end_input h.ranged (h.pending.keep rfl rfl rfl rfl)
    exact hr.send_all_segs hended
  | tick ms =>
    have hfin : ¬ (x.sender.tick ms).Refin :=
      TCPSender.tick_preserves (Q := fun s => ¬ s.Refin) h.fin (fun _ _ _ _ _ hno => hno)
        (fun _ hno _ => hno) (fun _ _ _ _ hno _ => hno) ms
    exact hr.time_passes h ⟨h.queued.tick ms, h.ranged.tick ms, h.pending.tick ms, hfin⟩
  | read len => exact ⟨h.queued, h.ranged, h.pending, h.fin⟩
  | segmentReceived seg =>
    refine hr.segment_received h (fun _ _ => ?_) fun y hy _ => hfill y hy
    have hrecv : Refilled { x with receiver := x.receiver.segmentReceived seg } :=
      ⟨h.queued, h.ranged, h.pending, h.fin⟩
    split
    · exact hrecv.take_ack seg
    · exact hrecv

end Refilled

section Receiving

variable {x : TCPConnection} {seg : TCPSegment}

/-- The connection when the receiver and the sender have used the segment. -/
def used (x : TCPConnection) (seg : TCPSegment) : TCPConnection :=
  (if seg.header.ack then
    ({ x with receiver := x.receiver.segmentReceived seg } : TCPConnection).takeAck seg
  else { x with receiver := x.receiver.segmentReceived seg }).noteEnds

theorem used_rest (x : TCPConnection) (seg : TCPSegment) :
    (x.used seg).receiver = x.receiver.segmentReceived seg ∧
      (x.used seg).segmentsOut = x.segmentsOut := by
  unfold used
  split <;> exact ⟨rfl, rfl⟩

theorem segment_received_taking (hactive : x.active = true) (hrst : seg.header.rst = false)
    (hlen : seg.lengthInSequenceSpace ≠ 0) :
    x.segmentReceived seg =
      (if (x.used seg).receiver.ackno.isSome then (x.used seg).reply
        else x.used seg).sendAllSegs := by
  rw [segmentReceived, if_neg (by simp [hactive]), if_neg (by simp [hrst])]
  simp only [hlen, false_and, ↓reduceIte, ne_eq, not_false_eq_true, true_and]
  rfl

/-- An empty segment only lets out what is queued, unless it is a keep-alive. -/
theorem segment_received_empty (hactive : x.active = true) (hrst : seg.header.rst = false)
    (hlen : seg.lengthInSequenceSpace = 0)
    (hseqno : (x.receiver.segmentReceived seg).ackno.map (·.minus 1) ≠ some seg.header.seqno) :
    x.segmentReceived seg = (x.used seg).sendAllSegs := by
  have hrecv : (x.used seg).sendAllSegs.receiver = x.receiver.segmentReceived seg := by
    rw [send_all_segs_receiver, (x.used_rest seg).1]
  rw [segmentReceived, if_neg (by simp [hactive]), if_neg (by simp [hrst])]
  simp only [hlen, ne_eq, not_true_eq_false, false_and, ↓reduceIte, true_and]
  rw [← hrecv] at hseqno
  exact if_neg hseqno

/-- Nothing is queued, and the stream has nothing that has not been sent, FIN included. -/
def NothingNew (x : TCPConnection) : Prop := x.sender.segmentsOut = [] ∧ x.sender.AllSent

instance (x : TCPConnection) : Decidable x.NothingNew := inferInstanceAs (Decidable (_ ∧ _))

/-- The segment acknowledges in a way that makes the sender repeat its FIN. -/
def RepeatsFin (x : TCPConnection) (seg : TCPSegment) : Prop :=
  seg.header.ack = true ∧ x.sender.RepeatsFin seg.header.ackno seg.header.win

instance (x : TCPConnection) (seg : TCPSegment) : Decidable (x.RepeatsFin seg) :=
  inferInstanceAs (Decidable (_ ∧ _))

theorem Refilled.used_queue (h : x.Refilled) (hnew : x.NothingNew) :
    (x.used seg).sender.segmentsOut = [] ↔ ¬ x.RepeatsFin seg := by
  obtain ⟨W, ht⟩ := h.queued.taped
  unfold used RepeatsFin
  cases hack : seg.header.ack with
  | false => simpa [noteEnds] using hnew.1
  | true =>
    have hsent : (x.sender.ackReceived seg.header.ackno seg.header.win).AllSent := by
      unfold TCPSender.ackReceived
      split
      · exact hnew.2
      · exact hnew.2
    have hqueue := (x.sender.ack_received_queue seg.header.ackno seg.header.win).trans hnew.1
    have hrefin : (x.sender.ackReceived seg.header.ackno seg.header.win).Refin ↔
        x.sender.RepeatsFin seg.header.ackno seg.header.win :=
      hnew.2.refin_iff ht h.ranged h.pending h.fin _
    simp only [↓reduceIte, true_and, noteEnds, takeAck]
    rw [← hrefin]
    split
    · rename_i h0
      rw [TCPSender.fill_window_queue_iff]
      exact hsent.idle_iff (ht.ack_received _ _) hqueue h0
    · -- nothing has been sent at all, and so no FIN
      rename_i h0
      refine iff_of_true hqueue fun hfin => ?_
      have hpast := hfin.1.2
      simp only [TCPSender.nextSeqnoAbsolute, ne_eq, Decidable.not_not] at h0
      omega

end Receiving

/-- In every state of every run: a segment that takes up sequence numbers is answered with the
acknowledgment number, and one that takes up none, and is no keep-alive, is not if there is nothing
new to send, except by a FIN that is repeated. -/
theorem segment_answered (cfg : TCPConfig) (random : WrappingInt32) (us : List ConnUse)
    (seg : TCPSegment) (hactive : (Run.final use (new cfg random) us).active = true)
    (hrst : seg.header.rst = false) :
    let x := Run.final use (new cfg random) us
    let y := x.segmentReceived seg
    (seg.lengthInSequenceSpace ≠ 0 → ∀ ackno, y.receiver.ackno = some ackno →
      (∃ new, new ≠ [] ∧ y.segmentsOut = x.segmentsOut ++ new ∧
        ∀ g ∈ new, g.header.ack = true ∧ g.header.ackno = ackno) ∧
      y.sender.segmentsOut = []) ∧
    (seg.lengthInSequenceSpace = 0 → y.receiver.ackno.map (·.minus 1) ≠ some seg.header.seqno →
      x.NothingNew → (y.segmentsOut = x.segmentsOut ↔ ¬ x.RepeatsFin seg)) := by
  have hrefilled : (Run.final use (new cfg random) us).Refilled :=
    Run.invariant_of_mem (new_refilled cfg random) fun _ u _ h => h.use u
  dsimp only
  generalize Run.final use (new cfg random) us = x at hactive hrefilled
  obtain ⟨hused, hout⟩ := x.used_rest seg
  simp only [segment_received_receiver hactive hrst]
  refine ⟨fun hlen ackno hackno => ?_, fun hlen hseqno hnew => ?_⟩
  · rw [segment_received_taking hactive hrst hlen, hused, hackno, ← hout]
    rw [← hused] at hackno
    exact ⟨reply_sends hackno, send_all_segs_queue _⟩
  · rw [segment_received_empty hactive hrst hlen hseqno, send_all_segs_out, hout,
      List.append_right_eq_self, List.map_eq_nil_iff]
    exact hrefilled.used_queue hnew

/-- A listening connection answers a SYN; a bare acknowledgment that comes after is not
answered. -/
theorem segment_answered_listening :
    let syn : TCPSegment := { header := { syn := true, seqno := ⟨5⟩ } }
    let ack : TCPSegment := { header := { ack := true, ackno := ⟨1⟩, seqno := ⟨6⟩, win := 10 } }
    let y := (new {} ⟨0⟩).segmentReceived syn
    (∃ new, new ≠ [] ∧ y.segmentsOut = new ∧
      ∀ g ∈ new, g.header.ack = true ∧ g.header.ackno = ⟨6⟩) ∧
    (y.segmentReceived ack).segmentsOut = y.segmentsOut := by
  refine ⟨?_, ?_⟩
  · exact ((segment_answered {} ⟨0⟩ [] { header := { syn := true, seqno := ⟨5⟩ } }
      (by decide +kernel) rfl).1 (by decide) ⟨6⟩ (by decide +kernel)).1
  · exact ((segment_answered {} ⟨0⟩ [.segmentReceived { header := { syn := true, seqno := ⟨5⟩ } }]
      { header := { ack := true, ackno := ⟨1⟩, seqno := ⟨6⟩, win := 10 } } (by decide +kernel)
      rfl).2 rfl (by decide +kernel) (by decide +kernel)).mpr (by decide +kernel)

/-- The FIN has been sent and is acknowledged, with a zero window: the acknowledgment is answered
by a second FIN. -/
theorem pure_ack_answered_by_fin :
    ¬ ∀ (cfg : TCPConfig) (random : WrappingInt32) (us : List ConnUse) (seg : TCPSegment),
      let x := Run.final use (new cfg random) us
      let y := x.segmentReceived seg
      x.active = true → seg.header.rst = false → seg.lengthInSequenceSpace = 0 →
        y.receiver.ackno.map (·.minus 1) ≠ some seg.header.seqno → x.NothingNew →
        y.segmentsOut = x.segmentsOut := by
  intro h
  have hsame := h {} ⟨0⟩
    [.connect, .segmentReceived { header := { syn := true, ack := true, ackno := ⟨1⟩, win := 10 } },
      .endInputStream]
    { header := { ack := true, seqno := ⟨1⟩, ackno := ⟨2⟩ } } (by decide +kernel) rfl rfl
    (by decide +kernel) (by decide +kernel)
  revert hsame
  decide +kernel

end TCPConnection

end Sponge
