import Sponge.Connection.Dead

namespace Sponge

/-- Neither data nor FIN. -/
def TCPSegment.Plain (g : TCPSegment) : Prop := g.payload = [] ∧ g.header.fin = false

instance (g : TCPSegment) : Decidable g.Plain := inferInstanceAs (Decidable (_ ∧ _))

namespace TCPSender

/-- The SYN has been sent and is not acknowledged; nothing else is on its way. -/
structure Opening (s : TCPSender) : Prop where
  next : s.nextSeqno = 1
  held : s.outstandingSegs.entries = [(0, { header := { syn := true, seqno := s.isn } })]
  slot : s.zeroWinSegSend = false
  queue : ∀ g ∈ s.segmentsOut, g.Plain

/-- The window has no room behind the SYN, or the stream has nothing to send in it. -/
def Waits (s : TCPSender) : Prop :=
  s.winSize.toNat ≤ 1 ∨ s.stream.bufferEmpty = true ∧ s.stream.inputEnded = false

variable {s : TCPSender}

theorem Opening.in_flight (h : s.Opening) : s.bytesInFlight = 1 := by
  rw [bytesInFlight, OrdMap.total, h.held]
  rfl

theorem Opening.fill_waits (h : s.Opening) (hw : s.Waits) : s.fillWindow = s := by
  have hnext := h.next
  have hflight := h.in_flight
  rw [fillWindow, if_neg (by omega)]
  cases hw with
  | inl hsmall =>
    rw [if_neg (fun hopen => by omega), if_neg (fun hzero => by omega)]
  | inr hnone =>
    have heof : s.stream.eof = false := by rw [ByteStream.eof, hnone.2, Bool.false_and]
    by_cases hopen : s.winSize.toNat > s.bytesInFlight ∧ s.zeroWinSegSend = false
    · rw [if_pos hopen]
      simp only [heof, Bool.false_eq_true, false_and, ↓reduceIte]
      exact fill_loop_idle hnone.1
    · rw [if_neg hopen, if_neg (fun hzero => by omega)]

theorem Opening.end_input (h : s.Opening) : { s with stream := s.stream.endInput }.Opening :=
  ⟨h.next, h.held, h.slot, h.queue⟩

/-- With room in the window and something in the stream the handshake is not waited
for. -/
theorem Opening.fill_leaks (h : s.Opening) (hw : ¬ s.Waits) :
    ∃ g ∈ s.fillWindow.segmentsOut, ¬ g.Plain := by
  have hnext := h.next
  have hflight := h.in_flight
  rw [Waits, not_or, not_and] at hw
  obtain ⟨hroom, hsome⟩ := hw
  have hopen : s.winSize.toNat > s.bytesInFlight := by omega
  rw [fillWindow, if_neg (by omega), if_pos ⟨hopen, h.slot⟩]
  cases hb : s.stream.bufferEmpty with
  | true =>
    -- the stream has ended, and the FIN goes out with no data before it
    have hended : s.stream.inputEnded = true := Bool.eq_true_of_not_eq_false (hsome hb)
    have heof : s.stream.eof = true := by rw [ByteStream.eof, hended, hb, Bool.true_and]
    rw [if_pos ⟨heof, by omega⟩]
    obtain ⟨log, hlog⟩ := fill_loop_queue s.sendFin
    refine ⟨{ header := { seqno := s.nextSeqnoRelative, fin := true } }, ?_, fun hp => ?_⟩
    · rw [hlog, sendFin, transmit_queue]
      simp
    · cases hp.2
  | false =>
    have heof : s.stream.eof = false := by rw [ByteStream.eof, hb, Bool.and_false]
    simp only [heof, Bool.false_eq_true, false_and, ↓reduceIte]
    rw [fillLoop, dif_pos ⟨hb, hopen⟩]
    obtain ⟨log, hlog⟩ := fill_loop_queue s.sendData
    refine ⟨s.dataSegment, ?_, fun hp => ?_⟩
    · rw [hlog, sendData, transmit_queue]
      simp
    · have hpayload := hp.1
      rw [data_segment_payload] at hpayload
      exact peek_ne_nil (transfer_size_pos hopen) hb hpayload

/-- Numbers are read next to the SYN. -/
theorem Opening.unwrap_wrap (h : s.Opening) {a : Nat} (ha : a < 2 ^ 32) :
    unwrap (wrap a s.isn) s.isn s.nextSeqno = a := by
  rw [h.next, Sponge.unwrap_wrap s.isn ha (by decide), if_pos (by omega)]

/-- An acknowledgment that is not one of the SYN is refused, unless it is the one of
nothing at all; that one sets the window. -/
theorem Opening.ack_received (h : s.Opening) {ackno : WrappingInt32} (win : UInt16)
    (hno : ¬ (1 ≤ unwrap ackno s.isn s.nextSeqno ∧ unwrap ackno s.isn s.nextSeqno ≤ s.nextSeqno)) :
    (s.ackReceived ackno win).Opening ∧ (s.ackReceived ackno win).stream = s.stream ∧
      (s.ackReceived ackno win).winSize = if ackno = s.isn then win else s.winSize := by
  obtain ⟨a, ha, rfl⟩ := exists_wrap ackno s.isn
  have hnext := h.next
  rw [h.unwrap_wrap ha] at hno
  by_cases h0 : a = 0
  · subst h0
    rw [wrap_zero]
    have hack : s.ackSeqno s.isn = some 0 := by
      have hzero := h.unwrap_wrap ha
      rw [wrap_zero] at hzero
      rw [ackSeqno, hzero]
      exact if_neg (by omega)
    have hunacked : unacked 0 s.outstandingSegs.entries = s.outstandingSegs.entries := by
      rw [h.held]
      rfl
    have hrec : s.ackReceived s.isn win =
        { (s.retire 0).settleTimer s.isn with winSize := win, ackno := s.isn } := by
      simp only [ackReceived, hack]
    rw [if_pos rfl, hrec]
    refine ⟨⟨h.next, ?_, ?_, h.queue⟩, rfl, rfl⟩
    · exact hunacked.trans h.held
    · simp [settleTimer, retire, h.slot]
  · have hack : s.ackSeqno (wrap a s.isn) = none := by
      rw [ackSeqno, h.unwrap_wrap ha]
      exact (if_pos (by omega)).trans (if_pos ha)
    have hne : wrap a s.isn ≠ s.isn := by
      intro heq
      have hzero := h.unwrap_wrap (by decide : 0 < 2 ^ 32)
      rw [wrap_zero] at hzero
      exact h0 ((h.unwrap_wrap ha).symm.trans (heq.symm ▸ hzero))
    have hrec : s.ackReceived (wrap a s.isn) win = s := by simp only [ackReceived, hack]
    rw [if_neg hne, hrec]
    exact ⟨h, rfl, rfl⟩

theorem Opening.tick (h : s.Opening) (ms : Nat) : (s.tick ms).Opening := by
  refine tick_preserves h (fun s _ _ _ _ h => ⟨h.next, h.held, h.slot, h.queue⟩) ?_ ?_ ms
  · intro s h hz
    rw [h.slot] at hz
    cases hz
  · intro s seqno seg rest h he
    refine ⟨h.next, h.held, h.slot, fun g hg => ?_⟩
    cases List.mem_append.mp hg with
    | inl hg => exact h.queue g hg
    | inr hlast =>
      rw [h.held] at he
      cases he
      rw [List.mem_singleton.mp hlast]
      exact ⟨rfl, rfl⟩

end TCPSender

namespace TCPConnection

section Queue

variable {x : TCPConnection} {g : TCPSegment}

/-- What has been put out, and what will be when the queue is sent. -/
def pending (x : TCPConnection) : List TCPSegment :=
  x.segmentsOut ++ x.sender.segmentsOut.map (stamp x.receiver)

theorem send_common_pending (x : TCPConnection) : x.sendCommonSeg.pending = x.pending := by
  unfold sendCommonSeg
  split
  · rfl
  · rename_i seg rest he
    simp [pending, he]

theorem mem_ensure_segment (h : g ∈ x.pending) : g ∈ x.ensureSegment.pending := by
  unfold ensureSegment
  split
  · rename_i he
    rw [pending, he, List.map_nil, List.append_nil] at h
    exact List.mem_append_left _ h
  · exact h

theorem mem_reply (h : g ∈ x.pending) : g ∈ x.reply.pending := by
  rw [reply, send_common_pending]
  apply mem_ensure_segment
  split
  · rename_i h0
    have hzero : x.sender.nextSeqno = 0 := h0
    rw [TCPSender.fillWindow, if_pos hzero, TCPSender.sendSyn, pending, TCPSender.transmit_queue,
      List.map_append, ← List.append_assoc]
    exact List.mem_append_left _ h
  · exact h

/-- What is queued when the segment has been used goes out before the call returns. -/
theorem mem_segment_received {seg : TCPSegment} {y : TCPConnection} (hactive : x.active = true)
    (hrst : seg.header.rst = false)
    (hy : (if seg.header.ack then
        ({ x with receiver := x.receiver.segmentReceived seg } : TCPConnection).takeAck seg
      else { x with receiver := x.receiver.segmentReceived seg }) = y)
    (h : g ∈ y.pending) : g ∈ (x.segmentReceived seg).segmentsOut := by
  rw [TCPConnection.segmentReceived, if_neg (by simp [hactive]), if_neg (by simp [hrst])]
  simp only [hy]
  have h₃ : g ∈ y.noteEnds.pending := h
  have hsent : g ∈ (if seg.lengthInSequenceSpace ≠ 0 ∧ y.noteEnds.receiver.ackno.isSome then
      y.noteEnds.reply else y.noteEnds).sendAllSegs.segmentsOut := by
    rw [send_all_segs_out]
    split
    · exact mem_reply h₃
    · exact h₃
  generalize (if seg.lengthInSequenceSpace ≠ 0 ∧ y.noteEnds.receiver.ackno.isSome then
    y.noteEnds.reply else y.noteEnds).sendAllSegs = x₅ at hsent
  split
  · unfold sendCommonSeg
    split
    · exact hsent
    · exact List.mem_append_left _ hsent
  · exact hsent

theorem mem_use (u : ConnUse) (h : g ∈ x.segmentsOut) : g ∈ (x.use u).segmentsOut := by
  have hk : Kept (fun x => g ∈ x.segmentsOut) :=
    ⟨fun _ h => h, fun _ _ h => h, fun _ h => h, fun _ h => h, fun _ _ _ h => h,
      fun _ _ _ _ h _ _ _ => List.mem_append_left _ h⟩
  exact hk.use_aside h (fun _ _ h => h) (fun _ _ h => h) u

end Queue

/-- A segment that acknowledges the SYN, whatever becomes of it. -/
def Acknowledges (x : TCPConnection) : ConnUse → Prop
  | .segmentReceived seg => seg.header.ack = true ∧
      1 ≤ unwrap seg.header.ackno x.sender.isn x.sender.nextSeqnoAbsolute ∧
      unwrap seg.header.ackno x.sender.isn x.sender.nextSeqnoAbsolute ≤ x.sender.nextSeqnoAbsolute
  | _ => False

instance (x : TCPConnection) : (u : ConnUse) → Decidable (x.Acknowledges u)
  | .segmentReceived _ => inferInstanceAs (Decidable (_ ∧ _ ∧ _))
  | .connect | .write _ | .endInputStream | .tick _ | .read _ => .isFalse id

/-- What keeps the data back until the SYN is acknowledged. The calls that fill the window
do not look whether it is; so when they are made, the window, which an acknowledgment of
nothing can have opened, has no room behind the SYN, or there are no data and no end. -/
def Cautious (x : TCPConnection) : ConnUse → Prop
  | .endInputStream => x.sender.winSize.toNat ≤ 1
  | .segmentReceived seg =>
    x.active = true → seg.header.rst = false → seg.header.ack = true →
      (if seg.header.ackno = x.sender.isn then seg.header.win else x.sender.winSize).toNat ≤ 1 ∨
        x.sender.stream.bufferEmpty = true ∧ x.sender.stream.inputEnded = false
  | _ => True

instance (x : TCPConnection) : (u : ConnUse) → Decidable (x.Cautious u)
  | .endInputStream => inferInstanceAs (Decidable (_ ≤ _))
  | .segmentReceived _ => inferInstanceAs (Decidable (_ → _ → _ → _ ∨ _ ∧ _))
  | .connect | .write _ | .tick _ | .read _ => .isTrue trivial

/-- The connection has sent its SYN, and nothing but segments without data and FIN. -/
structure Opening (x : TCPConnection) : Prop where
  sender : x.sender.Opening
  out : ∀ g ∈ x.segmentsOut, g.Plain

section Opening

variable {x : TCPConnection} {u : ConnUse}

theorem new_opening (cfg : TCPConfig) (random : WrappingInt32) :
    ((new cfg random).use .connect).Opening := by
  refine ⟨⟨rfl, rfl, rfl, ?_⟩, ?_⟩
  · simp [use, connect, new, TCPSender.new, TCPSender.fillWindow, TCPSender.sendSyn,
      TCPSender.transmit, TCPSender.startTimer]
  · simp [use, connect, new, TCPSender.new, TCPSender.fillWindow, TCPSender.sendSyn,
      TCPSender.transmit, TCPSender.startTimer, TCPSegment.Plain]

theorem Carbon.plain {r : TCPReceiver} {seg copy : TCPSegment} (hc : Carbon r seg copy) :
    copy.Plain ↔ seg.Plain := by
  rw [TCPSegment.Plain, hc.payload, hc.fin, TCPSegment.Plain]

theorem opening_relayed : Relayed Opening where
  empty := fun x h => by
    refine ⟨⟨h.sender.next, h.sender.held, h.sender.slot, fun g hg => ?_⟩, h.out⟩
    cases List.mem_append.mp hg with
    | inl hg => exact h.sender.queue g hg
    | inr hg =>
      rw [List.mem_singleton.mp hg]
      exact ⟨rfl, rfl⟩
  errors := fun x h => ⟨⟨h.sender.next, h.sender.held, h.sender.slot, h.sender.queue⟩, h.out⟩
  flags := fun x _ _ h => ⟨h.sender, h.out⟩
  forward := fun x seg copy queue h hseg hq hc => by
    refine ⟨⟨h.sender.next, h.sender.held, h.sender.slot, fun g hg =>
      h.sender.queue g (hq g hg)⟩, fun g hg => ?_⟩
    cases List.mem_append.mp hg with
    | inl hg => exact h.out g hg
    | inr hg =>
      rw [List.mem_singleton.mp hg]
      exact hc.plain.mpr (h.sender.queue seg hseg)

/-- The sender after a segment that does not acknowledge the SYN waits just when the
segment was taken with caution. -/
theorem Opening.acked (h : x.Opening) {seg : TCPSegment} (hack : seg.header.ack = true)
    (hno : ¬ x.Acknowledges (.segmentReceived seg)) :
    (x.sender.ackReceived seg.header.ackno seg.header.win).Opening ∧
    ((x.sender.ackReceived seg.header.ackno seg.header.win).Waits ↔
      (if seg.header.ackno = x.sender.isn then seg.header.win else x.sender.winSize).toNat ≤ 1 ∨
        x.sender.stream.bufferEmpty = true ∧ x.sender.stream.inputEnded = false) := by
  obtain ⟨hopen, hstream, hwin⟩ := h.sender.ack_received seg.header.win
    (fun hin => hno ⟨hack, hin⟩)
  refine ⟨hopen, ?_⟩
  rw [TCPSender.Waits, hstream, hwin]

theorem take_ack_fills (y : TCPConnection) {seg : TCPSegment}
    (hopen : (y.sender.ackReceived seg.header.ackno seg.header.win).Opening) :
    y.takeAck seg = { y with
      sender := (y.sender.ackReceived seg.header.ackno seg.header.win).fillWindow } := by
  have hnext := hopen.next
  rw [takeAck, TCPSender.nextSeqnoAbsolute, if_pos (by omega)]

theorem Opening.use_keeps (h : x.Opening) (hu : u ≠ .connect) (hno : ¬ x.Acknowledges u)
    (hc : x.Cautious u) : (x.use u).Opening := by
  cases u with
  | connect => exact absurd rfl hu
  | write data =>
    -- the connection is not established while the SYN is in flight
    have hest : ({ x with sender := { x.sender with stream := x.sender.stream.write data } } :
        TCPConnection).connectionEstablish = false := by
      have hflight := h.sender.in_flight
      have hnext := h.sender.next
      rw [connectionEstablish, Bool.and_eq_false_imp]
      intro _
      exact decide_eq_false (Nat.not_lt.mpr (hnext.trans hflight.symm).le)
    rw [use, write, if_neg (by simp [hest])]
    exact ⟨⟨h.sender.next, h.sender.held, h.sender.slot, h.sender.queue⟩, h.out⟩
  | endInputStream =>
    have hend := h.sender.end_input
    rw [use, endInputStream, hend.fill_waits (.inl hc)]
    exact opening_relayed.send_all_segs ⟨hend, h.out⟩
  | tick ms => exact opening_relayed.time_passes h ⟨h.sender.tick ms, h.out⟩
  | read len => exact ⟨h.sender, h.out⟩
  | segmentReceived seg =>
    refine opening_relayed.segment_received h (fun hactive hrst => ?_) (fun y hy h0 => ?_)
    · split
      · rename_i hack
        obtain ⟨hopen, hwaits⟩ := h.acked hack hno
        rw [take_ack_fills { x with receiver := x.receiver.segmentReceived seg } hopen]
        have hfill := hopen.fill_waits (hwaits.mpr (hc hactive hrst hack))
        exact ⟨hfill.symm ▸ hopen, h.out⟩
      · exact ⟨h.sender, h.out⟩
    · have hnext := hy.sender.next
      rw [TCPSender.nextSeqnoAbsolute, hnext] at h0
      cases h0

theorem Opening.use_leaks (h : x.Opening) (hno : ¬ x.Acknowledges u) (hc : ¬ x.Cautious u) :
    ∃ g ∈ (x.use u).segmentsOut, ¬ g.Plain := by
  cases u with
  | connect => exact absurd trivial hc
  | write data => exact absurd trivial hc
  | tick ms => exact absurd trivial hc
  | read len => exact absurd trivial hc
  | endInputStream =>
    have hend := h.sender.end_input
    obtain ⟨g, hg, hplain⟩ := hend.fill_leaks (fun hw => hw.elim hc (fun hw => by cases hw.2))
    refine ⟨stamp x.receiver g, ?_, fun hp => hplain ((stamp_carbon x.receiver g).plain.mp hp)⟩
    rw [use, endInputStream, send_all_segs_out]
    exact List.mem_append_right _ (List.mem_map_of_mem hg)
  | segmentReceived seg =>
    simp only [Cautious, not_forall] at hc
    obtain ⟨hactive, hrst, hack, hc⟩ := hc
    obtain ⟨hopen, hwaits⟩ := h.acked hack hno
    obtain ⟨g, hg, hplain⟩ := hopen.fill_leaks (fun hw => hc (hwaits.mp hw))
    let r := x.receiver.segmentReceived seg
    refine ⟨stamp r g, ?_, fun hp => hplain ((stamp_carbon r g).plain.mp hp)⟩
    apply mem_segment_received hactive hrst (if_pos hack)
    rw [take_ack_fills { x with receiver := r } hopen]
    exact List.mem_append_right _ (List.mem_map_of_mem hg)

end Opening

/-- An active opener sends neither data nor FIN before its SYN is acknowledged just when
each call that fills the window is made with caution. -/
theorem opener_waits_iff (cfg : TCPConfig) (random : WrappingInt32) {us : List ConnUse}
    (hus : .connect ∉ us)
    (hno : Run.Along use (fun x u => ¬ x.Acknowledges u) ((new cfg random).use .connect) us) :
    (∀ g ∈ (Run.final use ((new cfg random).use .connect) us).segmentsOut, g.Plain) ↔
      Run.Along use Cautious ((new cfg random).use .connect) us := by
  have hcond := hno.and_mem (R := (· ≠ .connect)) (fun u hu heq => hus (heq ▸ hu))
  apply Run.final_iff_along (I := Opening) (Q := fun x => ∀ g ∈ x.segmentsOut, g.Plain)
    (new_opening cfg random) hcond
  · exact fun x h => h.out
  · exact fun x u h hu hc => h.use_keeps hu.2 hu.1 hc
  · intro x u h hu hc hplain
    obtain ⟨g, hg, hnot⟩ := h.use_leaks hu.1 hc
    exact hnot (hplain g hg)
  · exact fun x u hnot hplain => hnot (fun g hg => hplain g (mem_use u hg))

/-- An acknowledgment of nothing, with a window of one, does not open the window; the peer
opens at the same time. -/
theorem opener_waits_iff_simultaneous :
    let last := Run.final use ((new {} ⟨0⟩).use .connect) [.write [1, 2],
      .segmentReceived { header := { ack := true, ackno := ⟨0⟩, win := 1 } }, .tick 1000,
      .segmentReceived { header := { syn := true, seqno := ⟨77⟩ } }, .endInputStream]
    last.segmentsOut.length = 3 ∧ ∀ g ∈ last.segmentsOut, g.Plain :=
  ⟨by decide +kernel,
    (opener_waits_iff {} ⟨0⟩ (by decide +kernel) (by decide +kernel)).mpr (by decide +kernel)⟩

/-- The peer acknowledges nothing but opens its window: the byte goes out with the SYN
still unacknowledged. -/
theorem early_ack_lets_data_out :
    ¬ ∀ (cfg : TCPConfig) (random : WrappingInt32) (us : List ConnUse), .connect ∉ us →
      Run.Along use (fun x u => ¬ x.Acknowledges u) ((new cfg random).use .connect) us →
      ∀ g ∈ (Run.final use ((new cfg random).use .connect) us).segmentsOut, g.Plain := by
  intro h
  have hlast := h {} ⟨0⟩
    [.write [1], .segmentReceived { header := { ack := true, ackno := ⟨0⟩, win := 2 } }]
    (by decide +kernel) (by decide +kernel)
  revert hlast
  decide +kernel

/-- A connection that nobody has asked for anything. -/
structure Listening (x : TCPConnection) : Prop where
  next : x.sender.nextSeqno = 0
  held : x.sender.outstandingSegs.entries = []
  slot : x.sender.zeroWinSegSend = false
  queue : x.sender.segmentsOut = []
  times : x.sender.rxTimes = 0
  quiet : x.receiver.isnSet = false
  out : x.segmentsOut = []

section Listening

variable {x : TCPConnection} {u : ConnUse}

theorem Listening.no_ackno (h : x.Listening) : x.receiver.ackno = none := by
  rw [TCPReceiver.ackno, h.quiet]
  rfl

theorem Listening.tick (h : x.Listening) (ms : Nat) : (x.tick ms).Listening := by
  have hsender : x.sender.tick ms = { x.sender with timerRunning := false } := by
    rw [TCPSender.tick, if_neg (by simp [h.slot])]
    simp only [h.held]
  rw [TCPConnection.tick]
  split
  · exact h
  rw [hsender]
  have hgive : ({ x with sender := { x.sender with timerRunning := false } }.noteTime ms).giveUp =
      { x with sender := { x.sender with timerRunning := false } }.noteTime ms := by
    rw [giveUp, noteTime, TCPSender.consecutiveRetransmissions, if_neg]
    simp [h.times]
  have h' : ({ x with sender := { x.sender with timerRunning := false } }.noteTime ms).Listening :=
    ⟨h.next, h.held, h.slot, h.queue, h.times, h.quiet, h.out⟩
  rw [hgive]
  simp only
  split
  · rwa [send_all_segs_nil h'.queue]
  · exact h'

/-- Only the window is taken from an acknowledgment. -/
theorem Listening.take_ack (h : x.Listening) (seg : TCPSegment) : (x.takeAck seg).Listening := by
  have hkeep : ({ x with
      sender := x.sender.ackReceived seg.header.ackno seg.header.win } : TCPConnection).Listening := by
    unfold TCPSender.ackReceived
    split
    · exact h
    · refine ⟨h.next, ?_, ?_, h.queue, ?_, h.quiet, h.out⟩
      · exact List.sublist_nil.mp (h.held ▸ TCPSender.unacked_sublist _ _)
      · simp [TCPSender.settleTimer, TCPSender.retire, h.slot]
      · simp [TCPSender.settleTimer, TCPSender.retire, h.times]
  have hnext : ¬ (x.sender.ackReceived seg.header.ackno seg.header.win).nextSeqnoAbsolute ≠ 0 :=
    not_not_intro hkeep.next
  rw [takeAck]
  simp only [if_neg hnext]
  exact hkeep

theorem Listening.segment_received (h : x.Listening) {seg : TCPSegment}
    (hsyn : seg.header.syn = false) : (x.segmentReceived seg).Listening := by
  have hrecv : x.receiver.segmentReceived seg = x.receiver := by
    simp [TCPReceiver.segmentReceived, TCPReceiver.noteSyn, hsyn, h.quiet]
  rw [TCPConnection.segmentReceived]
  split
  · exact h
  split
  · exact ⟨h.next, h.held, h.slot, h.queue, h.times, h.quiet, h.out⟩
  have h₂ : (if seg.header.ack then x.takeAck seg else x).Listening := by
    split
    · exact h.take_ack seg
    · exact h
  rw [hrecv]
  simp only
  generalize (if seg.header.ack then x.takeAck seg else x) = x₂ at h₂
  have h₃ : x₂.noteEnds.Listening := ⟨h₂.next, h₂.held, h₂.slot, h₂.queue, h₂.times, h₂.quiet, h₂.out⟩
  generalize x₂.noteEnds = x₃ at h₃
  simp only [h₃.no_ackno, Option.isSome_none, Bool.false_eq_true, and_false, ↓reduceIte,
    send_all_segs_nil h₃.queue, Option.map_none, reduceCtorEq]
  exact h₃

theorem Listening.use_keeps (h : x.Listening) (hu : u ≠ .connect)
    (hsyn : ∀ seg, u = .segmentReceived seg → seg.header.syn = false) (hend : u ≠ .endInputStream) :
    (x.use u).Listening := by
  cases u with
  | connect => exact absurd rfl hu
  | write data =>
    have hest : ({ x with sender := { x.sender with stream := x.sender.stream.write data } } :
        TCPConnection).connectionEstablish = false := by
      rw [connectionEstablish, h.no_ackno]
      rfl
    rw [use, write, if_neg (by simp [hest])]
    exact ⟨h.next, h.held, h.slot, h.queue, h.times, h.quiet, h.out⟩
  | endInputStream => exact absurd rfl hend
  | tick ms => exact h.tick ms
  | read len => exact ⟨h.next, h.held, h.slot, h.queue, h.times, h.quiet, h.out⟩
  | segmentReceived seg => exact h.segment_received (hsyn seg rfl)

theorem Listening.end_sends (h : x.Listening) : (x.use .endInputStream).segmentsOut ≠ [] := by
  have hfill : { x.sender with stream := x.sender.stream.endInput }.fillWindow =
      { x.sender with stream := x.sender.stream.endInput }.sendSyn :=
    if_pos h.next
  rw [use, endInputStream, send_all_segs_out, hfill, TCPSender.sendSyn, TCPSender.transmit_queue]
  simp

end Listening

/-- A connection on which `connect` is not called says nothing before a SYN comes in just
when its owner does not end the outbound stream: that sends a SYN. -/
theorem listener_silent_iff (cfg : TCPConfig) (random : WrappingInt32) {us : List ConnUse}
    (hus : .connect ∉ us) (hsyn : ∀ seg, .segmentReceived seg ∈ us → seg.header.syn = false) :
    (Run.final use (new cfg random) us).segmentsOut = [] ↔ .endInputStream ∉ us := by
  have hcond : Run.Along use (fun _ u => u ≠ .connect ∧
      ∀ seg, u = .segmentReceived seg → seg.header.syn = false) (new cfg random) us :=
    Run.along_of_mem (fun u hu =>
      ⟨fun heq => hus (heq ▸ hu), fun seg heq => hsyn seg (heq ▸ hu)⟩)
  have hnot : .endInputStream ∉ us ↔ ∀ u ∈ us, u ≠ ConnUse.endInputStream :=
    ⟨fun h u hu heq => h (heq ▸ hu), fun h hu => h _ hu rfl⟩
  rw [hnot, ← Run.along_iff_forall_mem use (new cfg random)]
  apply Run.final_iff_along (I := Listening) (Q := fun x => x.segmentsOut = [])
    ⟨rfl, rfl, rfl, rfl, rfl, rfl, rfl⟩ hcond
  · exact fun x h => h.out
  · exact fun x u h hu hend => h.use_keeps hu.1 hu.2 hend
  · intro x u h _ hend
    rw [not_not] at hend
    subst hend
    exact h.end_sends
  · intro x u hne
    obtain ⟨g, hg⟩ := List.exists_mem_of_ne_nil _ hne
    exact List.ne_nil_of_mem (mem_use u hg)

/-- Data are written, time passes and stray segments come in. -/
theorem listener_silent_iff_stray :
    (Run.final use (new {} ⟨0⟩) [.write [1], .tick 5000,
      .segmentReceived { header := { ack := true, ackno := ⟨0⟩, win := 9 }, payload := [3] },
      .segmentReceived { header := { fin := true } }]).segmentsOut = [] :=
  (listener_silent_iff {} ⟨0⟩ (by decide) (by simp)).mpr (by decide)

/-- A listener that ends its stream sends a SYN to nobody. -/
theorem listener_end_sends :
    ¬ ∀ (cfg : TCPConfig) (random : WrappingInt32) (us : List ConnUse), .connect ∉ us →
      (∀ seg, .segmentReceived seg ∈ us → seg.header.syn = false ∧ seg.header.rst = false) →
      (Run.final use (new cfg random) us).segmentsOut = [] := by
  intro h
  have hlast := h {} ⟨0⟩ [.endInputStream] (by decide) (by simp)
  revert hlast
  decide +kernel

end TCPConnection

end Sponge
