import Sponge.Connection.Session

namespace Sponge

namespace TCPSender

/-- Nothing is queued and `fill_window` has nothing to send: the SYN is sent, and in an
open window there is no data and no FIN that is due, in a zero window with a free
slot no data and no end of the stream. -/
def Idle (s : TCPSender) : Prop :=
  s.segmentsOut = [] ∧ s.nextSeqno ≠ 0 ∧
    (s.zeroWinSegSend = false →
      (s.winSize.toNat > s.bytesInFlight → s.stream.bufferEmpty = true ∧
        (s.stream.eof = true → s.stream.bytesWritten + 2 ≤ s.nextSeqno)) ∧
      (s.winSize = 0 → s.nextSeqno > s.bytesInFlight → s.stream.bufferEmpty = true ∧
        s.stream.eof = false))

instance (s : TCPSender) : Decidable s.Idle :=
  inferInstanceAs (Decidable (_ ∧ _ ∧ (_ → (_ → _ ∧ (_ → _)) ∧ (_ → _ → _ ∧ _))))

variable {s : TCPSender}

theorem transmit_queue (s : TCPSender) (seg : TCPSegment) :
    (s.transmit seg).segmentsOut = s.segmentsOut ++ [seg] := rfl

theorem probe_queue (s : TCPSender) (seg : TCPSegment) :
    (s.probe seg).segmentsOut = s.segmentsOut ++ [seg] := rfl

theorem fill_loop_idle (h : s.stream.bufferEmpty = true) : s.fillLoop = s := by
  rw [fillLoop, dif_neg (by simp [h])]

theorem Idle.fill_window (h : s.Idle) : s.fillWindow = s := by
  obtain ⟨-, h0, hidle⟩ := h
  unfold fillWindow
  rw [if_neg h0]
  split
  · rename_i hopen
    obtain ⟨hbuf, hfin⟩ := (hidle hopen.2).1 hopen.1
    have hdue : ¬ (s.stream.eof = true ∧ s.nextSeqno < s.stream.bytesWritten + 2) := by
      rintro ⟨heof, hlt⟩
      have := hfin heof
      omega
    simp only [if_neg hdue, fill_loop_idle hbuf]
  split
  · rename_i hzero
    by_cases hslot : s.zeroWinSegSend = false
    · obtain ⟨hbuf, heof⟩ := (hidle hslot).2 hzero.1 hzero.2
      simp [hbuf, heof]
    · simp [hslot]
  · rfl

theorem fill_loop_queue (s : TCPSender) : ∃ log, s.fillLoop.segmentsOut = s.segmentsOut ++ log := by
  fun_induction fillLoop s with
  | case1 s h ih =>
    obtain ⟨log, hlog⟩ := ih
    rw [sendData, transmit_queue] at hlog
    exact ⟨s.dataSegment :: log, by rw [sendData, hlog, List.append_assoc]; rfl⟩
  | case2 s h => exact ⟨[], by simp⟩

theorem fill_loop_sends (hb : s.stream.bufferEmpty = false)
    (hw : s.winSize.toNat > s.bytesInFlight) : s.fillLoop.segmentsOut ≠ [] := by
  rw [fillLoop, dif_pos ⟨hb, hw⟩]
  obtain ⟨log, hlog⟩ := fill_loop_queue s.sendData
  rw [hlog, sendData, transmit_queue]
  simp

/-- A sender whose queue is empty after `fill_window` was idle before. -/
theorem idle_of_fill_window (h : s.fillWindow.segmentsOut = []) : s.Idle := by
  unfold fillWindow at h
  split at h
  · simp [sendSyn, transmit_queue] at h
  rename_i h0
  split at h
  · rename_i hopen
    split at h
    · obtain ⟨log, hlog⟩ := fill_loop_queue s.sendFin
      rw [hlog, sendFin, transmit_queue] at h
      simp at h
    · rename_i hdue
      have hbuf : s.stream.bufferEmpty = true := by
        by_contra hb
        exact fill_loop_sends (by simpa using hb) hopen.1 h
      rw [fill_loop_idle hbuf] at h
      refine ⟨h, h0, fun _ => ⟨fun _ => ⟨hbuf, fun heof => ?_⟩, fun hw => ?_⟩⟩
      · exact Nat.le_of_not_lt fun hlt => hdue ⟨heof, hlt⟩
      · have := hopen.1
        simp [hw] at this
  rename_i hclosed
  split at h
  · rename_i hzero
    by_cases hslot : s.zeroWinSegSend = false
    · by_cases hb : s.stream.bufferEmpty = false
      · have hsend : s.probeByte.zeroWinSegSend = true := rfl
        simp only [hb, hslot, and_self, ↓reduceIte, hsend, Bool.true_eq_false, and_false] at h
        rw [probeByte, probe_queue] at h
        simp at h
      · simp only [hb, Bool.true_eq_false, false_and, ↓reduceIte] at h
        by_cases heof : s.stream.eof = true
        · simp only [heof, hslot, and_self, ↓reduceIte] at h
          rw [probeFin, probe_queue] at h
          simp at h
        · simp only [heof, Bool.false_eq_true, false_and, ↓reduceIte] at h
          refine ⟨h, h0, fun _ => ⟨fun hw => absurd ⟨hw, hslot⟩ hclosed, fun _ _ => ⟨?_, ?_⟩⟩⟩
          · simpa using hb
          · simpa using heof
    · simp only [hslot, Bool.true_eq_false, and_false, ↓reduceIte] at h
      exact ⟨h, h0, fun hf => absurd hf hslot⟩
  · rename_i hzero
    exact ⟨h, h0, fun hf => ⟨fun hw => absurd ⟨hw, hf⟩ hclosed,
      fun hw hfl => absurd ⟨hw, hfl⟩ hzero⟩⟩

/-- Nothing is queued and `fill_window` would have nothing to send with `accepted` more bytes
in the stream and its input `ended` or not: the SYN is sent, and while the slot for a zero
window is free, in an open window the buffer is empty, nothing is accepted, and the FIN is
sent if the input has ended; in a zero window the buffer is empty, nothing is accepted, and
the input has not ended. -/
def IdleAfter (s : TCPSender) (accepted : Nat) (ended : Bool) : Prop :=
  s.segmentsOut = [] ∧ s.nextSeqno ≠ 0 ∧
    (s.zeroWinSegSend = false →
      (s.winSize.toNat > s.bytesInFlight → s.stream.bufferEmpty = true ∧ accepted = 0 ∧
        (ended = true → s.stream.bytesWritten + 2 ≤ s.nextSeqno)) ∧
      (s.winSize = 0 → s.nextSeqno > s.bytesInFlight → s.stream.bufferEmpty = true ∧
        accepted = 0 ∧ ended = false))

instance (s : TCPSender) (accepted : Nat) (ended : Bool) : Decidable (s.IdleAfter accepted ended) :=
  inferInstanceAs (Decidable (_ ∧ _ ∧ (_ → (_ → _ ∧ _ ∧ (_ → _)) ∧ (_ → _ → _ ∧ _ ∧ _))))

theorem idle_with_stream_iff {b : ByteStream} {accepted : Nat} {ended : Bool}
    (hempty : b.bufferEmpty = true ↔ s.stream.bufferEmpty = true ∧ accepted = 0)
    (hsame : b.bufferEmpty = true →
      b.bytesWritten = s.stream.bytesWritten ∧ b.inputEnded = ended) :
    { s with stream := b }.Idle ↔ s.IdleAfter accepted ended := by
  refine and_congr_right fun _ => and_congr_right fun _ => imp_congr_right fun _ => ?_
  have hrest : ∀ {P Q : Prop}, (b.bufferEmpty = true → (P ↔ Q)) →
      (b.bufferEmpty = true ∧ P ↔ s.stream.bufferEmpty = true ∧ accepted = 0 ∧ Q) := by
    intro P Q hPQ
    rw [and_congr_right hPQ, hempty, and_assoc]
  refine and_congr (imp_congr_right fun _ => hrest fun hbuf => ?_)
    (imp_congr_right fun _ => imp_congr_right fun _ => hrest fun hbuf => ?_)
  · rw [ByteStream.eof_of_buffer_empty hbuf, (hsame hbuf).1, (hsame hbuf).2]
  · rw [ByteStream.eof_of_buffer_empty hbuf, (hsame hbuf).2]

/-- A stream that is empty after a write is the stream before it. -/
theorem idle_write_iff (data : Bytes) :
    { s with stream := s.stream.write data }.Idle ↔
      s.IdleAfter (s.stream.accepts data) s.stream.inputEnded := by
  refine idle_with_stream_iff ByteStream.write_buffer_empty_iff fun hbuf => ?_
  rw [ByteStream.write_of_accepts_none (ByteStream.write_buffer_empty_iff.mp hbuf).2]
  exact ⟨rfl, rfl⟩

theorem idle_end_input_iff :
    { s with stream := s.stream.endInput }.Idle ↔ s.IdleAfter 0 true :=
  idle_with_stream_iff (and_iff_left rfl).symm fun _ => ⟨rfl, rfl⟩

theorem fill_window_queue_iff : s.fillWindow.segmentsOut = [] ↔ s.Idle :=
  ⟨idle_of_fill_window, fun h => by rw [h.fill_window]; exact h.1⟩

end TCPSender

/-- The calls that may come after the death of a connection. -/
def ConnUse.Late : ConnUse → Prop
  | .write _ | .endInputStream | .tick _ | .segmentReceived _ => True
  | .connect | .read _ => False

instance : (u : ConnUse) → Decidable u.Late
  | .write _ | .endInputStream | .tick _ | .segmentReceived _ => .isTrue trivial
  | .connect | .read _ => .isFalse id

namespace TCPConnection

theorem send_all_segs_out (x : TCPConnection) :
    x.sendAllSegs.segmentsOut =
      x.segmentsOut ++ x.sender.segmentsOut.map (stamp x.receiver) := by
  fun_induction sendAllSegs x with
  | case1 x h => simp [h]
  | case2 x h ih =>
    cases hq : x.sender.segmentsOut with
    | nil => exact absurd hq h
    | cons seg rest =>
      rw [ih]
      simp [sendCommonSeg, hq]

theorem send_all_segs_nil {x : TCPConnection} (h : x.sender.segmentsOut = []) :
    x.sendAllSegs = x := by
  rw [sendAllSegs, dif_pos h]

/-- The call leaves the connection dead and puts nothing out. -/
def Silent (x : TCPConnection) (u : ConnUse) : Prop :=
  (x.use u).active = false ∧ (x.use u).segmentsOut = x.segmentsOut

instance (x : TCPConnection) (u : ConnUse) : Decidable (x.Silent u) :=
  inferInstanceAs (Decidable (_ ∧ _))

/-- What keeps a dead connection dead and silent. `segment_received` and `tick` see that
it is dead, but `write` and `end_input_stream` do not look: with them the sender
has to be idle, and what is written has to be refused if no error marks the
connection. -/
def StaysDead (x : TCPConnection) : ConnUse → Prop
  | .write data =>
    ((x.sender.stream.error && x.receiver.streamOut.error) = true ∨
        x.sender.stream.accepts data = 0) ∧
      (x.connectionEstablish = true →
        x.sender.IdleAfter (x.sender.stream.accepts data) x.sender.stream.inputEnded)
  | .endInputStream => x.sender.IdleAfter 0 true
  | _ => True

instance (x : TCPConnection) : (u : ConnUse) → Decidable (x.StaysDead u)
  | .write _ => inferInstanceAs (Decidable ((_ ∨ _) ∧ (_ → _)))
  | .endInputStream => inferInstanceAs (Decidable (TCPSender.IdleAfter _ _ _))
  | .connect | .tick _ | .read _ | .segmentReceived _ => .isTrue trivial

section Steps

variable {x : TCPConnection}

theorem active_of_errors
    (h : (x.sender.stream.error && x.receiver.streamOut.error) = true) : x.active = false := by
  rw [active, if_pos h]

/-- Writing brings a connection that was closed cleanly back to life, unless nothing is
accepted. -/
theorem write_stream_dead_iff (h : x.active = false) (data : Bytes) :
    ({ x with sender := { x.sender with stream := x.sender.stream.write data } } :
        TCPConnection).active = false ↔
      (x.sender.stream.error && x.receiver.streamOut.error) = true ∨
        x.sender.stream.accepts data = 0 := by
  constructor
  · intro hdead
    rcases inactive_cases hdead with herr | hwait
    · exact .inl herr
    · have hbuf := (ByteStream.eof_iff.mp (time_wait_state_iff.mp hwait).2.eof).2
      exact .inr (ByteStream.write_buffer_empty_iff.mp hbuf).2
  · rintro (herr | hnone)
    · exact active_of_errors herr
    · rw [ByteStream.write_of_accepts_none hnone]
      exact h

theorem end_input_dead (h : x.active = false) :
    ({ x with sender := { x.sender with stream := x.sender.stream.endInput } } :
      TCPConnection).active = false := by
  rcases inactive_cases h with herr | hwait
  · exact active_of_errors herr
  · have hended := (ByteStream.eof_iff.mp (time_wait_state_iff.mp hwait).2.eof).1
    rw [ByteStream.end_input_of_ended hended]
    exact h

/-- A call that comes down to filling the window and sending the queue. It is silent
when the sender is idle, and then changes nothing more. -/
theorem silent_iff_idle (y : TCPConnection) (u : ConnUse)
    (huse : x.use u = { y with sender := y.sender.fillWindow }.sendAllSegs)
    (hout : y.segmentsOut = x.segmentsOut) : x.Silent u ↔ y.active = false ∧ y.sender.Idle := by
  have hidle : (x.use u).segmentsOut = x.segmentsOut ↔ y.sender.Idle := by
    rw [huse, send_all_segs_out, ← TCPSender.fill_window_queue_iff, hout]
    simp
  have hsame : y.sender.Idle → x.use u = y := by
    intro h
    rw [huse, h.fill_window, send_all_segs_nil h.1]
  constructor
  · rintro ⟨hdead, hsilent⟩
    have h := hidle.mp hsilent
    exact ⟨hsame h ▸ hdead, h⟩
  · rintro ⟨hdead, h⟩
    exact ⟨by rwa [hsame h], hidle.mpr h⟩

theorem silent_iff_stays_dead {u : ConnUse} (h : x.active = false) (hu : u.Late) :
    x.Silent u ↔ x.StaysDead u := by
  cases u with
  | connect => exact hu.elim
  | read len => exact hu.elim
  | tick ms => simp [Silent, StaysDead, use, tick, h]
  | segmentReceived seg => simp [Silent, StaysDead, use, segmentReceived, h]
  | endInputStream =>
    have hfill := silent_iff_idle
      { x with sender := { x.sender with stream := x.sender.stream.endInput } }
      .endInputStream (x := x) rfl rfl
    rw [hfill, and_iff_right (end_input_dead h), TCPSender.idle_end_input_iff]
    rfl
  | write data =>
    have hdead := write_stream_dead_iff h data
    by_cases hest : x.connectionEstablish = true
    · have hfill := silent_iff_idle
        { x with sender := { x.sender with stream := x.sender.stream.write data } }
        (.write data) (x := x) (if_pos hest) rfl
      rw [hfill, hdead, TCPSender.idle_write_iff]
      simp only [StaysDead, hest, forall_const]
    · have huse : x.use (.write data) =
          { x with sender := { x.sender with stream := x.sender.stream.write data } } :=
        if_neg hest
      rw [Silent, huse, hdead]
      simp [StaysDead, hest]

end Steps

/-- A dead connection stays dead and silent just when each write and each end of the
input finds the sender idle, and each write to a connection without an error is
refused. -/
theorem dead_stays_dead_iff {x : TCPConnection} (h : x.active = false) {us : List ConnUse}
    (hus : ∀ u ∈ us, u.Late) : Run.Along use Silent x us ↔ Run.Along use StaysDead x us :=
  Run.along_congr (I := fun x => x.active = false) h
    (fun _ u hu hx => silent_iff_stays_dead hx (hus u hu)) (fun _ _ _ _ hs => hs.1)

/-- A connection that was reset before it was established: what is written stays in the
stream. -/
theorem dead_stays_dead_iff_reset :
    Run.Along use Silent ((new {} ⟨0⟩).use (.segmentReceived { header := { rst := true } }))
      [.tick 1000, .write [1, 2], .segmentReceived { header := { syn := true } }, .write [3]] :=
  (dead_stays_dead_iff (by decide +kernel) (by decide +kernel)).mpr (by decide +kernel)

/-- An established connection is reset by its peer; a byte written to it afterwards is
sent. -/
theorem reset_connection_sends :
    ¬ ∀ (cfg : TCPConfig) (random : WrappingInt32) (us vs : List ConnUse),
      (Run.final use (new cfg random) us).active = false → (∀ v ∈ vs, v.Late) →
        Run.Along use Silent (Run.final use (new cfg random) us) vs := by
  intro h
  have hlast := h {} ⟨0⟩ [.connect,
    .segmentReceived { header := { syn := true, ack := true, ackno := ⟨1⟩, win := 10 } },
    .segmentReceived { header := { rst := true } }] [.write [1]] (by decide +kernel)
    (by decide +kernel)
  revert hlast
  decide +kernel

end TCPConnection

end Sponge
