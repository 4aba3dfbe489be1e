import Sponge.Sender.Session

namespace Sponge

namespace TCPSender

section Refusal

variable {s : TCPSender} {ackno : WrappingInt32} {v : UInt64}

/-- An acknowledgment for numbers that were not sent is refused below 2^32; from there on a
lap is taken off, and it is taken for an old one. -/
theorem ack_seqno_impossible (hnext : s.nextSeqno < 2 ^ 64)
    (hv : Nearest ackno s.isn s.nextSeqno v) (hgt : s.nextSeqno < v.toNat) :
    s.ackSeqno ackno = if v.toNat < 2 ^ 32 then none else some (v.toNat - 2 ^ 32) := by
  obtain ⟨u, hu, hnear⟩ := unwrap_nearest ackno s.isn hnext
  rw [ackSeqno, hu, hnear.unique hv, if_pos hgt]

/-- If it is taken, a window that differs shows. -/
theorem ack_ignored_iff (hnext : s.nextSeqno < 2 ^ 64)
    (hv : Nearest ackno s.isn s.nextSeqno v) (hgt : s.nextSeqno < v.toNat) :
    (∀ win, s.ackReceived ackno win = s) ↔ v.toNat < 2 ^ 32 := by
  have hack := ack_seqno_impossible hnext hv hgt
  constructor
  · intro h
    by_contra hlt
    rw [if_neg hlt] at hack
    have hwin : ∀ win, win = s.winSize := by
      intro win
      have := congrArg winSize (h win)
      simpa only [ackReceived, hack] using this
    exact absurd ((hwin 0).trans (hwin 1).symm) (by decide)
  · intro hlt win
    rw [if_pos hlt] at hack
    rw [ackReceived, hack]

end Refusal

/-- The sender has sent and got acknowledged all up to `next`, it has a window for one
byte, and these bytes are in its stream, which takes one. -/
structure Ready (next : Nat) (data : Bytes) (s : TCPSender) : Prop where
  number : s.nextSeqno = next
  started : 1 ≤ next
  held : s.outstandingSegs.entries = []
  free : s.zeroWinSegSend = false
  win : s.winSize = 1
  buffer : s.stream.buffer = data
  capacity : s.stream.capacity = 1
  opened : s.stream.inputEnd = false

section Rounds

variable {s : TCPSender} {next : Nat} {b : UInt8}

theorem Ready.write (h : s.Ready next []) (b : UInt8) :
    { s with stream := s.stream.write [b] }.Ready next [b] := by
  refine ⟨h.number, h.started, h.held, h.free, h.win, ?_, h.capacity, h.opened⟩
  simp [ByteStream.write, ByteStream.accepts, ByteStream.remainingCapacity, h.buffer, h.capacity]

theorem Ready.flight (h : s.Ready next [b]) : s.bytesInFlight = 0 := by
  simp [bytesInFlight, OrdMap.total, h.held]

theorem Ready.transfer_size (h : s.Ready next [b]) : s.transferSize = 1 := by
  simp [transferSize, h.flight, h.win, TCPConfig.maxPayloadSize]

theorem Ready.data_segment (h : s.Ready next [b]) :
    s.dataSegment = { header := { seqno := s.nextSeqnoRelative }, payload := [b] } := by
  simp [dataSegment, h.transfer_size, h.flight, h.win, ByteStream.peekOutput, h.buffer,
    TCPSegment.lengthInSequenceSpace]

theorem Ready.fill_window (h : s.Ready next [b]) : s.fillWindow = s.sendData := by
  have h0 : s.nextSeqno ≠ 0 := by
    have := h.started
    have := h.number
    omega
  have hroom : s.winSize.toNat > s.bytesInFlight := by simp [h.flight, h.win]
  have hsome : s.stream.bufferEmpty = false := by simp [ByteStream.bufferEmpty, h.buffer]
  have heof : s.stream.eof ≠ true := by simp [ByteStream.eof, hsome]
  have hdone : s.sendData.stream.bufferEmpty = true := by
    simp [sendData, transmit, startTimer, h.transfer_size, ByteStream.popOutput,
      ByteStream.bufferEmpty, h.buffer]
  rw [fillWindow, if_neg h0, if_pos ⟨hroom, h.free⟩]
  simp only [heof, false_and, ↓reduceIte, Bool.false_eq_true]
  rw [fillLoop, dif_pos ⟨hsome, hroom⟩, fillLoop, dif_neg (by simp [hdone])]

/-- The byte is sent and acknowledged. -/
theorem Ready.acknowledged (h : s.Ready next [b]) (hnext : next + 1 < 2 ^ 64) :
    (s.fillWindow.ackReceived (wrap (next + 1) s.isn) 1).Ready (next + 1) [] := by
  have hone : s.dataSegment.lengthInSequenceSpace = 1 := by
    rw [h.data_segment]
    rfl
  have hsent : s.sendData.nextSeqno = next + 1 := by
    rw [← h.number, ← hone]
    rfl
  have hheld : s.sendData.outstandingSegs.entries = [(next, s.dataSegment)] := by
    change OrdMap.insertEntries _ s.nextSeqno s.dataSegment s.outstandingSegs.entries = _
    rw [h.held, h.number]
    rfl
  have hack : s.sendData.ackSeqno (wrap (next + 1) s.isn) = some (next + 1) := by
    have hnear : unwrap (wrap (next + 1) s.isn) s.sendData.isn s.sendData.nextSeqno = next + 1 := by
      rw [hsent]
      exact unwrap_near s.isn hnext hnext (by omega) (by omega)
    simp only [ackSeqno, hnear]
    rw [hsent, if_neg (Nat.lt_irrefl _)]
  rw [h.fill_window, ackReceived, hack]
  refine ⟨hsent, by omega, ?_, ?_, rfl, ?_, h.capacity, h.opened⟩
  · change unacked (next + 1) s.sendData.outstandingSegs.entries = []
    rw [hheld]
    simp [unacked, hone]
  · change (if next + 1 > s.zeroWinSegSeq then false else s.zeroWinSegSend) = false
    simp [h.free]
  · change (s.stream.popOutput s.transferSize).buffer = []
    simp [ByteStream.popOutput, h.transfer_size, h.buffer]

end Rounds

end TCPSender

namespace SenderSession

open TCPSender

/-- A byte is written, sent and acknowledged. -/
def round (isn : WrappingInt32) (next : Nat) : List SenderUse :=
  [.write [0], .fillWindow, .ackReceived (wrap (next + 1) isn) 1]

theorem round_ready {x : SenderSession} {next : Nat} (h : x.sender.Ready next [])
    (hnext : next + 1 < 2 ^ 64) :
    (Run.final step x (round x.sender.isn next)).sender.Ready (next + 1) [] ∧
      (Run.final step x (round x.sender.isn next)).sender.isn = x.sender.isn := by
  have hload := h.write 0
  refine ⟨hload.acknowledged hnext, ?_⟩
  simp only [round, Run.final_cons, Run.final_nil, step]
  rw [(continues_ack_received _ _ _).isn, hload.fill_window]
  rfl

/-- A sender can get to any sequence number: it sends the bytes one by one. -/
theorem reaches_ready (n : Nat) (hn : n + 1 < 2 ^ 64) : ∃ us,
    (Run.final step (new 1 1000 ⟨0⟩) us).sender.Ready (n + 1) [] ∧
      (Run.final step (new 1 1000 ⟨0⟩) us).sender.isn = ⟨0⟩ := by
  induction n with
  | zero =>
    refine ⟨[.fillWindow, .ackReceived ⟨1⟩ 1], ⟨?_, ?_, ?_, ?_, ?_, ?_, ?_, ?_⟩, ?_⟩
    all_goals decide +kernel
  | succ n ih =>
    obtain ⟨us, hready, hisn⟩ := ih (by omega)
    have hround := round_ready hready hn
    rw [hisn, ← Run.final_append] at hround
    exact ⟨_, hround⟩

/-- The acknowledgment, read as near as can be to the next number, is for `v`, which was
not sent. -/
def Impossible (x : SenderSession) (ackno : WrappingInt32) (v : UInt64) : Prop :=
  x.sender.nextSeqnoAbsolute < 2 ^ 64 ∧
    Nearest ackno x.sender.isn x.sender.nextSeqnoAbsolute v ∧
    x.sender.nextSeqnoAbsolute < v.toNat

theorem impossible_of_in_lap {x : SenderSession} {isn : WrappingInt32} (v : UInt64) (next : Nat)
    (hnext : x.sender.nextSeqnoAbsolute = next) (hisn : x.sender.isn = isn) (hlt : next < 2 ^ 64)
    (hlap : InLap next v.toNat) (hgt : next < v.toNat) : x.Impossible (wrap v.toNat isn) v := by
  subst hnext hisn
  exact ⟨hlt, hlap.nearest _ hlt, hgt⟩

/-- In every state a sender can be in, an acknowledgment for a number that was not sent
changes nothing, whatever the window told with it, just when the number is below 2^32. -/
theorem impossible_ack_ignored_iff (capacity : Nat) (timeout : UInt16) (isn : WrappingInt32)
    (us : List SenderUse) (ackno : WrappingInt32) (v : UInt64)
    (h : (Run.final step (new capacity timeout isn) us).Impossible ackno v) :
    (∀ win, (Run.final step (new capacity timeout isn) us).sender.ackReceived ackno win =
        (Run.final step (new capacity timeout isn) us).sender) ↔ v.toNat < 2 ^ 32 :=
  ack_ignored_iff h.1 h.2.1 h.2.2

/-- The SYN is acknowledged, and then five numbers of which none was sent. -/
theorem impossible_ack_ignored_five :
    let x := Run.final step (new 10 1000 ⟨0⟩) [.fillWindow, .ackReceived ⟨1⟩ 10]
    x.Impossible (wrap 6 ⟨0⟩) 6 ∧ ∀ win, x.sender.ackReceived (wrap 6 ⟨0⟩) win = x.sender := by
  have himp : (Run.final step (new 10 1000 ⟨0⟩) [.fillWindow, .ackReceived ⟨1⟩ 10]).Impossible
      (wrap 6 ⟨0⟩) 6 :=
    impossible_of_in_lap 6 1 (by decide +kernel) (by decide +kernel) (by decide)
      ⟨by decide, by decide⟩ (by decide)
  exact ⟨himp, (impossible_ack_ignored_iff 10 1000 ⟨0⟩ _ _ 6 himp).mpr (by decide)⟩

/-- Past the first 2^31 numbers, an acknowledgment for number 2^32 is taken for one of
number 0, and its window is taken over. -/
theorem impossible_ack_taken :
    ¬ ∀ (capacity : Nat) (timeout : UInt16) (isn : WrappingInt32) (us : List SenderUse)
      (ackno : WrappingInt32) (v : UInt64) (win : UInt16),
      (Run.final step (new capacity timeout isn) us).Impossible ackno v →
        (Run.final step (new capacity timeout isn) us).sender.ackReceived ackno win =
          (Run.final step (new capacity timeout isn) us).sender := by
  intro h
  obtain ⟨us, hready, hisn⟩ := reaches_ready (2 ^ 31 + 1) (by decide)
  have himp := impossible_of_in_lap (2 ^ 32) _ hready.number hisn (by decide)
    ⟨by decide, by decide⟩ (by decide)
  have hall := (ack_ignored_iff himp.1 himp.2.1 himp.2.2).mp
    (fun win => h 1 1000 ⟨0⟩ us _ _ win himp)
  exact absurd hall (by decide)

end SenderSession

end Sponge
