import Sponge.Sender.Pending
import Sponge.Sender.Retain

namespace Sponge

namespace TCPSender

/-- Nothing is left to be sent: the stream is read to where it is written, and if it has
ended the FIN has been sent. -/
def AllSent (s : TCPSender) : Prop :=
  s.stream.bufferEmpty = true ∧
    (s.stream.inputEnded = true → ∃ e ∈ s.sent, e.seg.header.fin = true)

instance (s : TCPSender) : Decidable s.AllSent :=
  inferInstanceAs (Decidable (_ ∧ (_ → ∃ e ∈ s.sent, _)))

/-- The window of the last acknowledgment; a zero window is taken for a window of one. -/
def usableWindow (s : TCPSender) : Nat := max 1 s.winSize.toNat

/-- The window is full, or nothing is left to be sent. -/
def Filled (s : TCPSender) : Prop := s.AllSent ∨ s.usableWindow ≤ s.inFlight

instance (s : TCPSender) : Decidable s.Filled := inferInstanceAs (Decidable (_ ∨ _))

section Steps

variable {W : Bytes} {s : TCPSender} {seg : TCPSegment} {stream : ByteStream}

/-- At the end of the stream, FIN has been sent or there is no room for it. -/
def FinDue (s : TCPSender) : Prop :=
  s.stream.eof = true → .fin ∈ s.tape ∨ s.winSize.toNat ≤ s.bytesInFlight

/-- The last data go without FIN only if they fill the window. -/
theorem data_segment_full (hfin : s.dataSegment.header.fin ≠ true)
    (heof : (s.stream.popOutput s.transferSize).eof = true) :
    s.winSize.toNat ≤ s.bytesInFlight + s.dataSegment.lengthInSequenceSpace := by
  unfold dataSegment at hfin ⊢
  dsimp only at hfin ⊢
  split at hfin
  · exact absurd rfl hfin
  · rename_i hfull
    rw [if_neg hfull]
    exact Nat.le_of_not_lt fun hlt => hfull ⟨hlt, heof⟩

theorem fin_due_send_data (ht : s.Taped W) : s.sendData.FinDue := by
  intro heof
  by_cases hfin : s.dataSegment.header.fin = true
  · refine .inl ?_
    rw [sendData, tape_append_first (s := s) rfl]
    exact List.mem_append_right _ (TCPSegment.fin_mem_symbols.mpr hfin)
  · refine .inr ?_
    rw [sendData, ht.flight_transmit, Nat.add_comm]
    exact data_segment_full hfin heof

/-- The loop ends with the stream empty or the window full. -/
theorem fill_loop_filled (ht : s.Taped W) (h0 : s.nextSeqno ≠ 0) (hfree : s.zeroWinSegSend = false)
    (hdue : s.FinDue) :
    s.fillLoop.zeroWinSegSend = false ∧ s.fillLoop.winSize = s.winSize ∧ s.fillLoop.FinDue ∧
      (s.fillLoop.stream.bufferEmpty = true ∨ s.winSize.toNat ≤ s.fillLoop.bytesInFlight) := by
  fun_induction fillLoop s with
  | case1 s h ih =>
    have hsend := transmits_data ht h0 h.2 h.1
    refine ih (ht.transmit hsend.toFresh) ?_ hfree (fin_due_send_data ht)
    simp only [sendData, TCPSender.transmit, startTimer]
    omega
  | case2 s h =>
    refine ⟨hfree, rfl, hdue, ?_⟩
    by_contra hnot
    obtain ⟨hsome, hroom⟩ := not_or.mp hnot
    exact h ⟨by simpa using hsome, Nat.lt_of_not_le hroom⟩

theorem filled_of_open (hfree : s.zeroWinSegSend = false) (hwin : 0 < s.winSize.toNat)
    (hdue : s.FinDue)
    (h : s.stream.bufferEmpty = true ∨ s.winSize.toNat ≤ s.bytesInFlight) : s.Filled := by
  have husable : s.usableWindow = s.winSize.toNat := Nat.max_eq_right hwin
  rw [Filled, husable, in_flight_free hfree]
  by_cases hfull : s.winSize.toNat ≤ s.bytesInFlight
  · exact .inr hfull
  · have hempty := h.resolve_right hfull
    refine .inl ⟨hempty, fun hend => ?_⟩
    have hfin := (hdue (ByteStream.eof_iff.mpr ⟨hend, hempty⟩)).resolve_right hfull
    obtain ⟨e, he, hf⟩ := first_of_fin_mem hfin
    exact ⟨e, (List.mem_filter.mp he).1, hf⟩

/-- The branch for an open window. -/
theorem fill_open (ht : s.Taped W) (h0 : s.nextSeqno ≠ 0) (hfree : s.zeroWinSegSend = false)
    (hroom : s.winSize.toNat > s.bytesInFlight) : s.fillWindow.Filled := by
  have hloop : ∀ {t : TCPSender}, t.Taped W → t.nextSeqno ≠ 0 → t.zeroWinSegSend = false →
      t.winSize = s.winSize → t.FinDue → t.fillLoop.Filled := by
    intro t ht h0 hfree hwin hdue
    obtain ⟨hfree', hwin', hdue', hend⟩ := fill_loop_filled ht h0 hfree hdue
    have hpos : 0 < t.fillLoop.winSize.toNat := by
      rw [hwin', hwin]
      omega
    exact filled_of_open hfree' hpos hdue' (hwin' ▸ hend)
  rw [fillWindow, if_neg h0, if_pos ⟨hroom, hfree⟩]
  dsimp only
  split
  · rename_i hfin
    have hsend := transmits_fin ht h0 hroom hfin.1 hfin.2
    refine hloop (ht.transmit hsend.toFresh) ?_ hfree rfl (fun _ => .inl ?_)
    · simp only [sendFin, TCPSender.transmit, startTimer]
      omega
    · rw [tape_append_first (s := s) rfl]
      exact List.mem_append_right _ (TCPSegment.fin_mem_symbols.mpr rfl)
  · rename_i hno
    refine hloop ht h0 hfree rfl (fun heof => .inl (ht.fin_mem_tape ?_))
    exact Nat.le_of_not_lt fun hlt => hno ⟨heof, hlt⟩

theorem filled_of_probe (hwin : s.winSize = 0) (hz : s.zeroWinSegSend = true)
    (hpos : 0 < s.zeroWinSeg.lengthInSequenceSpace) : s.Filled := by
  refine .inr ?_
  rw [usableWindow, in_flight_busy hz, hwin]
  exact Nat.le_trans hpos (Nat.le_add_left _ _)

/-- The branch for a zero window: one number goes into it if there is any to send. -/
theorem fill_zero (h0 : s.nextSeqno ≠ 0) (hfree : s.zeroWinSegSend = false)
    (hwin : s.winSize = 0) (hflight : s.bytesInFlight < s.nextSeqno) : s.fillWindow.Filled := by
  have hclosed : ¬ (s.winSize.toNat > s.bytesInFlight ∧ s.zeroWinSegSend = false) := by
    simp [hwin]
  rw [fillWindow, if_neg h0, if_neg hclosed, if_pos ⟨hwin, hflight⟩]
  cases hb : s.stream.bufferEmpty with
  | false =>
    have htaken : s.probeByte.zeroWinSegSend = true := rfl
    simp only [hfree, and_self, ↓reduceIte, htaken, Bool.true_eq_false, and_false]
    refine filled_of_probe hwin rfl ?_
    have hbyte := List.length_pos_iff.mpr (peek_ne_nil Nat.one_pos hb)
    change 0 < TCPSegment.lengthInSequenceSpace { header := _, payload := s.stream.peekOutput 1 }
    simp only [TCPSegment.lengthInSequenceSpace]
    omega
  | true =>
    simp only [Bool.true_eq_false, ↓reduceIte, hfree, and_true]
    split
    · refine filled_of_probe hwin rfl ?_
      simp [probeFin, probe, startTimer, TCPSegment.lengthInSequenceSpace]
    · rename_i heof
      exact .inl ⟨hb, fun hend => absurd (ByteStream.eof_iff.mpr ⟨hend, hb⟩) heof⟩

/-- With the slot for a zero window free, `fill_window` fills the window. -/
theorem fill_window_filled (ht : s.Taped W) (hfree : s.zeroWinSegSend = false)
    (hflight : s.bytesInFlight < s.nextSeqno) : s.fillWindow.Filled := by
  have h0 : s.nextSeqno ≠ 0 := by omega
  by_cases hroom : s.winSize.toNat > s.bytesInFlight
  · exact fill_open ht h0 hfree hroom
  by_cases hwin : s.winSize = 0
  · exact fill_zero h0 hfree hwin hflight
  · have hsame : s.fillWindow = s := by
      rw [fillWindow, if_neg h0, if_neg (fun h => hroom h.1), if_neg (fun h => hwin h.1)]
    have hpos : 0 < s.winSize.toNat :=
      Nat.pos_of_ne_zero fun hz => hwin (UInt16.toNat_inj.mp hz)
    rw [hsame, Filled, usableWindow, in_flight_free hfree, Nat.max_eq_right hpos]
    exact .inr (Nat.le_of_not_lt hroom)

end Steps

end TCPSender

namespace AckSession

open TCPSender

/-- Once the SYN is acknowledged, `fill_window` fills the window. -/
def FillsWindow (x : AckSession) : Prop := 1 ≤ x.acked → x.sender.fillWindow.Filled

/-- Once the SYN is acknowledged, a probe in the slot for a zero window leaves nothing to
be done, since the window is full with it or nothing is left to be sent. -/
def Unblocked (x : AckSession) : Prop :=
  1 ≤ x.acked → x.sender.zeroWinSegSend = true → x.sender.Filled

theorem Live.fills_iff {x : AckSession} (h : x.Live) : x.FillsWindow ↔ x.Unblocked := by
  have hflight := fun hsyn => h.pending.flight_lt h.taped h.ranged hsyn
  constructor
  · intro hfills hsyn hz
    have hsame := fill_window_busy (s := x.sender) (by have := hflight hsyn; omega) hz
    rw [← hsame]
    exact hfills hsyn
  · intro hun hsyn
    cases hz : x.sender.zeroWinSegSend with
    | false => exact fill_window_filled h.taped hz (hflight hsyn)
    | true =>
      rw [fill_window_busy (by have := hflight hsyn; omega) hz]
      exact hun hsyn hz

/-- In every state a sender can be in, `fill_window` fills the window just when no probe
is in its way. -/
theorem fills_window_iff_unblocked (capacity : Nat) (timeout : UInt16) (isn : WrappingInt32)
    (us : List SenderUse) :
    (Run.final step (new capacity timeout isn) us).FillsWindow ↔
      (Run.final step (new capacity timeout isn) us).Unblocked :=
  (reached_live capacity timeout isn us).fills_iff

/-- A byte is sent into a zero window; the window opens, and as long as the byte is not
acknowledged nothing more is sent. -/
theorem probe_blocks_window :
    ¬ ∀ (capacity : Nat) (timeout : UInt16) (isn : WrappingInt32) (us : List SenderUse),
      (Run.final step (new capacity timeout isn) us).FillsWindow := by
  intro h
  have hfilled := h 10 1000 ⟨0⟩ [.fillWindow, .ackReceived ⟨1⟩ 0, .write [1, 2], .fillWindow,
    .ackReceived ⟨1⟩ 5] (by decide +kernel)
  revert hfilled
  decide +kernel

end AckSession

end Sponge
