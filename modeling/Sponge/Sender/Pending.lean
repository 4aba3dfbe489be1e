import Sponge.Sender.Timeout

namespace Sponge

namespace TCPSender

/-- Sequence numbers in flight, the one sent into a zero window included. -/
def inFlight (s : TCPSender) : Nat := (s.retained.map (fun e => e.2.lengthInSequenceSpace)).sum

theorem in_flight_free {s : TCPSender} (h : s.zeroWinSegSend = false) :
    s.inFlight = s.bytesInFlight := by
  simp [inFlight, retained, h, bytesInFlight, OrdMap.total]

theorem in_flight_busy {s : TCPSender} (h : s.zeroWinSegSend = true) :
    s.inFlight = s.bytesInFlight + s.zeroWinSeg.lengthInSequenceSpace := by
  simp [inFlight, retained, h, bytesInFlight, OrdMap.total]

/-- An acknowledgment that is taken is for something sent. -/
theorem ack_seqno_le {s : TCPSender} {ackno : WrappingInt32} {ack : Nat}
    (h : s.ackSeqno ackno = some ack) : ack ≤ s.nextSeqno := by
  simp only [ackSeqno] at h
  split at h
  · split at h
    · cases h
    · rw [Option.some.injEq] at h
      by_cases hn : s.nextSeqno < 2 ^ 64
      · obtain ⟨v, hv, rfl, hlap⟩ := exists_in_lap ackno s.isn hn
        rw [hlap.unwrap_eq s.isn hv hn] at *
        have := hlap.above
        omega
      · have := unwrap_lt ackno s.isn s.nextSeqno
        omega
  · rw [Option.some.injEq] at h
    omega

/-- The loop over the outstanding segments, which may stop early, lets go all those that
are acknowledged in full. -/
theorem unacked_eq_filter (ack : Nat) {es : List (Nat × TCPSegment)}
    (hp : es.Pairwise (fun d e => d.1 + d.2.lengthInSequenceSpace ≤ e.1))
    (hpos : ∀ e ∈ es, 0 < e.2.lengthInSequenceSpace) :
    unacked ack es = es.filter (fun e => ack < e.1 + e.2.lengthInSequenceSpace) := by
  induction es with
  | nil => rfl
  | cons d rest ih =>
    obtain ⟨seqno, seg⟩ := d
    obtain ⟨hd, ht⟩ := List.pairwise_cons.mp hp
    have hseg := hpos _ List.mem_cons_self
    have hrest := ih ht (fun e he => hpos e (List.mem_cons_of_mem _ he))
    simp only at hd hseg
    unfold unacked
    split
    · rw [List.filter_cons_of_neg (by simp only [decide_eq_true_eq]; omega), hrest]
    split
    · -- what comes behind is acknowledged even less
      refine (List.filter_eq_self.mpr fun e he => ?_).symm
      simp only [decide_eq_true_eq]
      rcases List.mem_cons.mp he with rfl | he
      · simp only
        omega
      · have := hd e he
        have := hpos e (List.mem_cons_of_mem _ he)
        omega
    · rw [List.filter_cons_of_pos (by simp only [decide_eq_true_eq]; omega), hrest]

/-- What the sender keeps is not acknowledged in full, `acked` being the largest
acknowledgment so far; and the SYN is kept alone. -/
structure Pending (acked : Nat) (s : TCPSender) : Prop where
  next : acked ≤ s.nextSeqno
  held : ∀ e ∈ s.outstandingSegs.entries, acked < e.1 + e.2.lengthInSequenceSpace
  slot : s.zeroWinSegSend = true → acked ≤ s.zeroWinSegSeq
  syn : ∀ e ∈ s.outstandingSegs.entries, e.1 = 0 → e.2.lengthInSequenceSpace = 1

section Steps

variable {W : Bytes} {acked ack : Nat} {s s' : TCPSender} {seg : TCPSegment} {stream : ByteStream}

theorem new_pending (capacity : Nat) (timeout : UInt16) (isn : WrappingInt32) :
    (new capacity timeout isn).Pending 0 :=
  ⟨Nat.zero_le _, by simp [new], by simp [new], by simp [new]⟩

theorem Pending.keep (h : s.Pending acked) (hnext : s'.nextSeqno = s.nextSeqno)
    (hheld : s'.outstandingSegs = s.outstandingSegs)
    (hslot : s'.zeroWinSegSend = s.zeroWinSegSend) (hseq : s'.zeroWinSegSeq = s.zeroWinSegSeq) :
    s'.Pending acked :=
  ⟨hnext ▸ h.next, hheld ▸ h.held, by rw [hslot, hseq]; exact h.slot, hheld ▸ h.syn⟩

theorem Pending.weaken (h : s.Pending acked) : s.Pending 0 :=
  ⟨Nat.zero_le _, fun e he => Nat.lt_of_le_of_lt (Nat.zero_le _) (h.held e he),
    fun _ => Nat.zero_le _, h.syn⟩

theorem Pending.transmit (h : s.Pending acked) (hpos : 0 < seg.lengthInSequenceSpace)
    (hsyn : s.nextSeqno = 0 → seg.lengthInSequenceSpace = 1) :
    ({ s with stream := stream }.transmit seg).Pending acked := by
  have hnext := h.next
  have hentries : ∀ {P : Nat × TCPSegment → Prop}, (∀ e ∈ s.outstandingSegs.entries, P e) →
      P (s.nextSeqno, seg) → ∀ e ∈ (s.outstandingSegs.insert s.nextSeqno seg).entries, P e := by
    intro P hold hnew e he
    rcases OrdMap.mem_insert.mp he with rfl | ⟨he, -⟩
    · exact hnew
    · exact hold e he
  refine ⟨?_, hentries h.held (by simp only; omega), h.slot, hentries h.syn hsyn⟩
  simp only [TCPSender.transmit, startTimer]
  omega

theorem Pending.probe (h : s.Pending acked) :
    ({ s with stream := stream }.probe seg).Pending acked :=
  ⟨Nat.le_trans h.next (Nat.le_add_right _ _), h.held, fun _ => h.next, h.syn⟩

theorem Pending.fill_window (h : s.Pending acked) (ht : s.Taped W) :
    s.fillWindow.Pending acked := by
  by_cases h0 : s.nextSeqno = 0
  · rw [fillWindow, if_pos h0]
    have hsyn : ({ s with stream := s.stream }.transmit
        { header := { syn := true, seqno := s.isn } }).Pending acked :=
      h.transmit Nat.one_pos (fun _ => rfl)
    exact hsyn
  · refine (fill_window_preserves (Q := fun s => s.nextSeqno ≠ 0 ∧ s.Pending acked) ht ⟨h0, h⟩
      ?_ ?_).2.2
    · rintro s seg stream - ⟨h0, h⟩ hs
      refine ⟨?_, h.transmit hs.length_pos (fun hn => absurd hn h0)⟩
      simp only [TCPSender.transmit, startTimer]
      omega
    · rintro s seg stream - ⟨h0, h⟩ -
      refine ⟨?_, h.probe⟩
      simp only [TCPSender.probe, startTimer]
      omega

theorem Pending.tick (h : s.Pending acked) (ms : Nat) : (s.tick ms).Pending acked :=
  tick_preserves h (fun _ _ _ _ _ h => h.keep rfl rfl rfl rfl)
    (fun _ h _ => h.keep rfl rfl rfl rfl) (fun _ _ _ _ h _ => h.keep rfl rfl rfl rfl) ms

theorem Ranged.held (h : s.Ranged) :
    s.outstandingSegs.entries.Pairwise (fun d e => d.1 + d.2.lengthInSequenceSpace ≤ e.1) :=
  (List.pairwise_append.mp h).1

theorem Taped.held_pos (h : s.Taped W) :
    ∀ e ∈ s.outstandingSegs.entries, 0 < e.2.lengthInSequenceSpace :=
  fun _ he => (h.retained_end (List.mem_append_left _ he)).1

theorem Pending.retire (h : s.Pending acked) (ht : s.Taped W) (hr : s.Ranged)
    (hack : ack ≤ s.nextSeqno) : (s.retire ack).Pending (max acked ack) := by
  refine ⟨Nat.max_le.mpr ⟨h.next, hack⟩, ?_, ?_, ?_⟩
  · intro e he
    change e ∈ unacked ack s.outstandingSegs.entries at he
    rw [unacked_eq_filter ack hr.held ht.held_pos] at he
    obtain ⟨he, hlt⟩ := List.mem_filter.mp he
    exact Nat.max_lt.mpr ⟨h.held e he, by simpa using hlt⟩
  · intro hz
    simp only [TCPSender.retire] at hz
    split at hz
    · cases hz
    · have := h.slot hz
      simp only [TCPSender.retire]
      omega
  · exact fun e he => h.syn e ((unacked_sublist ack _).subset he)

theorem Pending.ack_received (h : s.Pending acked) (ht : s.Taped W) (hr : s.Ranged)
    {ackno : WrappingInt32} (hack : s.ackSeqno ackno = some ack) (win : UInt16) :
    (s.ackReceived ackno win).Pending (max acked ack) := by
  simp only [ackReceived, hack]
  exact (h.retire ht hr (ack_seqno_le hack)).keep rfl rfl rfl rfl

/-- Once the SYN is acknowledged, the outstanding segments are not all the numbers used. -/
theorem Pending.flight_lt (h : s.Pending acked) (ht : s.Taped W) (hr : s.Ranged)
    (hsyn : 1 ≤ acked) : s.bytesInFlight < s.nextSeqno := by
  have hfirst : ∀ e ∈ s.outstandingSegs.entries, 1 ≤ e.1 := by
    intro e he
    by_contra h0
    have hend := h.held e he
    have hone := h.syn e he (by omega)
    omega
  have hnext := h.next
  have hsum := sum_le_of_stretches (fun e : Nat × TCPSegment => e.1)
    (fun e => e.2.lengthInSequenceSpace) hr.held hfirst
    (fun e he => (ht.retained_end (List.mem_append_left _ he)).2) (by omega)
  simp only [bytesInFlight, OrdMap.total]
  omega

/-- While the timer runs there is something to send again. -/
def Busy (s : TCPSender) : Prop := s.timerRunning = true → s.retained ≠ []

theorem Busy.fill_window (h : s.Busy) (ht : s.Taped W) : s.fillWindow.Busy := by
  refine fill_window_preserves_free ht h ?_ ?_
  · intro s seg stream ht _ hfree _ _
    rw [ht.retained_transmit hfree]
    simp
  · intro s seg stream _ _ hp _
    rw [hp.retained_probe]
    simp

theorem busy_tick (s : TCPSender) (ms : Nat) : (s.tick ms).Busy := by
  intro hrun
  rw [retained_tick]
  by_cases hz : s.zeroWinSegSend = true
  · simp [retained, hz]
  · cases he : s.outstandingSegs.entries with
    | nil => simp [TCPSender.tick, hz, he] at hrun
    | cons e rest => simp [retained, he]

theorem Busy.ack_received (h : s.Busy) (ackno : WrappingInt32) (win : UInt16) :
    (s.ackReceived ackno win).Busy := by
  intro hrun
  unfold ackReceived at hrun ⊢
  split
  · rename_i hack
    simp only [hack] at hrun
    exact h hrun
  · rename_i ack hack
    simp only [hack, settleTimer] at hrun
    intro hnil
    have hnone : (s.retire ack).outstandingSegs.entries = [] ∧
        (s.retire ack).zeroWinSegSend = false := retained_eq_nil.mp hnil
    rw [if_pos hnone] at hrun
    cases hrun

end Steps

end TCPSender

namespace AckSession

open TCPSender

/-- What holds of every sender in use besides its books: what is kept is not acknowledged,
and the timer runs only while something is kept. -/
structure Live (x : AckSession) : Prop extends Kept x where
  busy : x.sender.Busy
  pending : x.sender.Pending x.acked

theorem new_live (capacity : Nat) (timeout : UInt16) (isn : WrappingInt32) :
    (new capacity timeout isn).Live where
  toKept := new_kept capacity timeout isn
  busy := by simp [Busy, new, SenderSession.new, TCPSender.new]
  pending := new_pending capacity timeout isn

theorem Live.step {x : AckSession} (h : x.Live) (u : SenderUse) : (x.step u).Live := by
  obtain ⟨hk, hb, hp⟩ := h
  cases u with
  | write data => exact ⟨hk.step _, hb, hp.keep rfl rfl rfl rfl⟩
  | endInput => exact ⟨hk.step _, hb, hp.keep rfl rfl rfl rfl⟩
  | fillWindow => exact ⟨hk.step _, hb.fill_window hk.taped, hp.fill_window hk.taped⟩
  | tick ms => exact ⟨hk.step _, busy_tick _ ms, hp.tick ms⟩
  | ackReceived ackno win =>
    refine ⟨hk.step _, by rw [step_session]; exact hb.ack_received ackno win, ?_⟩
    simp only [AckSession.step]
    split
    · rename_i hack
      simp only [SenderSession.step, TCPSender.ackReceived, hack]
      exact hp
    · rename_i ack hack
      exact hp.ack_received hk.taped hk.ranged hack win

theorem reached_live (capacity : Nat) (timeout : UInt16) (isn : WrappingInt32)
    (us : List SenderUse) : (Run.final step (new capacity timeout isn) us).Live :=
  Run.invariant_of_mem (new_live capacity timeout isn) (fun _ u _ h => h.step u)

end AckSession

end Sponge
