import Sponge.Sender.Pending
import Sponge.Sender.Retain

namespace Sponge

/-- The summaries of the state of a sender. -/
inductive TCPSenderStateSummary where
  | error
  | closed
  | synSent
  | synAcked
  | finSent
  | finAcked
  deriving DecidableEq, Repr

/-- The strings that stand for them in the source. -/
def TCPSenderStateSummary.text : TCPSenderStateSummary → String
  | .error => "error (connection was reset)"
  | .closed => "waiting for stream to begin (no SYN sent)"
  | .synSent => "stream started but nothing acknowledged"
  | .synAcked => "stream ongoing"
  | .finSent => "stream finished (FIN sent) but not fully acknowledged"
  | .finAcked => "stream finished and fully acknowledged"

/-- `TCPState::state_summary` of a sender. -/
def TCPState.stateSummary (sender : TCPSender) : TCPSenderStateSummary :=
  if sender.stream.error = true then .error
  else if sender.nextSeqnoAbsolute = 0 then .closed
  else if sender.nextSeqnoAbsolute = sender.bytesInFlight then .synSent
  else if ¬ sender.stream.eof = true then .synAcked
  else if sender.nextSeqnoAbsolute < sender.stream.bytesWritten + 2 then .synAcked
  else if sender.bytesInFlight ≠ 0 then .finSent
  else .finAcked

theorem state_summary_fin_acked {s : TCPSender} (h : TCPState.stateSummary s = .finAcked) :
    s.stream.bytesWritten + 2 ≤ s.nextSeqno ∧ s.bytesInFlight = 0 := by
  unfold TCPState.stateSummary at h
  iterate 6
    split at h
    · cases h
  rename_i hnext hflight
  exact ⟨Nat.le_of_not_lt hnext, not_not.mp hflight⟩

section Tiles

variable {a b : Nat} {hs : List Sent}

theorem Tiles.sum (h : Tiles a hs b) :
    a + (hs.map (fun e => e.seg.lengthInSequenceSpace)).sum = b := by
  induction hs generalizing a with
  | nil => exact h
  | cons e hs ih =>
    have hrest := ih h.2
    rw [List.map_cons, List.sum_cons]
    omega

theorem Tiles.start_le (h : Tiles a hs b) : ∀ e ∈ hs, a ≤ e.seqno := by
  induction hs generalizing a with
  | nil => exact fun _ he => nomatch he
  | cons d hs ih =>
    intro e he
    rcases List.mem_cons.mp he with rfl | he
    · exact Nat.le_of_eq h.1.symm
    · exact Nat.le_trans (Nat.le_add_right _ _) (ih h.2 e he)

/-- The segments that end past a number are the last ones, so that they are as long together
as it is from the first of them to the end. -/
theorem Tiles.sum_past (h : Tiles a hs b) (acked : Nat) :
    ((hs.filter (fun e => acked < e.seqno + e.seg.lengthInSequenceSpace)).map
        (fun e => e.seg.lengthInSequenceSpace)).sum =
      match (hs.filter (fun e => acked < e.seqno + e.seg.lengthInSequenceSpace)).head? with
      | none => 0
      | some e => b - e.seqno := by
  induction hs generalizing a with
  | nil => rfl
  | cons e hs ih =>
    have htotal := h.sum
    obtain ⟨hstart, hrest⟩ := h
    by_cases hend : acked < e.seqno + e.seg.lengthInSequenceSpace
    · -- so do all those behind it
      have hall : (e :: hs).filter (fun e => acked < e.seqno + e.seg.lengthInSequenceSpace) =
          e :: hs := by
        refine List.filter_eq_self.mpr fun d hd => ?_
        rw [decide_eq_true_eq]
        rcases List.mem_cons.mp hd with rfl | hd
        · exact hend
        · have := hrest.start_le d hd
          omega
      rw [hall, List.head?_cons]
      change _ = b - e.seqno
      rw [← htotal, hstart, Nat.add_sub_cancel_left]
    · rw [List.filter_cons_of_neg (by simpa using hend)]
      exact ih hrest

end Tiles

namespace TCPSender

/-- The segments sent that are not acknowledged in full, each one once. -/
def unackedSent (acked : Nat) (s : TCPSender) : List Sent :=
  (s.sent.filter (·.first)).filter (fun e => acked < e.seqno + e.seg.lengthInSequenceSpace)

/-- The sender retains what it has sent and what is not acknowledged in full. -/
def Matches (acked : Nat) (s : TCPSender) : Prop :=
  s.retained = (s.unackedSent acked).map (fun e => (e.seqno, e.seg))

section Steps

variable {W : Bytes} {acked ack : Nat} {s s' : TCPSender} {seg : TCPSegment} {stream : ByteStream}

theorem Matches.send (h : s.Matches acked) (hle : acked ≤ s.nextSeqno)
    (hpos : 0 < seg.lengthInSequenceSpace)
    (hret : s'.retained = s.retained ++ [(s.nextSeqno, seg)])
    (hsent : s'.sent = s.sent ++ [⟨s.nextSeqno, seg, true⟩]) : s'.Matches acked := by
  have hlt : acked < s.nextSeqno + seg.lengthInSequenceSpace := by omega
  rw [Matches, hret, h]
  simp [unackedSent, hsent, List.filter_append, hlt]

theorem Matches.fill_window (h : s.Matches acked) (ht : s.Taped W) (hle : acked ≤ s.nextSeqno) :
    s.fillWindow.Matches acked := by
  refine (fill_window_preserves_free (Q := fun s => acked ≤ s.nextSeqno ∧ s.Matches acked) ht
    ⟨hle, h⟩ ?_ ?_).2
  · rintro s seg stream ht ⟨hle, h⟩ hfree hs
    exact ⟨Nat.le_trans hle (Nat.le_add_right _ _),
      h.send hle hs.length_pos (ht.retained_transmit hfree) rfl⟩
  · rintro s seg stream ht ⟨hle, h⟩ hp
    exact ⟨Nat.le_trans hle (Nat.le_add_right _ _), h.send hle hp.length_pos hp.retained_probe rfl⟩

/-- A repetition is not one more segment. -/
theorem Matches.resend (h : s.Matches acked) (seqno : Nat) (seg : TCPSegment) :
    (s.resend seqno seg).Matches acked := by
  have hsame : (s.resend seqno seg).unackedSent acked = s.unackedSent acked := by
    simp [unackedSent, TCPSender.resend]
  rw [Matches, hsame]
  exact h

theorem Matches.tick (h : s.Matches acked) (ms : Nat) : (s.tick ms).Matches acked :=
  tick_preserves h (fun _ _ _ _ _ h => h) (fun _ h _ => h.resend _ _)
    (fun _ _ _ _ h _ => h.resend _ _) ms

/-- What an acknowledgment leaves of what is retained, if there is one number in the slot. -/
theorem retained_retire_eq (ht : s.Taped W) (hr : s.Ranged)
    (hslot : s.zeroWinSegSend = true → s.zeroWinSeg.lengthInSequenceSpace = 1) (ack : Nat) :
    (s.retire ack).retained =
      s.retained.filter (fun e => ack < e.1 + e.2.lengthInSequenceSpace) := by
  rw [retained, retained, List.filter_append]
  congr 1
  · exact unacked_eq_filter ack hr.held ht.held_pos
  · cases hz : s.zeroWinSegSend with
    | false => simp [TCPSender.retire, hz]
    | true =>
      have hone := hslot hz
      by_cases hack : ack > s.zeroWinSegSeq
      · have hgone : ¬ ack < s.zeroWinSegSeq + 1 := by omega
        simp [TCPSender.retire, hone, hack, hgone]
      · have hkept : ack < s.zeroWinSegSeq + 1 := by omega
        simp [TCPSender.retire, hz, hone, hack, hkept]

theorem Matches.retire (h : s.Matches acked) (ht : s.Taped W) (hr : s.Ranged)
    (hslot : s.zeroWinSegSend = true → s.zeroWinSeg.lengthInSequenceSpace = 1) (ack : Nat) :
    (s.retire ack).Matches (max acked ack) := by
  rw [Matches, retained_retire_eq ht hr hslot, h, List.filter_map]
  congr 1
  change (s.unackedSent acked).filter _ = (s.sent.filter (·.first)).filter _
  rw [unackedSent, List.filter_filter]
  refine List.filter_congr fun e _ => ?_
  simp [Bool.and_comm]

end Steps

end TCPSender

namespace AckSession

open TCPSender

/-- What holds besides of a sender whose stream is not written to after its end. -/
structure Whole (x : AckSession) : Prop extends Live x, Sound x where
  logged : x.sender.Logged
  matched : x.sender.Matches x.acked

theorem new_whole (capacity : Nat) (timeout : UInt16) (isn : WrappingInt32) :
    (new capacity timeout isn).Whole where
  toLive := new_live capacity timeout isn
  closing := (new_sound capacity timeout isn).closing
  spans := (new_sound capacity timeout isn).spans
  logged := (SenderSession.new_sound capacity timeout isn).logged
  matched := rfl

theorem Whole.step {x : AckSession} {u : SenderUse} (h : x.Whole) (hu : x.WriteOpen u) :
    (x.step u).Whole := by
  have hlogged : (x.step u).sender.Logged := by
    rw [step_session]
    exact (SenderSession.Sound.step ⟨h.taped, h.closing, h.logged⟩ hu).logged
  have hsound := h.toSound.step hu
  refine ⟨h.toLive.step u, hsound.closing, hsound.spans, hlogged, ?_⟩
  cases u with
  | write data => exact h.matched
  | endInput => exact h.matched
  | fillWindow => exact h.matched.fill_window h.taped h.pending.next
  | tick ms => exact h.matched.tick ms
  | ackReceived ackno win =>
    simp only [AckSession.step]
    split
    · rename_i hack
      simp only [SenderSession.step, TCPSender.ackReceived, hack]
      exact h.matched
    · rename_i ack hack
      simp only [SenderSession.step, TCPSender.ackReceived, hack]
      exact h.matched.retire h.taped h.ranged h.spans.slot ack

/-- The number of `bytes_in_flight` is that of all that was sent and is not acknowledged in
full, which is all from the first such segment on; and the FIN is reported as
acknowledged only when it is. -/
structure CountsAll (x : AckSession) : Prop where
  total : x.sender.bytesInFlight =
    ((x.sender.unackedSent x.acked).map (fun e => e.seg.lengthInSequenceSpace)).sum
  span : x.sender.bytesInFlight =
    match (x.sender.unackedSent x.acked).head? with
    | none => 0
    | some e => x.sender.nextSeqnoAbsolute - e.seqno
  fin : TCPState.stateSummary x.sender = .finAcked →
    ∃ e ∈ x.sender.sent, e.seg.header.fin = true ∧
      e.seqno + e.seg.lengthInSequenceSpace ≤ x.acked

theorem Whole.in_flight_eq {x : AckSession} (h : x.Whole) : x.sender.inFlight =
    ((x.sender.unackedSent x.acked).map (fun e => e.seg.lengthInSequenceSpace)).sum := by
  rw [inFlight, h.matched, List.map_map]
  rfl

/-- With nothing in flight, everything sent is acknowledged. -/
theorem Whole.acknowledged {x : AckSession} (h : x.Whole) (hnone : x.sender.inFlight = 0) :
    ∀ e ∈ x.sender.sent.filter (·.first), e.seqno + e.seg.lengthInSequenceSpace ≤ x.acked := by
  intro e he
  by_contra hgt
  have hmem : e ∈ x.sender.unackedSent x.acked :=
    List.mem_filter.mpr ⟨he, by simpa using hgt⟩
  have hpos := TCPSegment.symbols_ne_nil.mp (h.logged.solid e (List.mem_filter.mp he).1)
  have hle := List.le_sum_of_mem
    (List.mem_map_of_mem (f := fun e : Sent => e.seg.lengthInSequenceSpace) hmem)
  rw [← h.in_flight_eq, hnone] at hle
  omega

theorem Whole.counts_iff {x : AckSession} (h : x.Whole) :
    x.CountsAll ↔ x.sender.zeroWinSegSend = false := by
  constructor
  · intro hcounts
    by_contra hz
    rw [Bool.not_eq_false] at hz
    have htotal := hcounts.total
    rw [← h.in_flight_eq, in_flight_busy hz, h.spans.slot hz] at htotal
    omega
  · intro hz
    have htotal := h.in_flight_eq
    rw [in_flight_free hz] at htotal
    refine ⟨htotal, htotal.trans (h.logged.tiles.sum_past x.acked), ?_⟩
    intro hfin
    obtain ⟨hnext, hnone⟩ := state_summary_fin_acked hfin
    obtain ⟨e, he, hf⟩ := first_of_fin_mem (h.taped.fin_mem_tape hnext)
    exact ⟨e, (List.mem_filter.mp he).1, hf,
      h.acknowledged ((in_flight_free hz).trans hnone) e he⟩

/-- In every state of a sender whose stream is not written to after its end, what is in
flight is counted right just when the slot for a zero window is free. -/
theorem counts_all_iff_free (capacity : Nat) (timeout : UInt16) (isn : WrappingInt32)
    (us : List SenderUse) (h : Run.Along step WriteOpen (new capacity timeout isn) us) :
    (Run.final step (new capacity timeout isn) us).CountsAll ↔
      (Run.final step (new capacity timeout isn) us).sender.zeroWinSegSend = false :=
  (Run.always_of_invariant (Q := fun x => x.CountsAll ↔ x.sender.zeroWinSegSend = false)
    (new_whole capacity timeout isn) h (fun _ _ hx hu => hx.step hu)
    (fun _ hx => hx.counts_iff)).final

/-- Two bytes of three are in flight, the first of them acknowledged. -/
theorem counts_all_two : (Run.final step (new 10 1000 ⟨0⟩) [.fillWindow, .ackReceived ⟨1⟩ 2,
    .write [1, 2, 3], .endInput, .fillWindow, .ackReceived ⟨2⟩ 2]).CountsAll :=
  (counts_all_iff_free 10 1000 ⟨0⟩ _ (by decide +kernel)).mpr (by decide +kernel)

/-- FIN is sent into a zero window: nothing is in flight, and the FIN is reported as
acknowledged as soon as it is sent. -/
theorem probe_not_counted :
    ¬ ∀ (capacity : Nat) (timeout : UInt16) (isn : WrappingInt32) (us : List SenderUse),
      (Run.final step (new capacity timeout isn) us).CountsAll := by
  intro h
  have hfin := (h 10 1000 ⟨0⟩ [.fillWindow, .ackReceived ⟨1⟩ 0, .endInput, .fillWindow]).fin
    (by decide +kernel)
  revert hfin
  decide +kernel

end AckSession

end Sponge
