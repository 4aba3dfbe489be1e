import Sponge.Sender.Acked

namespace Sponge

namespace TCPSender

/-- The timer runs, and a tick that lets it expire sends one segment, the retained
one with the lowest number. -/
def Repairs (s : TCPSender) : Prop :=
  s.timerRunning = true ∧ ∀ ms, s.rxTimeLeft ≤ ms →
    ∃ e ∈ s.retained, (∀ d ∈ s.retained, e.1 ≤ d.1) ∧
      (s.tick ms).segmentsOut = s.segmentsOut ++ [e.2] ∧
      (s.tick ms).sent = s.sent ++ [⟨e.1, e.2, false⟩]

/-- Something is retained, and not both in the slot for a zero window and as
outstanding: `tick` looks at the slot only while it is in use. -/
def Undivided (s : TCPSender) : Prop :=
  s.retained ≠ [] ∧ (s.zeroWinSegSend = false ∨ s.outstandingSegs.entries = [])

instance (s : TCPSender) : Decidable s.Undivided :=
  inferInstanceAs (Decidable (_ ∧ (_ ∨ _)))

/-- The timer runs while anything is retained. -/
def Armed (s : TCPSender) : Prop := s.retained ≠ [] → s.timerRunning = true

section Steps

variable {W : Bytes} {s : TCPSender}

theorem retained_eq_nil :
    s.retained = [] ↔ s.outstandingSegs.entries = [] ∧ s.zeroWinSegSend = false := by
  simp [retained]

theorem Armed.fill_window (h : s.Armed) (ht : s.Taped W) : s.fillWindow.Armed :=
  (fill_window_preserves ht h (fun _ _ _ _ _ _ _ => rfl) (fun _ _ _ _ _ _ _ => rfl)).2

theorem Armed.tick (h : s.Armed) (ms : Nat) : (s.tick ms).Armed := by
  intro hne
  rw [retained_tick] at hne
  have hrun := h hne
  unfold TCPSender.tick
  split
  · simp only
    split
    · rfl
    · exact hrun
  rename_i hz
  split
  · rename_i hnil
    exact absurd (retained_eq_nil.mpr ⟨hnil, by simpa using hz⟩) hne
  · split
    · exact hrun
    · simp only
      split
      · rfl
      · exact hrun

theorem Armed.ack_received (h : s.Armed) (ackno : WrappingInt32) (win : UInt16) :
    (s.ackReceived ackno win).Armed := by
  intro hne
  have hrun : s.timerRunning = true := by
    refine h fun hnil => hne ?_
    have hsub := retained_ack_received s ackno win
    rw [hnil] at hsub
    exact List.sublist_nil.mp hsub
  rw [ne_eq, retained_eq_nil] at hne
  unfold TCPSender.ackReceived at hne ⊢
  split
  · exact hrun
  · rename_i ack hack
    simp only [hack, settleTimer] at hne ⊢
    rwa [if_neg hne]

end Steps

section Expiry

variable {s : TCPSender} {ms : Nat}

theorem tick_expired_slot (hz : s.zeroWinSegSend = true) (hms : s.rxTimeLeft ≤ ms) :
    (s.tick ms).segmentsOut = s.segmentsOut ++ [s.zeroWinSeg] ∧
      (s.tick ms).sent = s.sent ++ [⟨s.zeroWinSegSeq, s.zeroWinSeg, false⟩] := by
  simp [tick, hz, timePasses, Nat.not_lt.mpr hms, resend]

theorem tick_expired_oldest (hz : s.zeroWinSegSend = false) {seqno : Nat} {seg : TCPSegment}
    {rest : List (Nat × TCPSegment)} (he : s.outstandingSegs.entries = (seqno, seg) :: rest)
    (hrun : s.timerRunning = true) (hms : s.rxTimeLeft ≤ ms) :
    (s.tick ms).segmentsOut = s.segmentsOut ++ [seg] ∧
      (s.tick ms).sent = s.sent ++ [⟨seqno, seg, false⟩] := by
  simp [tick, hz, he, hrun, timePasses, Nat.not_lt.mpr hms, resend, backOff]

/-- The first of the retained segments has the lowest number. -/
theorem Ranged.head_le (h : s.Ranged) {e d : Nat × TCPSegment} {rest : List (Nat × TCPSegment)}
    (he : s.retained = e :: rest) (hd : d ∈ s.retained) : e.1 ≤ d.1 := by
  rw [Ranged, he] at h
  rw [he] at hd
  rcases List.mem_cons.mp hd with rfl | hd
  · exact Nat.le_refl _
  · have := (List.pairwise_cons.mp h).1 d hd
    omega

theorem Undivided.repairs (hu : s.Undivided) (h : s.Ranged) (ha : s.Armed) : s.Repairs := by
  refine ⟨ha hu.1, fun ms hms => ?_⟩
  rcases hu.2 with hz | hnil
  · cases he : s.outstandingSegs.entries with
    | nil => exact absurd (retained_eq_nil.mpr ⟨he, hz⟩) hu.1
    | cons e rest =>
      have hret : s.retained = e :: rest := by simp [retained, he, hz]
      exact ⟨e, by simp [hret], fun d hd => h.head_le hret hd,
        tick_expired_oldest hz he (ha hu.1) hms⟩
  · have hz : s.zeroWinSegSend = true := by
      by_contra hz
      exact hu.1 (retained_eq_nil.mpr ⟨hnil, by simpa using hz⟩)
    have hret : s.retained = [(s.zeroWinSegSeq, s.zeroWinSeg)] := by simp [retained, hnil, hz]
    exact ⟨_, by simp [hret], fun d hd => h.head_le hret hd, tick_expired_slot hz hms⟩

/-- With a segment outstanding in front of the one in the slot, the slot is what goes
out, and the segment in front is not. -/
theorem Repairs.undivided {W : Bytes} (hr : s.Repairs) (h : s.Ranged) (ht : s.Taped W) :
    s.Undivided := by
  obtain ⟨e, he, hlow, -, hsent⟩ := hr.2 s.rxTimeLeft (Nat.le_refl _)
  refine ⟨List.ne_nil_of_mem he, ?_⟩
  by_contra hdiv
  obtain ⟨hz, hne⟩ := not_or.mp hdiv
  rw [Bool.not_eq_false] at hz
  obtain ⟨d, hd⟩ := List.exists_mem_of_ne_nil _ hne
  have hslot : e.1 = s.zeroWinSegSeq := by
    rw [(tick_expired_slot hz (Nat.le_refl _)).2] at hsent
    simp only [List.append_cancel_left_eq, List.cons.injEq, Sent.mk.injEq] at hsent
    exact hsent.1.1.symm
  have hbefore : d.1 + d.2.lengthInSequenceSpace ≤ s.zeroWinSegSeq :=
    (List.pairwise_append.mp h).2.2 d hd (s.zeroWinSegSeq, s.zeroWinSeg) (by simp [hz])
  have hmem : d ∈ s.retained := List.mem_append_left _ hd
  have hpos := (ht.retained_end hmem).1
  have := hlow d hmem
  omega

end Expiry

end TCPSender

namespace AckSession

open TCPSender

/-- While some number sent is not acknowledged, the sender repairs the loss of the
earliest segment. -/
def RepairsOldest (x : AckSession) : Prop :=
  x.acked < x.sender.nextSeqnoAbsolute → x.sender.Repairs

theorem reached_armed (capacity : Nat) (timeout : UInt16) (isn : WrappingInt32)
    (us : List SenderUse) : (Run.final step (new capacity timeout isn) us).Kept ∧
      (Run.final step (new capacity timeout isn) us).sender.Armed := by
  refine Run.invariant_of_mem (I := fun x : AckSession => x.Kept ∧ x.sender.Armed)
    ⟨new_kept capacity timeout isn, fun h => absurd rfl h⟩ ?_
  rintro x u - ⟨hk, ha⟩
  refine ⟨hk.step u, ?_⟩
  rw [step_session]
  cases u with
  | write data => exact ha
  | endInput => exact ha
  | fillWindow => exact ha.fill_window hk.taped
  | tick ms => exact ha.tick ms
  | ackReceived ackno win => exact ha.ack_received ackno win

/-- In every state a sender can be in, a timeout repairs the earliest loss just when
the retained segments are not divided between the slot and the rest. -/
theorem repairs_oldest_iff_undivided (capacity : Nat) (timeout : UInt16) (isn : WrappingInt32)
    (us : List SenderUse) :
    (Run.final step (new capacity timeout isn) us).RepairsOldest ↔
      ((Run.final step (new capacity timeout isn) us).acked <
          (Run.final step (new capacity timeout isn) us).sender.nextSeqnoAbsolute →
        (Run.final step (new capacity timeout isn) us).sender.Undivided) := by
  obtain ⟨hk, ha⟩ := reached_armed capacity timeout isn us
  exact ⟨fun h hlt => (h hlt).undivided hk.ranged hk.taped,
    fun h hlt => (h hlt).repairs hk.ranged ha⟩

/-- Unless the stream is written to after its end, what is not acknowledged is
retained, so that a divided sender is the one whose slot is in use besides. -/
theorem Sound.undivided_iff {x : AckSession} (h : x.Sound)
    (hlt : x.acked < x.sender.nextSeqnoAbsolute) :
    x.sender.Undivided ↔
      x.sender.zeroWinSegSend = false ∨ x.sender.outstandingSegs.entries = [] := by
  obtain ⟨e, he, -⟩ := h.spans.kept x.acked (Nat.le_refl _) hlt
  exact ⟨fun hu => hu.2, fun hc => ⟨List.ne_nil_of_mem he, hc⟩⟩

/-- Three bytes are in flight when the window closes, and a fourth goes into it: the
timeout repeats the fourth, and the three before it are not repaired. -/
theorem probe_hides_oldest :
    ¬ ∀ (capacity : Nat) (timeout : UInt16) (isn : WrappingInt32) (us : List SenderUse),
      (Run.final step (new capacity timeout isn) us).RepairsOldest := by
  intro h
  let us : List SenderUse := [.fillWindow, .ackReceived ⟨1⟩ 3, .write [1, 2, 3, 4], .fillWindow,
    .ackReceived ⟨1⟩ 0, .fillWindow]
  obtain ⟨hk, -⟩ := reached_armed 10 1000 ⟨0⟩ us
  have hu := (h 10 1000 ⟨0⟩ us (by decide +kernel)).undivided hk.ranged hk.taped
  revert hu
  decide +kernel

end AckSession

end Sponge
