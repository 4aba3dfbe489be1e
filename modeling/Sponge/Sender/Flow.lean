import Sponge.Sender.Acked

namespace Sponge

namespace TCPSender

variable {acked : Nat} {s : TCPSender}

/-- While the slot for a zero window is free, what is not acknowledged is
outstanding, so the numbers in use reach no further than that. -/
theorem Spans.next_le (h : s.Spans acked) (hfree : s.zeroWinSegSend = false) :
    s.nextSeqno ≤ acked + s.bytesInFlight := by
  have hcard : (Finset.Ico acked s.nextSeqno).card ≤
      (s.outstandingSegs.entries.map (fun e => e.2.lengthInSequenceSpace)).sum := by
    refine card_le_of_stretches (fun e : Nat × TCPSegment => e.1) _ fun q hq => ?_
    obtain ⟨hlo, hhi⟩ := Finset.mem_Ico.mp hq
    obtain ⟨e, he, hin⟩ := h.kept q hlo hhi
    exact ⟨e, by simpa [retained, hfree] using he, hin⟩
  rw [Nat.card_Ico] at hcard
  simp only [bytesInFlight, OrdMap.total]
  omega

end TCPSender

namespace AckSession

open TCPSender

/-- A segment that may go out in this state: the SYN, the one number sent into a zero
window, or one that ends within the furthest right edge the peer has told. -/
def Admits (x : AckSession) (e : Sent) : Prop :=
  e.seg.header.syn = true ∨
    (x.sender.winSize = 0 ∧ e.seg.lengthInSequenceSpace = 1) ∨
    e.seqno + e.seg.lengthInSequenceSpace ≤ x.edge

instance (x : AckSession) (e : Sent) : Decidable (x.Admits e) :=
  inferInstanceAs (Decidable (_ ∨ (_ ∧ _) ∨ _))

/-- What `fill_window` sends may go out. -/
def WithinEdge (x : AckSession) : SenderUse → Prop
  | .fillWindow => ∀ e ∈ x.sender.fillWindow.sent.drop x.sender.sent.length, x.Admits e
  | _ => True

instance (x : AckSession) : (u : SenderUse) → Decidable (x.WithinEdge u)
  | .fillWindow => inferInstanceAs (Decidable
      (∀ e ∈ x.sender.fillWindow.sent.drop x.sender.sent.length, x.Admits e))
  | .write _ | .endInput | .ackReceived _ _ | .tick _ => .isTrue trivial

/-- An acknowledgment that is older than the newest one does not come with a window
that, counted from the newest one, ends past the furthest edge. -/
def Orderly (x : AckSession) : SenderUse → Prop
  | .ackReceived ackno win =>
    ∀ ack ∈ x.sender.ackSeqno ackno, x.acked ≤ ack ∨ x.acked + win.toNat ≤ x.edge
  | _ => True

instance (x : AckSession) : (u : SenderUse) → Decidable (x.Orderly u)
  | .ackReceived ackno win =>
    inferInstanceAs (Decidable
      (∀ ack ∈ x.sender.ackSeqno ackno, x.acked ≤ ack ∨ x.acked + win.toNat ≤ x.edge))
  | .write _ | .endInput | .fillWindow | .tick _ => .isTrue trivial

/-- The window kept by the sender, counted from the newest acknowledgment. -/
def Bounded (x : AckSession) : Prop := x.acked + x.sender.winSize.toNat ≤ x.edge

section Steps

variable {x : AckSession} {u : SenderUse}

/-- Only an acknowledgment changes the window. -/
theorem win_size_fill_window {W : Bytes} {s : TCPSender} (h : s.Taped W) :
    s.fillWindow.winSize = s.winSize :=
  (fill_window_preserves (Q := fun s' => s'.winSize = s.winSize) h rfl (fun _ _ _ _ hw _ => hw)
    (fun _ _ _ _ hw _ => hw)).2

theorem win_size_tick (s : TCPSender) (ms : Nat) : (s.tick ms).winSize = s.winSize :=
  tick_preserves (Q := fun s' => s'.winSize = s.winSize) rfl (fun _ _ _ _ _ hw => hw)
    (fun _ hw _ => hw) (fun _ _ _ _ hw _ => hw) ms

theorem Bounded.step (h : x.Bounded) (hs : x.Sound) (hu : x.Orderly u) : (x.step u).Bounded := by
  cases u with
  | write data => exact h
  | endInput => exact h
  | fillWindow =>
    simp only [Bounded, AckSession.step, SenderSession.step, win_size_fill_window hs.taped]
    exact h
  | tick ms =>
    simp only [Bounded, AckSession.step, SenderSession.step, win_size_tick]
    exact h
  | ackReceived ackno win =>
    simp only [AckSession.step]
    split
    · rename_i hack
      simp only [Bounded, SenderSession.step, TCPSender.ackReceived, hack]
      exact h
    · rename_i ack hack
      have hle := hu ack hack
      simp only [Bounded, SenderSession.step, TCPSender.ackReceived, hack]
      omega

theorem Bounded.within_edge (h : x.Bounded) (hs : x.Sound) (u : SenderUse) : x.WithinEdge u := by
  cases u with
  | fillWindow =>
    have hlog : ∃ log : List Sent, x.sender.fillWindow.sent = x.sender.sent ++ log ∧
        ∀ e ∈ log, x.Admits e := by
      refine (fill_window_preserves_free (Q := fun s => (s.Closing ∧ s.Spans x.acked) ∧
        s.winSize = x.sender.winSize ∧ ∃ log : List Sent, s.sent = x.sender.sent ++ log ∧
          ∀ e ∈ log, x.Admits e) hs.taped
        ⟨⟨hs.closing, hs.spans⟩, rfl, [], by simp, by simp⟩ ?_ ?_).2.2
      · rintro s seg stream ht ⟨⟨hc, hspan⟩, hwin, log, hlog, hok⟩ hfree hsend
        refine ⟨⟨hc.transmit hsend, hspan.transmit ht hfree⟩, hwin, log ++ [⟨s.nextSeqno, seg, true⟩], ?_, ?_⟩
        · simp [TCPSender.transmit, startTimer, hlog]
        refine List.forall_mem_append.mpr ⟨hok, List.forall_mem_singleton.mpr ?_⟩
        rcases hsend.room with ⟨h0, -⟩ | hroom
        · exact .inl (hsend.syn.mpr h0)
        · -- the code counts the window from the oldest outstanding number, which is no
          -- further than the newest acknowledgment
          have hnext := hspan.next_le hfree
          have hedge : x.acked + x.sender.winSize.toNat ≤ x.edge := h
          rw [hwin] at hroom
          exact .inr (.inr (by simp only; omega))
      · rintro s seg stream ht ⟨⟨hc, hspan⟩, hwin, log, hlog, hok⟩ hp
        refine ⟨⟨hc.probe hp, hspan.probe hc hp⟩, hwin, log ++ [⟨s.nextSeqno, seg, true⟩], ?_, ?_⟩
        · simp [TCPSender.probe, startTimer, hlog]
        refine List.forall_mem_append.mpr ⟨hok, List.forall_mem_singleton.mpr ?_⟩
        exact .inr (.inl ⟨hwin ▸ hp.zero, hp.length_eq_one hc⟩)
    obtain ⟨log, hlog, hok⟩ := hlog
    intro e he
    rw [hlog, List.drop_left] at he
    exact hok e he
  | _ => trivial

end Steps

/-- Flow control is kept in a run in which no acknowledgment that comes late opens
the window past the furthest edge. -/
theorem within_edge_of_orderly (capacity : Nat) (timeout : UInt16) (isn : WrappingInt32)
    (us : List SenderUse) (hopen : Run.Along step WriteOpen (new capacity timeout isn) us)
    (h : Run.Along step Orderly (new capacity timeout isn) us) :
    Run.Along step WithinEdge (new capacity timeout isn) us := by
  refine Run.along_of_invariant (I := fun x => x.Sound ∧ x.Bounded)
    ⟨new_sound capacity timeout isn, Nat.le_refl _⟩ (hopen.and h) ?_
    (fun x u hx _ => hx.2.within_edge hx.1 u)
  rintro x u ⟨hs, hb⟩ ⟨hopen, hu⟩
  exact ⟨hs.step hopen, hb.step hs hu⟩

/-- A repeated acknowledgment and one that is late, with a window that was told
before. -/
theorem within_edge_of_orderly_late : Run.Along step WithinEdge (new 20 1000 ⟨0⟩)
    [.fillWindow, .ackReceived ⟨1⟩ 10, .write [1, 2, 3, 4], .fillWindow, .ackReceived ⟨5⟩ 10,
      .ackReceived ⟨5⟩ 10, .ackReceived ⟨1⟩ 10, .write [5, 6, 7, 8, 9], .fillWindow] :=
  within_edge_of_orderly 20 1000 ⟨0⟩ _ (by decide +kernel) (by decide +kernel)

/-- The window is taken from an acknowledgment that comes late and counted from the
newest one: five bytes go out where the peer has room for two. -/
theorem late_ack_opens_window :
    ¬ ∀ (capacity : Nat) (timeout : UInt16) (isn : WrappingInt32) (us : List SenderUse),
      Run.Along step WithinEdge (new capacity timeout isn) us := by
  intro h
  have hlast := h 20 1000 ⟨0⟩ [.fillWindow, .ackReceived ⟨1⟩ 10,
    .write [1, 2, 3, 4, 5, 6, 7, 8, 9, 10], .fillWindow, .ackReceived ⟨11⟩ 2, .ackReceived ⟨1⟩ 10,
    .write [11, 12, 13, 14, 15], .fillWindow]
  revert hlast
  decide +kernel

end AckSession

end Sponge
