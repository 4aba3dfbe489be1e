import Sponge.Lib.Cover
import Sponge.Sender.Session

namespace Sponge

namespace TCPSender

/-- What the sender can send again, in order: the outstanding segments, and the one
sent into a zero window while it is not acknowledged. -/
def retained (s : TCPSender) : List (Nat × TCPSegment) :=
  s.outstandingSegs.entries ++ if s.zeroWinSegSend then [(s.zeroWinSegSeq, s.zeroWinSeg)] else []

/-- The retained segments lie one behind the other. -/
def Ranged (s : TCPSender) : Prop :=
  s.retained.Pairwise (fun d e => d.1 + d.2.lengthInSequenceSpace ≤ e.1)

/-- Nothing from `acked` on is missing from what is retained. In the slot for a zero
window there is one number. -/
structure Spans (acked : Nat) (s : TCPSender) : Prop where
  kept : ∀ q, acked ≤ q → q < s.nextSeqno →
    ∃ e ∈ s.retained, e.1 ≤ q ∧ q < e.1 + e.2.lengthInSequenceSpace
  slot : s.zeroWinSegSend = true → s.zeroWinSeg.lengthInSequenceSpace = 1

theorem new_ranged (capacity : Nat) (timeout : UInt16) (isn : WrappingInt32) :
    (new capacity timeout isn).Ranged := by
  simp [new, Ranged, retained]

theorem new_spans (capacity : Nat) (timeout : UInt16) (isn : WrappingInt32) :
    (new capacity timeout isn).Spans 0 :=
  ⟨by simp [new], by simp [new]⟩

section Retained

variable {W : Bytes} {s s' : TCPSender} {seg : TCPSegment} {stream : ByteStream}

theorem Taped.retained_end (h : s.Taped W) {e : Nat × TCPSegment} (he : e ∈ s.retained) :
    0 < e.2.lengthInSequenceSpace ∧ e.1 + e.2.lengthInSequenceSpace ≤ s.nextSeqno := by
  have hreads : Reads s.isn s.tape e.1 e.2 ∧ e.2.symbols ≠ [] := by
    rcases List.mem_append.mp he with he | he
    · exact h.held e he
    · split at he
      · rw [List.mem_singleton.mp he]
        exact h.slot ‹_›
      · cases he
  have hend := hreads.1.stands.end_le hreads.2
  rw [TCPSegment.length_symbols, h.length] at hend
  exact ⟨TCPSegment.symbols_ne_nil.mp hreads.2, hend⟩

/-- A segment sent for the first time is retained behind the others, -/
theorem Taped.retained_transmit (ht : s.Taped W) (hfree : s.zeroWinSegSend = false) :
    ({ s with stream := stream }.transmit seg).retained = s.retained ++ [(s.nextSeqno, seg)] := by
  have hlast : (s.outstandingSegs.insert s.nextSeqno seg).entries =
      s.outstandingSegs.entries ++ [(s.nextSeqno, seg)] := by
    refine OrdMap.entries_insert_last seg fun e he => ?_
    have := ht.retained_end (List.mem_append_left _ he)
    omega
  simp [retained, TCPSender.transmit, startTimer, hlast, hfree]

/-- in the slot as well. -/
theorem Probes.retained_probe (hp : Probes s seg stream) :
    ({ s with stream := stream }.probe seg).retained = s.retained ++ [(s.nextSeqno, seg)] := by
  simp [retained, TCPSender.probe, startTimer, hp.free]

theorem retained_keep (hheld : s'.outstandingSegs = s.outstandingSegs)
    (hslot : s'.zeroWinSegSend = s.zeroWinSegSend) (hseq : s'.zeroWinSegSeq = s.zeroWinSegSeq)
    (hseg : s'.zeroWinSeg = s.zeroWinSeg) : s'.retained = s.retained := by
  simp only [retained, hheld, hslot, hseq, hseg]

theorem retained_retire (s : TCPSender) (ack : Nat) :
    (s.retire ack).retained.Sublist s.retained := by
  refine (unacked_sublist ack s.outstandingSegs.entries).append ?_
  simp only [TCPSender.retire]
  split <;> simp

theorem retained_tick (s : TCPSender) (ms : Nat) : (s.tick ms).retained = s.retained :=
  tick_preserves (Q := fun s' => s'.retained = s.retained) rfl (fun _ _ _ _ _ h => h)
    (fun _ h _ => h) (fun _ _ _ _ h _ => h) ms

/-- An acknowledgment only takes away from what is retained. -/
theorem retained_ack_received (s : TCPSender) (ackno : WrappingInt32) (win : UInt16) :
    (s.ackReceived ackno win).retained.Sublist s.retained := by
  unfold ackReceived
  split
  · exact .refl _
  · exact retained_retire s _

end Retained

section Rules

variable {W : Bytes} {Q : TCPSender → Prop} {s : TCPSender}

theorem fill_window_busy (h0 : s.nextSeqno ≠ 0) (hz : s.zeroWinSegSend = true) :
    s.fillWindow = s := by
  simp [fillWindow, h0, hz]

/-- The rule for `fill_window`, with what it looks at besides: segments are sent and
kept as outstanding only while the slot for a zero window is free. -/
theorem fill_window_preserves_free (ht : s.Taped W) (hq : Q s)
    (transmit : ∀ s seg stream, s.Taped W → Q s → s.zeroWinSegSend = false →
      Transmits s seg stream → Q ({ s with stream := stream }.transmit seg))
    (probe : ∀ s seg stream, s.Taped W → Q s → Probes s seg stream →
      Q ({ s with stream := stream }.probe seg)) : Q s.fillWindow := by
  by_cases hbusy : s.nextSeqno ≠ 0 ∧ s.zeroWinSegSend = true
  · rwa [fill_window_busy hbusy.1 hbusy.2]
  · have hfree : s.zeroWinSegSend = false ∨ s.winSize = 0 ∧ 0 < s.nextSeqno := by
      refine .inl (Bool.eq_false_iff.mpr fun hz => hbusy ⟨fun h0 => ?_, hz⟩)
      have := ht.retained_end (e := (s.zeroWinSegSeq, s.zeroWinSeg)) (by simp [retained, hz])
      omega
    -- once the slot is taken the window is closed, and nothing is sent any more
    refine (fill_window_preserves (Q := fun s => Q s ∧
      (s.zeroWinSegSend = false ∨ s.winSize = 0 ∧ 0 < s.nextSeqno)) ht ⟨hq, hfree⟩ ?_ ?_).2.1
    · rintro s seg stream ht ⟨hq, hfree⟩ hs
      have hz : s.zeroWinSegSend = false := by
        rcases hfree with hz | ⟨hw, hpos⟩
        · exact hz
        · have hlen := hs.length_pos
          rcases hs.room with ⟨h0, -⟩ | hroom
          · omega
          · simp only [hw, UInt16.toNat_zero] at hroom
            omega
      exact ⟨transmit s seg stream ht hq hz hs, .inl hz⟩
    · rintro s seg stream ht ⟨hq, -⟩ hp
      refine ⟨probe s seg stream ht hq hp, .inr ⟨hp.zero, ?_⟩⟩
      exact Nat.lt_of_lt_of_le (Nat.lt_of_le_of_lt (Nat.zero_le _) hp.flight) (Nat.le_add_right _ _)

end Rules

section Steps

variable {W : Bytes} {acked ack : Nat} {s s' : TCPSender} {seg : TCPSegment} {stream : ByteStream}

theorem Ranged.send (h : s.Ranged) (ht : s.Taped W)
    (hret : s'.retained = s.retained ++ [(s.nextSeqno, seg)]) : s'.Ranged := by
  rw [Ranged, hret]
  refine List.pairwise_append.mpr ⟨h, List.pairwise_singleton _ _, ?_⟩
  intro d hd e he
  rw [List.mem_singleton.mp he]
  exact (ht.retained_end hd).2

theorem Ranged.fill_window (h : s.Ranged) (ht : s.Taped W) : s.fillWindow.Ranged :=
  fill_window_preserves_free ht h
    (fun _ _ _ ht h hfree _ => h.send ht (ht.retained_transmit hfree))
    (fun _ _ _ ht h hp => h.send ht hp.retained_probe)

theorem Ranged.tick (h : s.Ranged) (ms : Nat) : (s.tick ms).Ranged := by
  rw [Ranged, retained_tick]
  exact h

theorem Ranged.ack_received (h : s.Ranged) (ackno : WrappingInt32) (win : UInt16) :
    (s.ackReceived ackno win).Ranged :=
  h.sublist (retained_ack_received s ackno win)

theorem Spans.send (h : s.Spans acked) (hret : s'.retained = s.retained ++ [(s.nextSeqno, seg)])
    (hnext : s'.nextSeqno = s.nextSeqno + seg.lengthInSequenceSpace)
    (hslot : s'.zeroWinSegSend = true → s'.zeroWinSeg.lengthInSequenceSpace = 1) :
    s'.Spans acked := by
  refine ⟨?_, hslot⟩
  intro q hq hlt
  rw [hret]
  by_cases hold : q < s.nextSeqno
  · obtain ⟨e, he, hin⟩ := h.kept q hq hold
    exact ⟨e, List.mem_append_left _ he, hin⟩
  · exact ⟨_, List.mem_append_right _ List.mem_cons_self, by simp only; omega, by simp only; omega⟩

theorem Spans.transmit (h : s.Spans acked) (ht : s.Taped W) (hfree : s.zeroWinSegSend = false) :
    ({ s with stream := stream }.transmit seg).Spans acked :=
  h.send (ht.retained_transmit hfree) rfl h.slot

/-- A byte sent into a zero window has no FIN with it: the slot's FIN flag tells of
a FIN that was sent, and then no byte is left. -/
theorem Probes.length_eq_one (hp : Probes s seg stream) (hc : s.Closing) :
    seg.lengthInSequenceSpace = 1 := by
  have hsyn := hp.plain (Nat.ne_of_gt (Nat.lt_of_le_of_lt (Nat.zero_le _) hp.flight))
  by_cases hnil : seg.payload = []
  · simp [TCPSegment.lengthInSequenceSpace, hnil, hsyn, hp.last hnil]
  · have hfin : seg.header.fin = false := by
      by_contra hf
      rcases hp.fin (by simpa using hf) with ⟨h, -⟩ | ⟨-, hslot⟩
      · exact hnil h
      · have htaken := hp.taken
        rw [(hc.ended (hc.slot hslot)).2] at htaken
        exact hnil (List.append_eq_nil_iff.mp htaken).1
    have := hp.small_slot
    have := List.length_pos_iff.mpr hnil
    simp only [TCPSegment.lengthInSequenceSpace, hsyn, hfin, Bool.false_eq_true, ↓reduceIte]
    omega

theorem Spans.probe (h : s.Spans acked) (hc : s.Closing) (hp : Probes s seg stream) :
    ({ s with stream := stream }.probe seg).Spans acked :=
  h.send hp.retained_probe rfl (fun _ => hp.length_eq_one hc)

/-- Steps that leave the retained segments and the numbers alone. -/
theorem Spans.keep (h : s.Spans acked) (hnext : s'.nextSeqno = s.nextSeqno)
    (hheld : s'.outstandingSegs = s.outstandingSegs)
    (hslot : s'.zeroWinSegSend = s.zeroWinSegSend) (hseq : s'.zeroWinSegSeq = s.zeroWinSegSeq)
    (hseg : s'.zeroWinSeg = s.zeroWinSeg) : s'.Spans acked :=
  ⟨by rw [retained_keep hheld hslot hseq hseg, hnext]; exact h.kept,
    by rw [hslot, hseg]; exact h.slot⟩

/-- What an acknowledgment lets go lies below it. -/
theorem Spans.mem_retire (h : s.Spans acked) (ack : Nat) {e : Nat × TCPSegment}
    (he : e ∈ s.retained) :
    e ∈ (s.retire ack).retained ∨ e.1 + e.2.lengthInSequenceSpace ≤ ack := by
  rcases List.mem_append.mp he with he | he
  · rcases mem_unacked ack he with hkeep | hgone
    · exact .inl (List.mem_append_left _ hkeep)
    · exact .inr (by omega)
  · split at he
    · rename_i hz
      by_cases hack : ack > s.zeroWinSegSeq
      · rw [List.mem_singleton.mp he, h.slot hz]
        exact .inr hack
      · refine .inl (List.mem_append_right _ ?_)
        simpa only [TCPSender.retire, hack, hz, ↓reduceIte] using he
    · cases he

theorem Spans.retire (h : s.Spans acked) (ack : Nat) : (s.retire ack).Spans (max acked ack) := by
  refine ⟨?_, ?_⟩
  · intro q hq hlt
    obtain ⟨e, he, hin⟩ := h.kept q (by omega) hlt
    rcases h.mem_retire ack he with hkeep | hgone
    · exact ⟨e, hkeep, hin⟩
    · omega
  · intro hz
    refine h.slot ?_
    simp only [TCPSender.retire] at hz
    split at hz
    · cases hz
    · exact hz

theorem Spans.fill_window (h : s.Spans acked) (ht : s.Taped W) (hc : s.Closing) :
    s.fillWindow.Spans acked :=
  (fill_window_preserves_free (Q := fun s => s.Closing ∧ s.Spans acked) ht ⟨hc, h⟩
    (fun _ _ _ ht h hfree hs => ⟨h.1.transmit hs, h.2.transmit ht hfree⟩)
    (fun _ _ _ _ h hp => ⟨h.1.probe hp, h.2.probe h.1 hp⟩)).2

theorem Spans.tick (h : s.Spans acked) (ms : Nat) : (s.tick ms).Spans acked :=
  tick_preserves h (fun _ _ _ _ _ h => h.keep rfl rfl rfl rfl rfl)
    (fun _ h _ => h.keep rfl rfl rfl rfl rfl) (fun _ _ _ _ h _ => h.keep rfl rfl rfl rfl rfl) ms

end Steps

end TCPSender

/-- A sender in use, with what its peer has told it: the largest acknowledgment it
has taken, as an absolute number, and the furthest right edge of a window. -/
structure AckSession extends SenderSession where
  acked : Nat := 0
  edge : Nat := 0

namespace AckSession

open TCPSender

def new (capacity : Nat) (timeout : UInt16) (isn : WrappingInt32) : AckSession :=
  { toSenderSession := .new capacity timeout isn }

/-- An acknowledgment that is not understood tells nothing. -/
def step (x : AckSession) (u : SenderUse) : AckSession :=
  match u with
  | .ackReceived ackno win =>
    match x.sender.ackSeqno ackno with
    | none => { x with toSenderSession := x.toSenderSession.step u }
    | some ack =>
      { toSenderSession := x.toSenderSession.step u
        acked := max x.acked ack
        edge := max x.edge (ack + win.toNat) }
  | _ => { x with toSenderSession := x.toSenderSession.step u }

/-- No write comes after the end of the input. -/
def WriteOpen (x : AckSession) (u : SenderUse) : Prop := x.toSenderSession.WriteOpen u

instance (x : AckSession) (u : SenderUse) : Decidable (x.WriteOpen u) :=
  inferInstanceAs (Decidable (x.toSenderSession.WriteOpen u))

@[simp] theorem step_session (x : AckSession) (u : SenderUse) :
    (x.step u).toSenderSession = x.toSenderSession.step u := by
  cases u with
  | ackReceived ackno win =>
    simp only [step]
    split <;> rfl
  | _ => rfl

/-- What holds of every sender in use: its books, and the order of what it retains. -/
structure Kept (x : AckSession) : Prop where
  taped : x.sender.Taped x.accepted
  ranged : x.sender.Ranged

theorem new_kept (capacity : Nat) (timeout : UInt16) (isn : WrappingInt32) :
    (new capacity timeout isn).Kept :=
  ⟨new_taped capacity timeout isn, new_ranged capacity timeout isn⟩

theorem Kept.step {x : AckSession} (h : x.Kept) (u : SenderUse) : (x.step u).Kept := by
  refine ⟨by rw [step_session]; exact SenderSession.step_taped h.taped u, ?_⟩
  rw [step_session]
  cases u with
  | write data => exact h.ranged
  | endInput => exact h.ranged
  | fillWindow => exact h.ranged.fill_window h.taped
  | tick ms => exact h.ranged.tick ms
  | ackReceived ackno win => exact h.ranged.ack_received ackno win

/-- What holds besides if the stream is not written to after its end: nothing that is
not acknowledged is missing. -/
structure Sound (x : AckSession) : Prop extends Kept x where
  closing : x.sender.Closing
  spans : x.sender.Spans x.acked

theorem new_sound (capacity : Nat) (timeout : UInt16) (isn : WrappingInt32) :
    (new capacity timeout isn).Sound :=
  ⟨new_kept capacity timeout isn, new_closing capacity timeout isn, new_spans capacity timeout isn⟩

theorem Sound.step {x : AckSession} {u : SenderUse} (h : x.Sound) (hu : x.WriteOpen u) :
    (x.step u).Sound := by
  refine ⟨h.toKept.step u, ?_, ?_⟩
  · rw [step_session]
    exact SenderSession.step_closing h.taped h.closing hu
  cases u with
  | write data => exact h.spans.keep rfl rfl rfl rfl rfl
  | endInput => exact h.spans.keep rfl rfl rfl rfl rfl
  | fillWindow => exact h.spans.fill_window h.taped h.closing
  | tick ms => exact h.spans.tick ms
  | ackReceived ackno win =>
    simp only [AckSession.step]
    split
    · rename_i hack
      simp only [SenderSession.step, TCPSender.ackReceived, hack]
      exact h.spans
    · rename_i ack hack
      simp only [SenderSession.step, TCPSender.ackReceived, hack]
      exact (h.spans.retire ack).keep rfl rfl rfl rfl rfl

/-- Every number sent and not acknowledged is covered by exactly one of the
segments the sender can send again. -/
def CoveredOnce (x : AckSession) : Prop :=
  ∀ q, x.acked ≤ q → q < x.sender.nextSeqnoAbsolute →
    (x.sender.retained.filter
      (fun e => e.1 ≤ q ∧ q < e.1 + e.2.lengthInSequenceSpace)).length = 1

/-- No number that is not acknowledged is forgotten, in any state of a sender
whose stream is not written to after its end. -/
theorem unacked_covered_once (capacity : Nat) (timeout : UInt16) (isn : WrappingInt32)
    (us : List SenderUse) (h : Run.Along step WriteOpen (new capacity timeout isn) us) :
    Run.Always step CoveredOnce (new capacity timeout isn) us := by
  refine Run.always_of_invariant (new_sound capacity timeout isn) h (fun x u hx hu => hx.step hu) ?_
  intro x hx q hq hlt
  exact length_filter_of_stretches (fun e : Nat × TCPSegment => e.1)
    (fun e => e.2.lengthInSequenceSpace) hx.ranged (hx.spans.kept q hq hlt)

/-- Two segments, an acknowledgment in the middle of the second, a stale one with a
zero window, a probe, and a bogus acknowledgment. -/
theorem unacked_covered_once_probe : Run.Always step CoveredOnce (new 10 1000 ⟨7⟩)
    [.fillWindow, .ackReceived ⟨8⟩ 2, .write [1, 2, 3, 4, 5], .fillWindow, .ackReceived ⟨9⟩ 4,
      .fillWindow, .ackReceived ⟨8⟩ 0, .fillWindow, .ackReceived ⟨99⟩ 9, .tick 1000] :=
  unacked_covered_once 10 1000 ⟨7⟩ _ (by decide +kernel)

end AckSession

end Sponge
