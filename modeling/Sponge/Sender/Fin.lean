import Sponge.Sender.Session

namespace Sponge

namespace TCPSender

/-- The state in which `fill_window` sends FIN once more: a zero window, the slot
for it free, and the FIN sent already. The branch for a zero window does not
look at the sequence number, as the branch for an open one does. -/
def Refin (s : TCPSender) : Prop :=
  (s.stream.eof = true ∧ s.nextSeqno ≥ s.stream.bytesWritten + 2) ∧
    s.winSize = 0 ∧ s.nextSeqno > s.bytesInFlight ∧ s.zeroWinSegSend = false

instance (s : TCPSender) : Decidable s.Refin :=
  inferInstanceAs (Decidable ((_ ∧ _) ∧ _ ∧ _ ∧ _))

/-- FIN is on the tape at most once, at its end, and the numbers used so far are
those of the bytes read, the SYN and the FIN. -/
structure OneFin (s : TCPSender) : Prop where
  last : ∀ j : Nat, s.tape[j]? = some .fin → j + 1 = s.nextSeqno
  before : .fin ∉ s.tape → s.nextSeqno = 0 ∨ s.nextSeqno = s.stream.bytesRead + 1
  after : .fin ∈ s.tape → s.nextSeqno = s.stream.bytesRead + 2

theorem new_one_fin (capacity : Nat) (timeout : UInt16) (isn : WrappingInt32) :
    (new capacity timeout isn).OneFin :=
  ⟨by simp [new, tape], by simp [new], by simp [new, tape]⟩

section Steps

variable {W : Bytes} {s s' : TCPSender} {seg : TCPSegment} {stream : ByteStream}

/-- A first transmission before the FIN, with or without it. -/
theorem OneFin.send (h : s.OneFin) (ht : s.Taped W) (hf : Fresh s seg stream)
    (hnone : .fin ∉ s.tape) (hsent : s'.sent = s.sent ++ [⟨s.nextSeqno, seg, true⟩])
    (hstream : s'.stream = stream)
    (hnext : s'.nextSeqno = s.nextSeqno + seg.lengthInSequenceSpace) : s'.OneFin := by
  have htape : s'.tape = s.tape ++ seg.symbols := tape_append_first hsent
  have hlen := ht.length
  have hpos := hf.length_pos
  have hmem : .fin ∈ s'.tape ↔ seg.header.fin = true := by
    rw [htape, List.mem_append, or_iff_right hnone, TCPSegment.fin_mem_symbols]
  -- the SYN goes first, so nothing has been read by then
  have hcount : s.nextSeqno + (if seg.header.syn then 1 else 0) = s.stream.bytesRead + 1 := by
    rcases h.before hnone with h0 | h1
    · have hread := ht.read
      rw [List.length_eq_zero_iff.mp (hlen.trans h0)] at hread
      simp only [hf.syn.mpr h0, ↓reduceIte, h0, hread]
      rfl
    · have hsyn : seg.header.syn ≠ true := fun hs => by
        have := hf.syn.mp hs
        omega
      simp only [if_neg hsyn]
      omega
  have hread := hf.read
  refine ⟨?_, ?_, ?_⟩
  · intro j hj
    rw [htape] at hj
    by_cases hjl : j < s.tape.length
    · rw [List.getElem?_append_left hjl] at hj
      exact absurd (List.mem_of_getElem? hj) hnone
    · rw [List.getElem?_append_right (by omega)] at hj
      have := (TCPSegment.symbols_fin.mp hj).2
      omega
  · intro hno
    have hfin : seg.header.fin ≠ true := fun h => hno (hmem.mpr h)
    refine .inr ?_
    simp only [TCPSegment.lengthInSequenceSpace, if_neg hfin] at hnext
    rw [hstream]
    omega
  · intro hm
    simp only [TCPSegment.lengthInSequenceSpace, hmem.mp hm, ↓reduceIte] at hnext
    rw [hstream]
    omega

theorem OneFin.keep (h : s.OneFin) (ht : s'.tape = s.tape)
    (hread : s'.stream.bytesRead = s.stream.bytesRead) (hnext : s'.nextSeqno = s.nextSeqno) :
    s'.OneFin :=
  ⟨by rw [ht, hnext]; exact h.last, by rw [ht, hnext, hread]; exact h.before,
    by rw [ht, hnext, hread]; exact h.after⟩

/-- While there are data to be sent, and while the numbers are short of it, FIN has
not been sent. -/
theorem OneFin.not_sent (h : s.OneFin) (ht : s.Taped W) (hc : s.Closing)
    (hdue : s.stream.buffer ≠ [] ∨ s.nextSeqno < s.stream.bytesWritten + 2) : .fin ∉ s.tape := by
  intro hm
  have hnil := (hc.ended hm).2
  rcases hdue with hne | hlt
  · exact hne hnil
  · have hafter := h.after hm
    have hcount := ht.stream.counted
    rw [hnil] at hcount
    simp only [List.length_nil, ByteStream.bytesWritten, ByteStream.bytesRead] at *
    omega

theorem OneFin.fill_window (h : s.OneFin) (ht : s.Taped W) (hc : s.Closing) (hr : ¬ s.Refin) :
    s.fillWindow.OneFin := by
  have hmore : ∀ {s : TCPSender} {seg stream}, Fresh s seg stream → seg.payload ≠ [] →
      s.stream.buffer ≠ [] := by
    intro s seg stream hf hne hnil
    have htaken := hf.taken
    rw [hnil] at htaken
    exact hne (List.append_eq_nil_iff.mp htaken).1
  refine (fill_window_preserves (Q := fun s => s.Closing ∧ s.OneFin ∧ ¬ s.Refin) ht
    ⟨hc, h, hr⟩ ?_ ?_).2.2.1
  · rintro s seg stream ht ⟨hc, h, -⟩ hs
    have hnone := h.not_sent ht hc (hs.due.imp_left (hmore hs.toFresh))
    refine ⟨hc.transmit hs, h.send ht hs.toFresh hnone rfl rfl rfl, ?_⟩
    rintro ⟨⟨-, hge⟩, hw, -⟩
    have hpos := hs.length_pos
    rcases hs.room with ⟨h0, hone⟩ | hroom
    · simp only [TCPSender.transmit, startTimer, h0, hone] at hge
      omega
    · simp only [TCPSender.transmit, startTimer] at hw
      simp only [hw, UInt16.toNat_zero] at hroom
      omega
  · rintro s seg stream ht ⟨hc, h, hr⟩ hp
    have hdue : s.stream.buffer ≠ [] ∨ s.nextSeqno < s.stream.bytesWritten + 2 := by
      by_cases hnil : seg.payload = []
      · refine .inr (Nat.lt_of_not_ge fun hge => hr ⟨⟨?_, hge⟩, hp.zero, hp.flight, hp.free⟩)
        have hbuf := hp.taken
        rw [hnil, List.nil_append] at hbuf
        have heof := ((hp.fin (hp.last hnil)).resolve_right (fun h => h.1 hnil)).2
        simpa only [ByteStream.eof, ByteStream.inputEnded, ByteStream.bufferEmpty, hp.ended, hbuf]
          using heof
      · exact .inl (hmore hp.toFresh hnil)
    exact ⟨hc.probe hp, h.send ht hp.toFresh (h.not_sent ht hc hdue) rfl rfl rfl,
      fun hr => Bool.noConfusion hr.2.2.2⟩

theorem OneFin.tick (h : s.OneFin) (ms : Nat) : (s.tick ms).OneFin :=
  tick_preserves h (fun _ _ _ _ _ h => h.keep rfl rfl rfl)
    (fun _ h _ => h.keep (tape_append_again rfl) rfl rfl)
    (fun _ _ _ _ h _ => h.keep (tape_append_again rfl) rfl rfl) ms

theorem OneFin.ack_received (h : s.OneFin) (ackno : WrappingInt32) (win : UInt16) :
    (s.ackReceived ackno win).OneFin := by
  unfold ackReceived
  split
  · exact h
  · exact h.keep rfl rfl rfl

/-- In such a state the next call does send FIN once more. -/
theorem Refin.fill_window (h : s.Refin) : s.fillWindow = s.probeFin := by
  obtain ⟨⟨heof, hge⟩, hw, hfl, hz⟩ := h
  have hb : s.stream.bufferEmpty = true := (ByteStream.eof_iff.mp heof).2
  simp [fillWindow, show s.nextSeqno ≠ 0 by omega, hw, hz, hfl, hb, heof]

end Steps

end TCPSender

namespace SenderSession

open TCPSender

/-- FIN takes up one sequence number, the one behind the whole stream: no number
behind it is used, and every segment with FIN ends there. -/
def FinOnce (x : SenderSession) : Prop :=
  x.sender.nextSeqnoAbsolute ≤ x.sender.stream.bytesWritten + 2 ∧
    ∀ e ∈ x.sender.sent, e.seg.header.fin = true →
      e.seqno + e.seg.lengthInSequenceSpace = x.sender.stream.bytesWritten + 2

/-- The window is not filled in a state that would repeat the FIN. -/
def FinFresh (x : SenderSession) : SenderUse → Prop
  | .fillWindow => ¬ x.sender.Refin
  | _ => True

instance (x : SenderSession) : (u : SenderUse) → Decidable (x.FinFresh u)
  | .fillWindow => inferInstanceAs (Decidable (¬ _))
  | .write _ | .endInput | .ackReceived _ _ | .tick _ => .isTrue trivial

theorem Sound.fin_once {x : SenderSession} (h : x.Sound) (hf : x.sender.OneFin) : x.FinOnce := by
  have hcount := h.taped.stream.counted
  have hdone : .fin ∈ x.sender.tape → x.sender.nextSeqno = x.sender.stream.bytesWritten + 2 := by
    intro hm
    have hafter := hf.after hm
    rw [(h.closing.ended hm).2] at hcount
    simp only [List.length_nil, ByteStream.bytesWritten, ByteStream.bytesRead] at *
    omega
  constructor
  · by_cases hm : .fin ∈ x.sender.tape
    · exact Nat.le_of_eq (hdone hm)
    · have hbefore := hf.before hm
      simp only [nextSeqnoAbsolute, ByteStream.bytesWritten, ByteStream.bytesRead] at *
      omega
  · intro e he hfin
    have hr := h.taped.sent e he
    have hpos := TCPSegment.symbols_ne_nil.mp (h.logged.solid e he)
    have hget := hr.stands _ _ (TCPSegment.last_symbol hfin)
    have := hf.last _ hget
    have := hdone (List.mem_of_getElem? hget)
    omega

theorem step_one_fin {x : SenderSession} {u : SenderUse} (h : x.Sound) (hf : x.sender.OneFin)
    (hu : x.FinFresh u) : (x.step u).sender.OneFin := by
  cases u with
  | write data => exact hf.keep rfl rfl rfl
  | endInput => exact hf.keep rfl rfl rfl
  | fillWindow => exact hf.fill_window h.taped h.closing hu
  | ackReceived ackno win => exact hf.ack_received ackno win
  | tick ms => exact hf.tick ms

/-- A call that repeats the FIN uses a number behind it. -/
theorem fin_fresh_of_once {x : SenderSession} {u : SenderUse} (h : (x.step u).FinOnce) :
    x.FinFresh u := by
  cases u with
  | fillWindow =>
    intro hr
    have hle := h.1
    simp only [step, hr.fill_window] at hle
    have := hr.1.2
    simp [probeFin, probe, startTimer, nextSeqnoAbsolute, TCPSegment.lengthInSequenceSpace] at hle
    omega
  | _ => trivial

/-- FIN is sent once in every state of a run, just when the window is never filled
in a state that repeats the FIN. -/
theorem fin_once_iff_fresh (capacity : Nat) (timeout : UInt16) (isn : WrappingInt32)
    (us : List SenderUse) (h : Run.Along step WriteOpen (new capacity timeout isn) us) :
    Run.Always step FinOnce (new capacity timeout isn) us ↔
      Run.Along step FinFresh (new capacity timeout isn) us := by
  constructor
  · exact fun ha => ha.along (fun x u hx => fin_fresh_of_once hx)
  · intro hfresh
    refine Run.always_of_invariant (I := fun x => x.Sound ∧ x.sender.OneFin)
      ⟨new_sound capacity timeout isn, new_one_fin capacity timeout isn⟩ (h.and hfresh) ?_
      (fun x hx => hx.1.fin_once hx.2)
    rintro x u ⟨hs, hf⟩ ⟨hopen, hu⟩
    exact ⟨hs.step hopen, step_one_fin hs hf hu⟩

/-- A FIN behind two bytes, sent into a zero window and acknowledged. -/
theorem fin_once_iff_fresh_two : Run.Always step FinOnce (new 10 1000 ⟨0⟩)
    [.fillWindow, .ackReceived ⟨1⟩ 2, .write [1, 2], .endInput, .fillWindow, .ackReceived ⟨3⟩ 0,
      .fillWindow, .tick 1000, .ackReceived ⟨4⟩ 5, .fillWindow] :=
  (fin_once_iff_fresh 10 1000 ⟨0⟩ _ (by decide +kernel)).mpr (by decide +kernel)

/-- The peer's window closes after the FIN was sent: the next call sends a second
one, behind the first. -/
theorem zero_window_repeats_fin :
    ¬ ∀ (capacity : Nat) (timeout : UInt16) (isn : WrappingInt32) (us : List SenderUse),
      Run.Along step WriteOpen (new capacity timeout isn) us →
      Run.Always step FinOnce (new capacity timeout isn) us := by
  intro h
  have hlast := (h 10 1000 ⟨0⟩ [.fillWindow, .ackReceived ⟨1⟩ 10, .endInput, .fillWindow,
    .ackReceived ⟨1⟩ 0, .fillWindow] (by decide +kernel)).final.1
  revert hlast
  decide +kernel

end SenderSession

end Sponge
